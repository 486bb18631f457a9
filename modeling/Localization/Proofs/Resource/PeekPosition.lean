import Localization.Proofs.Resource.Tracking

/-!
# The peek position is always taken back

A cursor that has read something, an entry or junk, has no lookahead pending. An entry can fail with
an arrow in sight, and then the peek position stands behind the minus sign of that arrow; but the
recovery that follows takes lines from the committed position, since an arrow is not at the start of
a line. So on the whole way through a source every question is asked, and every run of blank lines
is skipped, from the committed position.

## Main statements

* `Cursor.Ready.takeEntry_ready` — behind an entry, read or broken, no lookahead is pending
* `Alarm.parse_resource`, `Alarm.parse_entry` — no alarm is ever raised
* `Resource.lookahead_committed` — productions, entries, and whole sources
-/

namespace Localization

open Localization.Parser (Production Steady Tracks entryLine)

variable {c : Cursor} {alarm : Alarm}

/-- An alarm that fails in place of a question. -/
def Alarm.stalled : Alarm := ⟨fun _ => Parser.stalled, fun c => (0, c)⟩

/-- Behind an entry no lookahead is pending, even if it is broken. -/
theorem Cursor.Ready.takeEntry_ready (hc : c.Ready) : c.takeEntry.2.Ready := by
  cases hrun : entryLine c.beginCapture with
  | ok entry d =>
    have hready := Steady.ready_of_ok hc.beginCapture hrun
    rw [takeEntry_of_ok hrun]
    exact ⟨hready.ahead_eq, hready.size_eq⟩
  | error e d =>
    have hready : (d.skipToEntryStart c.offset).Ready := by
      unfold Cursor.skipToEntryStart
      split
      · next hstart =>
        -- where recovery stops at once, the error is at the start of a line
        have htracks : Tracks entryLine (@entryLine Alarm.stalled.guard) := inferInstance
        exact (htracks.tracks _ hc.beginCapture).kept e d hrun hstart.2.1
      · have hd := (Steady.settled_of_error hc.beginCapture hrun).resetPeek_ready
        obtain ⟨-, taken, htakes, -⟩ := hd.skipLines
        rw [← skipLines_resetPeek]
        exact htakes.ready
    rw [takeEntry_of_error hrun]
    exact ⟨hready.ahead_eq, hready.size_eq⟩

/-! ### Reading without an alarm -/

namespace Alarm

/-- Taking an entry raises no alarm. -/
theorem takeEntry (hc : c.Ready) : @Cursor.takeEntry alarm.guard c = c.takeEntry := by
  -- recovery asks no questions, so only the entry itself could raise an alarm
  have htracks : Tracks entryLine (@entryLine alarm.guard) := inferInstance
  unfold Cursor.takeEntry
  rw [← (htracks.tracks _ hc.beginCapture).same]

/-- Reading a source to its end raises no alarm. -/
theorem takeEntries (hc : c.Ready) : @Cursor.takeEntries alarm.guard c = c.takeEntries := by
  -- induction on what is left to read
  induction hlength : c.remaining using Nat.strongRecOn generalizing c with
  | ind length ih =>
    subst hlength
    conv_lhs => unfold Cursor.takeEntries
    cases hcurrent : c.current with
    | none => exact (Cursor.takeEntries_of_nil (Cursor.current_eq_none_iff.1 hcurrent)).symm
    | some ch =>
      have hready := hc.takeEntry_ready
      have hlt := hc.remaining_lt_of_entry hcurrent
      rw [hc.takeEntries_turn hcurrent, takeEntry hc]
      simp only [Parser.guard_skipBlankLines hready, if_pos hlt,
        ih _ hlt hready.skipBlankLines.1 rfl]

/-- Reading the first message or term raises no alarm. -/
theorem first (hc : c.Ready) : @Entry.first alarm.guard c = Entry.first c := by
  induction hlength : c.remaining using Nat.strongRecOn generalizing c with
  | ind length ih =>
    subst hlength
    conv_lhs => unfold Entry.first
    rw [takeEntry hc]
    dsimp only
    split
    · next junk _ hjunk => exact (Entry.first_of_junk hjunk).symm
    · next hcurrent hentry =>
      have hready := hc.takeEntry_ready
      have hlt := hc.remaining_lt_of_entry hcurrent
      rw [Parser.guard_skipBlankLines hready, if_pos hlt, ih _ hlt hready.skipBlankLines.1 rfl]
      exact (hc.first_turn hcurrent hentry).symm
    · next hne _ => exact (Entry.first_of_ne hne).symm

theorem parse_resource (source : String) :
    @Resource.parse alarm.guard source = Resource.parse source := by
  have hready := Cursor.ready_atStart (Cursor.held source.toList)
  unfold Resource.parse Resource.ofText Resource.read
  rw [Parser.guard_skipBlankLines hready, takeEntries hready.skipBlankLines.1]
  rfl

theorem parse_entry (source : String) :
    @Entry.parse alarm.guard source = Entry.parse source := by
  have hready := Cursor.ready_atStart (Cursor.held source.toList)
  unfold Entry.parse Entry.ofText Entry.read
  rw [Parser.guard_skipBlankLines hready, first hready.skipBlankLines.1]
  rfl

end Alarm

namespace Resource

/-- A production that starts with no lookahead pending succeeds with none, and the next entry is
taken without leaving one, even if it is broken. So reading a source, or its first entry, gives the
same with any alarm that is raised where a question is asked or blank lines are skipped from
anywhere but the committed position. -/
theorem lookahead_committed :
    (∀ {α : Type} {p : Parser α}, Production p → ∀ (c d : Cursor) (a : α), c.Ready →
      p c = .ok a d → d.Ready) ∧
    (∀ c : Cursor, c.Ready → c.takeEntry.2.Ready) ∧
    ∀ (alarm : Alarm) (source : String),
      @parse alarm.guard source = parse source ∧
        @Entry.parse alarm.guard source = Entry.parse source := by
  refine ⟨fun hp c d a hc hrun => ?_, fun c hc => hc.takeEntry_ready, fun alarm source => ?_⟩
  · have := hp.steady
    exact Steady.ready_of_ok hc hrun
  · exact ⟨alarm.parse_resource _, alarm.parse_entry _⟩

/-- A message cannot be a selector, which shows with an arrow in sight. -/
theorem lookahead_committed_arrow :
    let c := Cursor.ofText "a = \x7b b -> \x7d\nd = e".toList
    (∃ id d, Parser.identifier c = .ok id d ∧ d.Ready) ∧
      ¬(Parser.stopOf (entryLine c.beginCapture)).Ready ∧ c.takeEntry.2.Ready ∧
      @parse Alarm.stalled.guard "a = \x7b b -> \x7d\nd = e" =
        parse "a = \x7b b -> \x7d\nd = e" := by
  intro c
  -- the entry fails behind the minus sign, so that taking it is what takes the peek position back
  obtain ⟨hproduction, hentry, hsource⟩ := lookahead_committed
  have hready : c.Ready := Cursor.ready_ofText _
  obtain ⟨id, d, hrun⟩ : ∃ id d, Parser.identifier c = .ok id d :=
    Parser.exists_ok (by decide +kernel)
  refine ⟨⟨id, d, hrun, hproduction .identifier c d id hready hrun⟩, ?_, hentry c hready,
    (hsource _ _).1⟩
  decide +kernel

end Resource

end Localization
