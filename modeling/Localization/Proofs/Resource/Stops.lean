import Localization.Proofs.Resource.Advance
import Localization.Proofs.Resource.Attachment

/-!
# Where errors are reported

No production of the grammar goes back, and one that fails reports its error where the cursor stands
when it gives up. Recovery only moves on from there, so the place of an error lies within the junk
that is made of it, and the bounds that junk sets to that place never change it.

## Main statements

* `Cursor.Ready.takeEntry_error` — the junk of a broken entry
* `Entry.exists_taken` — what is read as the first entry has been taken somewhere
* `Resource.errors_at_stops` — productions fail where they stop, and junk has one error within it
-/

namespace Localization

open Localization.Parser (Forward Production Steady entryLine)

/-! ### Junk and its error -/

namespace Cursor

variable {c d : Cursor} {e : SyntaxError}

/-- Recovery starts where the error is reported, and moves on. -/
theorem Ready.takeEntry_error (hc : c.Ready) (hrun : entryLine c.beginCapture = .error e d) :
    c.offset ≤ e.offset ∧ e.offset ≤ c.takeEntry.2.offset ∧
      min (max e.offset c.offset) c.takeEntry.2.offset = e.offset ∧
      ∃ content, c.takeEntry.1 =
        .junk ⟨content, [e.diagnosticAt e.offset], ⟨c.offset, c.takeEntry.2.offset⟩⟩ := by
  have hready := (Steady.settled_of_error hc.beginCapture hrun).resetPeek_ready
  have hstop : e.offset = d.offset := Forward.stops _ _ _ hrun
  have hle : c.offset ≤ d.offset := (Forward.to_error hrun : c.beginCapture.To d).offset_le
  have hge : d.offset ≤ (d.skipToEntryStart c.offset).offset :=
    (to_skipToEntryStart c.offset hready).offset_le
  have hbounds : min (max e.offset c.offset) (d.skipToEntryStart c.offset).offset = e.offset := by
    rw [hstop, max_eq_left hle, min_eq_left hge]
  rw [takeEntry_of_error hrun, hbounds]
  exact ⟨hstop ▸ hle, hstop ▸ hge, hbounds, _, rfl⟩

/-- Junk reports the error that an entry failed with. -/
theorem Ready.takeEntry_junk (hc : c.Ready) {junk : Junk} (h : c.takeEntry.1 = .junk junk) :
    ∃ e : SyntaxError, junk.diagnostics = [e.diagnosticAt e.offset] ∧
      junk.span.start ≤ e.offset ∧ e.offset ≤ junk.span.stop := by
  cases hrun : entryLine c.beginCapture with
  | ok entry d =>
    -- an entry that is read is no junk
    obtain ⟨text, ending, -, hspells, -⟩ := Parser.entryLine_returns hc.beginCapture hrun
    rw [takeEntry_of_ok hrun] at h
    exact absurd h hspells.ne_junk
  | error e d =>
    obtain ⟨hle, hge, -, content, hjunk⟩ := hc.takeEntry_error hrun
    obtain rfl := Entry.junk.inj (h.symm.trans hjunk)
    exact ⟨e, rfl, hle, hge⟩

end Cursor

/-- What is read as the first entry has been taken somewhere. -/
theorem Entry.exists_taken {c : Cursor} (hc : c.Ready) :
    ∃ d : Cursor, d.Ready ∧ d.takeEntry.1 = first c := by
  -- along the comments that are passed over
  fun_induction first c with
  | case1 c d junk hhash htake => exact ⟨c, hc, by rw [htake]⟩
  | case2 c entry d htake hhash next hlt hjunk ih =>
    have hturn : c.Turn c.takeEntry.2.skipBlankLines.2 := .entry hhash
    rw [htake] at hturn
    exact ih (hturn.offset_lt hc).2
  | case3 c entry d htake => exact ⟨c, hc, by rw [htake]⟩
  | case4 c entry d htake => exact ⟨c, hc, by rw [htake]⟩

namespace Resource

/-- A production never goes back, and it reports an error where it stops. So the error of a broken
entry lies between the start of the entry and the end of what is skipped, where the bounds of junk
leave it alone; and all junk has one diagnostic, at a point within its span and with the message of
its code. -/
theorem errors_at_stops :
    (∀ {α : Type} {p : Parser α}, Production p → ∀ c : Cursor,
      (∀ a d, p c = .ok a d → c.offset ≤ d.offset) ∧
      ∀ e d, p c = .error e d → c.offset ≤ d.offset ∧ e.offset = d.offset) ∧
    (∀ (c d : Cursor) (e : SyntaxError), c.Ready → entryLine c.beginCapture = .error e d →
      c.offset ≤ e.offset ∧ e.offset ≤ c.takeEntry.2.offset ∧
        min (max e.offset c.offset) c.takeEntry.2.offset = e.offset ∧
        ∃ content, c.takeEntry.1 =
          .junk ⟨content, [e.diagnosticAt e.offset], ⟨c.offset, c.takeEntry.2.offset⟩⟩) ∧
    ∀ (source : String) (junk : Junk),
      .junk junk ∈ (parse source).body ∨ Entry.parse source = .junk junk →
      ∃ (code : ErrorCode) (args : List String) (place : ℕ),
        junk.diagnostics = [⟨code.text, args, code.message args, .point place⟩] ∧
        junk.span.start ≤ place ∧ place ≤ junk.span.stop := by
  refine ⟨fun hp c => ?_, fun c d e hc hrun => hc.takeEntry_error hrun, fun source junk h => ?_⟩
  · have := hp.steady
    constructor
    · intro a d hrun
      exact (Forward.to_ok hrun).offset_le
    · intro e d hrun
      exact ⟨(Forward.to_error hrun).offset_le, Forward.stops _ _ _ hrun⟩
  · -- both ways to read a source take junk at a cursor without pending lookahead
    have htaken : ∃ c : Cursor, c.Ready ∧ c.takeEntry.1 = .junk junk := by
      rcases h with hbody | hfirst
      · have hjunk : junk ∈ (parse source).junk := List.mem_filterMap.2 ⟨_, hbody, rfl⟩
        obtain ⟨-, c, -, hat, -, htake⟩ := exists_taken hjunk
        exact ⟨c, hat.ready, htake⟩
      · have hready := (Cursor.ready_ofText source.toList).skipBlankLines.1
        obtain ⟨c, hc, htake⟩ := Entry.exists_taken hready
        exact ⟨c, hc, htake.trans hfirst⟩
    obtain ⟨c, hc, htake⟩ := htaken
    obtain ⟨e, hdiagnostics, hle, hge⟩ := hc.takeEntry_junk htake
    exact ⟨e.code, e.args, e.offset, hdiagnostics, hle, hge⟩

/-- The call has no end, which shows at the end of the source. -/
theorem errors_at_stops_unclosed :
    (∃ e d, Parser.entry (Cursor.ofText "a = \x7b B(1".toList) = .error e d ∧ e.offset = d.offset) ∧
    (∃ e d, entryLine (Cursor.ofText "a = \x7b B(1".toList).beginCapture = .error e d ∧
      (Cursor.ofText "a = \x7b B(1".toList).offset ≤ e.offset) ∧
    ∃ junk code args place, .junk junk ∈ (parse "a = \x7b B(1").body ∧
      junk.diagnostics = [⟨ErrorCode.text code, args, code.message args, .point place⟩] ∧
      junk.span.start ≤ place ∧ place ≤ junk.span.stop := by
  obtain ⟨hstops, hbounds, hjunk⟩ := errors_at_stops
  generalize hc : Cursor.ofText "a = \x7b B(1".toList = c
  refine ⟨?_, ?_, ?_⟩
  · obtain ⟨e, d, hrun⟩ : ∃ e d, Parser.entry c = .error e d :=
      Parser.exists_error (by rw [← hc]; decide +kernel)
    exact ⟨e, d, hrun, ((hstops .entry c).2 e d hrun).2⟩
  · obtain ⟨e, d, hrun⟩ : ∃ e d, entryLine c.beginCapture = .error e d :=
      Parser.exists_error (by rw [← hc]; decide +kernel)
    exact ⟨e, d, hrun, (hbounds c d e (hc ▸ Cursor.ready_ofText _) hrun).1⟩
  · have hbroken : (parse "a = \x7b B(1").junk.length = 1 := by decide +kernel
    obtain ⟨junk, hlist⟩ := List.length_eq_one_iff.1 hbroken
    obtain ⟨entry, hentry, hsome⟩ := List.mem_filterMap.1 (hlist ▸ List.mem_singleton_self junk)
    obtain rfl : entry = .junk junk := by
      cases entry <;> cases hsome
      rfl
    obtain ⟨code, args, place, hplace⟩ := hjunk _ junk (.inl hentry)
    exact ⟨junk, code, args, place, hentry, hplace⟩

end Resource

end Localization
