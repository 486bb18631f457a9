import Localization.Proofs.Resource.Tiling

/-!
# Entries on their own

What an entry is depends on its own text alone: read without the text around it, it gives the same
entry again. Blank lines behind an entry that can be read change nothing either.

## Main definitions

* `Cursor.startingAt` — a cursor in front of a text that starts at some offset

## Main statements

* `SpellsEntry.takeEntries_gap` — an entry and the blank lines behind it
* `Resource.entry_alone` — the text of an entry gives this entry alone
-/

namespace Localization

open Localization.Parser (entryLine)
open Text (EndsLine HasContent IsBlanks IsEnding IsGap afterBreak? byteLength)

variable {start : Nat} {text gap rest : List Char} {entry : Entry}

/-! ### Gaps behind an entry -/

namespace Text.IsGap

variable {ch : Char} {before after : List Char}

/-- No visible character stands in a gap. -/
theorem ne_append_cons (h : IsGap gap) (hch : isVisible ch) : gap ≠ before ++ ch :: after := by
  rintro rfl
  have hfalse := h ch (by simp)
  rw [hch] at hfalse
  cases hfalse

theorem not_startsPattern (h : IsGap gap) : startsPattern gap = false := by
  rw [Bool.eq_false_iff, Ne, startsPattern_iff]
  rintro ⟨_, _, _, -, hch, -, htext⟩
  exact h.ne_append_cons hch htext

theorem not_startsAttribute (h : IsGap gap) : startsAttribute gap = false := by
  rw [Bool.eq_false_iff, Ne, startsAttribute_iff]
  rintro ⟨_, _, -, htext⟩
  exact h.ne_append_cons (by decide) htext

theorem not_startsComment (h : IsGap gap) {level : Nat} (hlevel : 1 ≤ level) :
    startsComment level gap = false := by
  rw [Bool.eq_false_iff]
  intro hstarts
  obtain ⟨line, hbreak, hmarked⟩ := Option.any_eq_true _ _ |>.1 hstarts
  obtain ⟨ending, -, rfl⟩ := afterBreak?_eq_some hbreak
  obtain ⟨tail, rfl, -⟩ := startsMarked_iff.1 hmarked
  obtain ⟨level, rfl⟩ := Nat.exists_eq_succ_of_ne_zero (Nat.one_le_iff_ne_zero.1 hlevel)
  exact h.ne_append_cons (by decide : isVisible '#') rfl

theorem not_startsLegacyComment (h : IsGap gap) : startsLegacyComment gap = false := by
  rw [Bool.eq_false_iff]
  intro hstarts
  obtain ⟨line, hbreak, hslashes⟩ := Option.any_eq_true _ _ |>.1 hstarts
  obtain ⟨ending, -, rfl⟩ := afterBreak?_eq_some hbreak
  obtain ⟨tail, rfl⟩ := startsSlashes_iff.1 hslashes
  exact h.ne_append_cons (by decide : isVisible '/') rfl

end Text.IsGap

theorem LineEnds.exists_ending (h : LineEnds text) :
    ∃ ending rest, text = ending ++ rest ∧ IsLineEnd ending rest := by
  rcases lineEnds_iff.1 h with rfl | hbreak
  · exact ⟨[], [], rfl, .inl ⟨rfl, rfl⟩⟩
  · obtain ⟨rest, hafter⟩ := Option.isSome_iff_exists.1 (Text.startsBreak_iff_isSome.1 hbreak)
    obtain ⟨ending, -, rfl⟩ := Text.afterBreak?_eq_some hafter
    exact ⟨ending, rest, rfl, .inr hafter⟩

/-- An entry is spelled alike at the end of a text and in front of blank lines. -/
theorem SpellsEntry.of_gap (h : SpellsEntry start text entry []) (hgap : IsGap gap)
    (hends : LineEnds gap) : SpellsEntry start text entry gap := by
  cases h with
  | marked hlevel hle hlines _ _ =>
    exact .marked hlevel hle hlines hends (hgap.not_startsComment hlevel)
  | slashed hlines _ _ => exact .slashed hlines hends hgap.not_startsLegacyComment
  | header hblanks hfirst hmore hlast hspaces hblanks' hend =>
    exact .header hblanks hfirst hmore hlast hspaces hblanks' hend
  | message hspells _ _ =>
    exact .message hspells ((lineEnds_iff.1 hends).imp_right fun hbreak =>
      ⟨hbreak, hgap.not_startsPattern⟩) hgap.not_startsAttribute

namespace Cursor

variable {c d : Cursor}

/-- The cursor in front of a text that starts at an offset. -/
def startingAt (start : Nat) (text : List Char) : Cursor :=
  ⟨text, start + byteLength text, ⟨start, text⟩, ⟨start, text⟩, 1, 1, none⟩

theorem starts_startingAt (start : Nat) (text : List Char) : (startingAt start text).Starts where
  ready := ⟨rfl, rfl⟩
  line _ := rfl
  capture := rfl

theorem beside_startingAt (start : Nat) (text : List Char) :
    Beside [] start (atStart text) (startingAt start text) :=
  ⟨⟨⟨(List.append_nil text).symm, (Nat.zero_add start).symm, .inl rfl, fun _ h => by simp at h⟩,
    ready_atStart text, (starts_startingAt start text).ready⟩, .inl rfl⟩

/-- A text that spells an entry is taken as this entry. -/
theorem Starts.takeEntry_of_spells {ending : List Char} (h : c.Starts)
    (hspells : SpellsEntry c.offset text entry (ending ++ rest))
    (hrest : c.here.rest = text ++ (ending ++ rest)) (hend : IsLineEnd ending rest) :
    c.takeEntry.1 = entry ∧ c.Takes (text ++ ending) c.behindEntry := by
  obtain ⟨d, hrun, htakes⟩ :=
    Parser.entryLine_yields (c := c.beginCapture) h.ready.beginCapture hspells hrest hend
  have hbehind := htakes.endCapture h.capture
  unfold behindEntry
  rw [takeEntry_of_ok hrun, hbehind.ready.resetPeek]
  exact ⟨rfl, hbehind⟩

/-- An entry that only a gap follows is the last one. -/
theorem Starts.takeEntries_singleton (h : c.Starts) (hne : c.here.rest ≠ [])
    (hgap : IsGap c.behindEntry.here.rest) : c.takeEntries = [(c.takeEntry.1, c.touchesNext)] := by
  obtain ⟨hnext, gap, -, htakes, -⟩ := h.nextEntry hne
  have hnil : c.nextEntry.here.rest = [] := by
    refine hnext.content.resolve_right ?_
    rintro ⟨blanks, ch, more, -, hch, hrest⟩
    rw [htakes.rest, hrest] at hgap
    rw [hgap ch (by simp)] at hch
    cases hch
  rw [h.takeEntries_eq hne, takeEntries_of_nil hnil]

/-- A text that spells an entry gives this entry alone, also in front of a gap. -/
theorem Starts.takeEntries_of_spells (h : c.Starts) (hspells : SpellsEntry c.offset text entry gap)
    (hrest : c.here.rest = text ++ gap) (hgap : IsGap gap) (hends : LineEnds gap) :
    ∃ touches, c.takeEntries = [(entry, touches)] := by
  obtain ⟨ending, rest, rfl, hend⟩ := hends.exists_ending
  obtain ⟨hentry, htakes⟩ := h.takeEntry_of_spells hspells hrest hend
  have hne : c.here.rest ≠ [] := by
    rw [hrest]
    exact List.append_ne_nil_of_left_ne_nil hspells.hasContent.ne_nil _
  have hbehind : c.behindEntry.here.rest = rest := htakes.rest_eq (by rw [hrest, List.append_assoc])
  rw [h.takeEntries_singleton hne (hbehind ▸ (Text.isGap_append.1 hgap).2), hentry]
  exact ⟨_, rfl⟩

/-- Two texts are read alike wherever they start. -/
theorem Abuts.takeEntries_eq {n : Nat} (h : Abuts [] n c d) (hc : c.AtEntry) (hd : d.AtEntry) :
    d.takeEntries = c.takeEntries.map (Prod.map (Entry.mapOffsets (· + n)) id) := by
  obtain ⟨c', d', htakes, habuts, -, heq⟩ := h.takeEntries hc hd (.inl rfl)
  have hnil : c'.here.rest = [] := List.self_eq_append_right.1 htakes.rest
  rw [heq, takeEntries_of_nil (c := d') (by rw [habuts.rest, hnil, List.append_nil]),
    List.append_nil]

end Cursor

open Cursor (startingAt)

/-! ### The text of an entry -/

theorem attachComments_singleton (entry : Entry) (touches : Bool) :
    attachComments [(entry, touches)] = [entry] := by
  rcases attachComments_cons entry touches [] with heq | ⟨_, _, _, _, -, -, hnil, -⟩
  · exact heq
  · cases hnil

/-- A text that starts with a line of content starts with an entry. -/
theorem Resource.body_read (hcontent : HasContent text) :
    (Resource.read text).body = attachComments (Cursor.atStart text).takeEntries := by
  rw [Resource.read_eq, (Cursor.ready_atStart text).skipBlankLines_snd hcontent]

/-- An empty text has no entries. -/
theorem Resource.body_nil : (Resource.read []).body = [] := by
  obtain ⟨-, _, -, htakes, -⟩ := (Cursor.starts_atStart []).skipBlankLines
  have hnil := (List.append_eq_nil_iff.1 htakes.rest.symm).2
  rw [Resource.read_eq, Cursor.takeEntries_of_nil hnil]
  rfl

/-- A text that spells an entry gives this entry alone, also in front of a gap. -/
theorem SpellsEntry.takeEntries_gap (h : SpellsEntry start text entry []) (hgap : IsGap gap)
    (hends : LineEnds gap) :
    attachComments (startingAt start (text ++ gap)).takeEntries = [entry] := by
  obtain ⟨touches, hentries⟩ := (Cursor.starts_startingAt start (text ++ gap)).takeEntries_of_spells
    (h.of_gap hgap hends) rfl hgap hends
  rw [hentries, attachComments_singleton]

/-- A text that spells a comment and the message on the line behind it gives the message with the
comment, also in front of a gap. -/
theorem SpellsEntry.takeEntries_attached {ending behind : List Char} {comment : Comment}
    (h : SpellsEntry start text (.comment .plain comment) rest) (hending : IsEnding ending)
    (hspells : SpellsEntry (start + byteLength (text ++ ending)) behind entry [])
    (hmessage : entry.IsMessage) (hgap : IsGap gap) (hends : LineEnds gap) :
    attachComments (startingAt start (text ++ (ending ++ (behind ++ gap)))).takeEntries =
      [entry.withComment comment] := by
  obtain ⟨ch, more, rfl, hch⟩ := hspells.exists_nameStart hmessage
  have hvisible := Cursor.isVisible_of_isEntryStart (isEntryStart_of_isNameStart hch)
  have hcontent : HasContent (ch :: more ++ gap) := Text.hasContent_cons hvisible (more ++ gap)
  have hstarts := Cursor.starts_startingAt start (text ++ (ending ++ (ch :: more ++ gap)))
  obtain ⟨hfirst, htakes⟩ := hstarts.takeEntry_of_spells
    (h.of_nameStart hending hch 0 : SpellsEntry start text _ (ending ++ (ch :: more ++ gap)))
    rfl (.inr (hending.afterBreak? (Text.not_isLineBreak_of_isVisible hvisible)))
  have hne : (startingAt start (text ++ (ending ++ (ch :: more ++ gap)))).here.rest ≠ [] :=
    List.append_ne_nil_of_left_ne_nil h.hasContent.ne_nil _
  have hbehind := (hstarts.takesEntry hne).2
  have hrest := htakes.rest_eq (List.append_assoc ..).symm
  rw [← hrest] at hcontent
  -- the comment touches the message, which stands on the next line
  have htouches : (startingAt start (text ++ (ending ++ (ch :: more ++ gap)))).touchesNext := by
    unfold Cursor.touchesNext
    rw [decide_eq_true_iff, hbehind.ready.skipBlankLines_fst]
    exact hcontent.afterBreak?
  rw [show start + byteLength (text ++ ending) = _ from htakes.offset.symm] at hspells
  obtain ⟨touches, hsecond⟩ :=
    hbehind.takeEntries_of_spells (hspells.of_gap hgap hends) hrest hgap hends
  rw [hstarts.takeEntries_eq hne, Cursor.nextEntry, hbehind.ready.skipBlankLines_snd hcontent,
    hfirst, htouches, hsecond]
  obtain ⟨message, rfl | rfl⟩ := hmessage <;> rfl

/-- A text that an entry covers gives this entry alone. -/
theorem Covers.takeEntries (h : Covers start text entry) :
    attachComments (startingAt start text).takeEntries = [entry] := by
  cases h with
  | read hspells _ =>
    have hentries := hspells.takeEntries_gap Text.isGap_nil lineEnds_nil
    rwa [List.append_nil] at hentries
  | attached hcomment hending hspells hmessage _ =>
    have hentries :=
      hcomment.takeEntries_attached hending hspells hmessage Text.isGap_nil lineEnds_nil
    rwa [List.append_nil] at hentries
  | @junk text junk hentry hend hcontent =>
    have hshift := (Cursor.beside_startingAt start text).toAbuts.takeEntries_eq
      ⟨Cursor.starts_atStart text, .inr hcontent⟩
      ⟨Cursor.starts_startingAt start text, .inr hcontent⟩
    rw [hshift, (Cursor.starts_atStart text).takeEntries_singleton hcontent.ne_nil
      (hend ▸ Text.isGap_nil), hentry, List.map_cons, List.map_nil, Prod.map,
      attachComments_singleton]
    rfl

/-- A text that an entry covers gives this entry alone, wherever it starts. -/
theorem Covers.body_eq (h : Covers start text entry) :
    ∃ alone, (Resource.read text).body = [alone] ∧ alone.mapOffsets (· + start) = entry := by
  have hshift := (Cursor.beside_startingAt start text).toAbuts.takeEntries_eq
    ⟨Cursor.starts_atStart text, .inr h.hasContent⟩
    ⟨Cursor.starts_startingAt start text, .inr h.hasContent⟩
  have heq := h.takeEntries
  rw [hshift, attachComments_map (Entry.moves_mapOffsets _),
    ← Resource.body_read h.hasContent] at heq
  obtain ⟨alone, hbody, hentry⟩ := List.map_eq_singleton_iff.1 heq
  exact ⟨alone, hbody, hentry⟩

namespace Resource

/-- The text of an entry, read on its own, gives this entry alone. -/
theorem entry_alone (source : String) (entry : Entry) (h : entry ∈ (parse source).body) :
    ∃ text, Text.slice? source.toList entry.span.start entry.span.stop = some text ∧
      (ofText text).body = [entry.mapOffsets (· - entry.span.start)] ∧
      (entry.mapOffsets (· - entry.span.start)).mapOffsets (· + entry.span.start) = entry := by
  obtain ⟨before, covered, after, hheld, -, -, hcovers⟩ := exists_covers h
  obtain ⟨alone, hbody, hentry⟩ := hcovers.body_eq
  have hback : entry.mapOffsets (· - byteLength before) = alone := by
    rw [← hentry, Entry.mapOffsets_add_sub]
  -- the text of the entry lies in what is held of the source, so it is itself held as a whole
  have hfits : Cursor.Fits covered :=
    (Cursor.fits_held _).of_isInfix ⟨before, after, by rw [hheld, List.append_assoc]⟩
  obtain ⟨beyond, hsource⟩ := Cursor.held_isPrefix source.toList
  rw [hheld, List.append_assoc, List.append_assoc] at hsource
  refine ⟨covered, ?_⟩
  rw [hcovers.span_eq, ← hsource, ofText_of_fits hfits]
  dsimp only [spanOf]
  rw [hback]
  exact ⟨Text.slice?_append .., hbody, hentry⟩

/-- The broken line between two messages is the same junk without them. -/
theorem entry_alone_between :
    ∃ entry ∈ (parse "a = 1\n!broken\nb = 2\n").body, entry.span = ⟨6, 14⟩ ∧
      ∃ text, Text.slice? "a = 1\n!broken\nb = 2\n".toList entry.span.start entry.span.stop =
          some text ∧
        (ofText text).body = [entry.mapOffsets (· - entry.span.start)] ∧
        (entry.mapOffsets (· - entry.span.start)).mapOffsets (· + entry.span.start) = entry := by
  have hsecond : (parse "a = 1\n!broken\nb = 2\n").body[1]?.map Entry.span = some ⟨6, 14⟩ := by
    decide +kernel
  obtain ⟨entry, hget, hspan⟩ := Option.map_eq_some_iff.1 hsecond
  have hentry := List.mem_of_getElem? hget
  exact ⟨entry, hentry, hspan, entry_alone _ _ hentry⟩

end Resource

end Localization
