import Localization.Proofs.Resource.Concatenation
import Localization.Proofs.Resource.Spelling.CanonicalEntry

/-!
# Printing a resource

A resource is printed with every entry in its canonical spelling and an empty line behind it. Unless
it holds junk, what is printed parses to the same resource again, up to the spans.

## Main definitions

* `Entry.spelling` — the lines of an entry
* `Resource.print` — a resource as a source

## Main statements

* `Covers.readsBack` — the lines of an entry parse to this entry alone
* `Resource.parse_print` — what is parsed, printed and parsed again is what was parsed
-/

namespace Localization

open Cursor (startingAt)
open Text (EndsLine HasContent IsGap byteLength)

variable {start : Nat} {text rest : List Char} {entry : Entry}

/-! ### Entries and their lines -/

/-- The lines of the comment attached to a message or a term. -/
def Message.commentLines (message : Message) : List Char :=
  match message.comment with
  | none => []
  | some comment => commentSpelling .plain comment.content.toList

/-- The lines of an entry in its canonical spelling. -/
def Entry.spelling : Entry → List Char
  | .message m => m.commentLines ++ (m.spelling ++ ['\n'])
  | .term m => m.commentLines ++ (m.spelling ++ ['\n'])
  | .comment level c => commentSpelling level c.content.toList
  | .junk _ => []

/-- The lines of an entry start with it and parse to it alone in front of an empty line. -/
structure Entry.ReadsBack (entry : Entry) : Prop where
  starts : ∃ ch ∈ entry.spelling.head?, isEntryStart ch
  endsLine : ∃ line, entry.spelling = line ++ ['\n']
  body : ∃ alone, (Resource.read (entry.spelling ++ ['\n'])).body = [alone] ∧
    alone.mapOffsets origin = entry.mapOffsets origin

/-- A map of offsets goes through the attachment of a comment. -/
theorem Entry.withComment_mapOffsets (f : Nat → Nat) (entry : Entry) (comment : Comment) :
    (entry.mapOffsets f).withComment (comment.mapOffsets f) =
      (entry.withComment comment).mapOffsets f := by
  cases entry <;> rfl

/-- Messages and terms are spelled by their canonical spellings. -/
theorem SpellsEntry.message_canonical (h : SpellsEntry start text entry rest)
    (hmessage : entry.IsMessage) :
    ∃ spelled, entry.spelling = spelled ++ ['\n'] ∧
      (∀ comment, (entry.withComment comment).spelling =
        commentSpelling .plain comment.content.toList ++ (spelled ++ ['\n'])) ∧
      ∀ start' : Nat, ∃ entry', SpellsEntry start' spelled entry' [] ∧ entry'.IsMessage ∧
        entry'.mapOffsets origin = entry.mapOffsets origin := by
  obtain ⟨message, hspells, rfl⟩ := h.exists_message hmessage
  -- the comment comes from the lines in front, and is attached later
  have hnone : message.comment = none := by
    cases hspells
    rfl
  refine ⟨message.spelling, ?_, fun comment => ?_, fun start' => ?_⟩
  · split <;> simp [Entry.spelling, Message.commentLines, hnone]
  · split <;> rfl
  · obtain ⟨message', hspells', hsame⟩ := hspells.canonical start'
    exact ⟨_, .message hspells' (.inl rfl) rfl, isMessage_ofMessage message', by
      rw [mapOffsets_ofMessage, mapOffsets_ofMessage, hsame]⟩

theorem SpellsEntry.isMessage_or (h : SpellsEntry start text entry rest) :
    entry.IsMessage ∨ ∃ level comment, entry = .comment level comment := by
  cases h with
  | message _ _ _ => exact .inl (isMessage_ofMessage _)
  | _ => exact .inr ⟨_, _, rfl⟩

/-- Entries are spelled by their canonical spellings. -/
theorem SpellsEntry.canonical (h : SpellsEntry start text entry rest) (start' : Nat) :
    ∃ spelled entry', entry.spelling = spelled ++ ['\n'] ∧ SpellsEntry start' spelled entry' [] ∧
      entry'.mapOffsets origin = entry.mapOffsets origin := by
  rcases h.isMessage_or with hmessage | ⟨level, comment, rfl⟩
  · obtain ⟨spelled, hspelling, -, hspells⟩ := h.message_canonical hmessage
    obtain ⟨entry', hspells', -, hsame⟩ := hspells start'
    exact ⟨spelled, entry', hspelling, hspells', hsame⟩
  · obtain ⟨spelled, hspelling, hspells⟩ := h.comment_canonical
    exact ⟨spelled, _, hspelling, hspells start', rfl⟩

/-- The line break and the empty line that stand behind an entry. -/
theorem isGap_emptyLine : IsGap ['\n', '\n'] :=
  Text.isGap_cons.2 ⟨rfl, Text.isGap_cons.2 ⟨rfl, Text.isGap_nil⟩⟩

theorem Resource.body_startingAt (hcontent : HasContent text) :
    (Resource.read text).body = attachComments (startingAt 0 text).takeEntries := by
  have hstart : startingAt 0 text = Cursor.atStart text := by
    simp [startingAt, Cursor.atStart]
  rw [hstart, Resource.body_read hcontent]

/-- What an entry covers is printed so that it reads back. -/
theorem Covers.readsBack (h : Covers start text entry) (hread : ∀ junk, entry ≠ .junk junk) :
    entry.ReadsBack := by
  have hends : LineEnds ['\n', '\n'] := lineEnds_iff.2 (.inr (Text.startsBreak_cons.2 rfl))
  cases h with
  | read hspells _ =>
    -- an entry on its own is spelled on its own lines
    obtain ⟨spelled, entry', hspelling, hspells', hsame⟩ := hspells.canonical 0
    obtain ⟨ch, more, rfl, hch⟩ := hspells'.exists_head
    refine ⟨⟨ch, by rw [hspelling]; rfl, hch⟩, ⟨_, hspelling⟩, entry', ?_, hsame⟩
    rw [hspelling, List.append_assoc, Resource.body_startingAt (hspells'.hasContent.append _)]
    exact hspells'.takeEntries_gap isGap_emptyLine hends
  | @attached _ _ _ comment entry hcomment _ hspells hmessage _ =>
    -- a comment was joined to its message: the two are spelled and read one after the other
    obtain ⟨first, hfirst, hcomment'⟩ := hcomment.comment_canonical
    obtain ⟨second, -, hspelling, hspells'⟩ := hspells.message_canonical hmessage
    obtain ⟨entry', hentry', hmessage', hsame⟩ := hspells' (0 + byteLength (first ++ ['\n']))
    have hlines : (entry.withComment comment).spelling =
        first ++ (['\n'] ++ (second ++ ['\n'])) := by
      rw [hspelling, hfirst, List.append_assoc]
    obtain ⟨ch, more, rfl, hch⟩ := (hcomment' 0).exists_head
    refine ⟨⟨ch, by rw [hlines]; rfl, hch⟩, ⟨ch :: more ++ (['\n'] ++ second), by simp [hlines]⟩,
      entry'.withComment ⟨comment.content, spanOf 0 (ch :: more)⟩, ?_, ?_⟩
    · rw [hlines, List.append_assoc, List.append_assoc, List.append_assoc,
        Resource.body_startingAt ((hcomment' 0).hasContent.append _)]
      exact (hcomment' 0).takeEntries_attached (.inl rfl) hentry' hmessage' isGap_emptyLine hends
    · rw [← Entry.withComment_mapOffsets, hsame, ← Entry.withComment_mapOffsets]
      rfl
  | junk _ _ _ => exact absurd rfl (hread _)

/-! ### Resources -/

namespace Entry.ReadsBack

/-- The lines of an entry and the empty line behind it end with a blank line. -/
theorem endsBlankLine (h : entry.ReadsBack) : Text.EndsBlankLine (entry.spelling ++ ['\n']) := by
  obtain ⟨line, hline⟩ := h.endsLine
  refine ⟨entry.spelling, [], ['\n'], rfl, .inr ?_, Text.isBlanks_nil, .inl rfl, ?_⟩
  · rw [hline]
    exact ⟨'\n', by simp, rfl⟩
  · rw [hline]
    simp

end Entry.ReadsBack

namespace Resource

/-- Entries in their canonical spelling, each with an empty line behind it. -/
def entriesSpelling (entries : List Entry) : List Char :=
  entries.flatMap fun entry => entry.spelling ++ ['\n']

/-- The resource as a source: every entry in its canonical spelling and an empty line behind it. -/
def print (resource : Resource) : String := String.ofList (entriesSpelling resource.body)

/-- Entries that read back one by one read back together. -/
theorem body_entriesSpelling (entries : List Entry) (h : ∀ entry ∈ entries, entry.ReadsBack) :
    (read (entriesSpelling entries)).body.map (·.mapOffsets origin) =
      entries.map (·.mapOffsets origin) := by
  induction entries with
  | nil =>
    rw [entriesSpelling, List.flatMap_nil, body_nil]
  | cons entry entries ih =>
    have hentry := h entry List.mem_cons_self
    obtain ⟨alone, hbody, hsame⟩ := hentry.body
    have ih := ih fun other hother => h other (List.mem_cons_of_mem _ hother)
    rw [entriesSpelling, List.flatMap_cons]
    cases entries with
    | nil => rw [List.flatMap_nil, List.append_nil, hbody, List.map_singleton, hsame]; rfl
    | cons second entries =>
      obtain ⟨ch, hch, hstart⟩ := (h second (by simp)).starts
      have hhead : ch ∈ (entriesSpelling (second :: entries)).head? := by
        obtain ⟨more, hmore⟩ := List.head?_eq_some_iff.1 hch
        rw [entriesSpelling, List.flatMap_cons, hmore]
        rfl
      -- where the later entries stand is forgotten
      have hmoved : ∀ n : Nat, Entry.mapOffsets origin ∘ Entry.mapOffsets (· + n) =
          Entry.mapOffsets origin :=
        fun n => funext fun other => other.mapOffsets_mapOffsets _ _
      rw [← entriesSpelling, read_append _ _ (.inr hentry.endsBlankLine.endsLine)
        ⟨ch, hhead, hstart⟩ (.inr hentry.endsBlankLine), hbody, List.map_append, List.map_map,
        hmoved, ih, List.map_singleton, hsame]
      rfl

theorem ne_junk_of_hasJunk {resource : Resource} (h : resource.hasJunk = false)
    (hentry : entry ∈ resource.body) (junk : Junk) : entry ≠ .junk junk := by
  rintro rfl
  have hmem : junk ∈ resource.junk := List.mem_filterMap.2 ⟨_, hentry, rfl⟩
  simp only [hasJunk, Bool.not_eq_false', List.isEmpty_iff] at h
  rw [h] at hmem
  cases hmem

/-- What is parsed without junk, printed and parsed again is what was parsed, up to spans, provided
that what is printed fits. -/
theorem parse_print (source : String) (h : (parse source).hasJunk = false)
    (hfits : Cursor.Fits (print (parse source)).toList) :
    (parse (print (parse source))).mapOffsets origin = (parse source).mapOffsets origin := by
  have hbody := body_entriesSpelling (parse source).body fun entry hentry => by
    obtain ⟨_, _, _, -, -, -, hcovers⟩ := exists_covers hentry
    exact hcovers.readsBack (ne_junk_of_hasJunk h hentry)
  rw [print, String.toList_ofList] at hfits
  rw [print, parse, String.toList_ofList, ofText_of_fits hfits, mapOffsets, hbody]
  rfl

/-- A choice and an attribute are printed on other lines, and read back. -/
theorem parse_print_choice : ∃ source : String,
    source =
        "// note\nkey = a \x7b $n ->\n *[ one two ] \\\x7b\n  b\n\x7d\n  .hint=\n c\n[[ part ]]" ∧
      (parse source).hasJunk = false ∧ Cursor.Fits (print (parse source)).toList ∧
      (parse (print (parse source))).mapOffsets origin = (parse source).mapOffsets origin :=
  ⟨_, rfl, by decide +kernel, by decide +kernel,
    parse_print _ (by decide +kernel) (by decide +kernel)⟩

example :
    print (parse "// note\nkey = a \x7b $n ->\n *[ one two ] b\n\x7d\n  .hint=\n c\n[[ part ]]") =
      "# note\nkey = a \x7b $n ->\n    *[one two] b\n    \x7d\n    .hint = c\n\n## part\n\n" := by
  decide +kernel

end Resource

end Localization
