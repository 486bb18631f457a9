import Localization.Proofs.Resource.LineBreaks
import Localization.Proofs.Resource.Tiling

/-!
# The first entry that is no comment

Reading a single entry passes over the entries that start with `#`. So it gives the first entry of
the whole resource that is not such a comment, where comments that are attached to messages and
terms count as entries of their own. Comments that start with `//` or `[[` are not passed over.

## Main definitions

* `Entry.detach`, `Entry.detached` — an entry without the comment that is attached to it, and the
  two of them one after the other
* `Entry.isMarked` — a comment that starts with `#`
* `Entry.missing` — what is read at the end of a source

## Main statements

* `attachComments_detached` — detaching comments undoes attaching them
* `Cursor.AtEntry.first_eq` — reading a single entry looks for one among all entries
* `Entry.parse_eq_first` — the single entry of a source and its resource
-/

namespace Localization

open Cursor (held)
open Text (byteLength dropBytes?)

/-! ### Entries and their comments -/

/-- A message without the comment that is attached to it, from its identifier on. -/
def Message.detach (message : Message) : Message :=
  { message with comment := none, span := ⟨message.id.span.start, message.span.stop⟩ }

namespace Entry

/-- Whether an entry is a comment of any level. -/
def isComment : Entry → Bool
  | .comment _ _ => true
  | _ => false

/-- An entry without the comment that is attached to it. -/
def detach : Entry → Entry
  | .message body => .message body.detach
  | .term body => .term body.detach
  | entry => entry

/-- The comment that is attached to an entry, and the entry without it. -/
def detached : Entry → List Entry
  | .message body => body.comment.toList.map (.comment .plain) ++ [.message body.detach]
  | .term body => body.comment.toList.map (.comment .plain) ++ [.term body.detach]
  | entry => [entry]

/-- Whether an entry of a source is a comment that starts with `#`. -/
def isMarked (source : List Char) : Entry → Bool
  | .comment _ text => (dropBytes? text.span.start source).any (·.head? == some '#')
  | _ => false

/-- The junk that is read at the end of a source: there an entry is expected. -/
def missing (source : List Char) : Entry :=
  .junk ⟨"", [(SyntaxError.mk .expectedEntry [] (byteLength source)).diagnosticAt
    (byteLength source)], .point (byteLength source)⟩

variable {source : List Char} {entry : Entry}

theorem isMarked_of_isComment_eq_false (h : entry.isComment = false) :
    entry.isMarked source = false := by
  cases entry with
  | comment => cases h
  | _ => rfl

theorem isComment_detach (entry : Entry) : entry.detach.isComment = entry.isComment := by
  cases entry <;> rfl

/-- Messages and terms come behind their comments. -/
theorem exists_detached (entry : Entry) :
    ∃ comments : List Comment,
      entry.detached = comments.map (.comment .plain) ++ [entry.detach] := by
  cases entry with
  | message body => exact ⟨_, rfl⟩
  | term body => exact ⟨_, rfl⟩
  | _ => exact ⟨[], rfl⟩

theorem detached_withComment (h : entry.IsMessage) (hself : entry.detached = [entry])
    (comment : Comment) :
    (entry.withComment comment).detached = [.comment .plain comment, entry] := by
  have hdetach : entry.detach = entry := by
    obtain ⟨comments, hdetached⟩ := entry.exists_detached
    rw [hself, ← List.nil_append [entry]] at hdetached
    exact (List.cons.inj (List.append_inj' hdetached rfl).2).1.symm
  obtain ⟨body, rfl | rfl⟩ := h
  · exact congrArg ([.comment .plain comment, ·]) hdetach
  · exact congrArg ([.comment .plain comment, ·]) hdetach

end Entry

/-- Detaching comments undoes attaching them. -/
theorem attachComments_detached {entries : List (Entry × Bool)}
    (hself : ∀ entry ∈ entries.map Prod.fst, entry.detached = [entry]) :
    (attachComments entries).flatMap Entry.detached = entries.map Prod.fst := by
  fun_induction attachComments entries with
  | case1 comment message touches rest ih =>
    rw [List.map_cons, List.map_cons, List.forall_mem_cons, List.forall_mem_cons] at hself
    obtain ⟨-, hmessage, hrest⟩ := hself
    rw [List.flatMap_cons, ih hrest]
    exact congrArg (· ++ rest.map Prod.fst)
      (Entry.detached_withComment ⟨message, .inl rfl⟩ hmessage comment)
  | case2 comment message touches rest ih =>
    rw [List.map_cons, List.map_cons, List.forall_mem_cons, List.forall_mem_cons] at hself
    obtain ⟨-, hmessage, hrest⟩ := hself
    rw [List.flatMap_cons, ih hrest]
    exact congrArg (· ++ rest.map Prod.fst)
      (Entry.detached_withComment ⟨message, .inr rfl⟩ hmessage comment)
  | case3 entry touches rest _ _ ih =>
    rw [List.map_cons, List.forall_mem_cons] at hself
    rw [List.flatMap_cons, ih hself.2, hself.1]
    rfl
  | case4 => rfl

/-- Where all comments in front of the first other entry start with `#`, that entry is the first
one that does not. -/
theorem find?_detached {source : List Char} {body : List Entry}
    (hmarked : ∀ entry ∈ (body.flatMap Entry.detached).takeWhile Entry.isComment,
      entry.isMarked source) :
    (body.flatMap Entry.detached).find? (!·.isMarked source) =
      (body.find? (!·.isComment)).map Entry.detach := by
  induction body with
  | nil => rfl
  | cons entry body ih =>
    obtain ⟨comments, hdetached⟩ := entry.exists_detached
    rw [List.flatMap_cons, hdetached, List.append_assoc] at hmarked ⊢
    -- the attached comment is a comment in front of the entry
    have hcomments : ∀ comment ∈ comments.map (Entry.comment .plain), comment.isComment := by
      simp [Entry.isComment]
    rw [List.takeWhile_append_of_pos hcomments, List.forall_mem_append] at hmarked
    have hnone : (comments.map (Entry.comment .plain)).find? (!·.isMarked source) = none :=
      List.find?_eq_none.2 fun comment hcomment => by simp [hmarked.1 comment hcomment]
    rw [List.find?_append, hnone, Option.none_or, List.singleton_append]
    rw [List.singleton_append] at hmarked
    cases hcomment : entry.isComment with
    | true =>
      have hself : entry.detach = entry := by
        cases entry with
        | comment => rfl
        | _ => cases hcomment
      rw [hself, List.takeWhile_cons_of_pos hcomment, List.forall_mem_cons] at hmarked
      obtain ⟨-, hhead, hrest⟩ := hmarked
      rw [hself, List.find?_cons_of_neg (by simpa using hhead),
        List.find?_cons_of_neg (by simpa using hcomment)]
      exact ih hrest
    | false =>
      have hdetach : entry.detach.isMarked source = false :=
        Entry.isMarked_of_isComment_eq_false (entry.isComment_detach.trans hcomment)
      rw [List.find?_cons_of_pos (by simp [hdetach]), List.find?_cons_of_pos (by simp [hcomment])]
      rfl

/-! ### Reading entries -/

/-- What is spelled has no comment attached to it. -/
theorem SpellsEntry.detached {start : Nat} {text rest : List Char} {entry : Entry}
    (h : SpellsEntry start text entry rest) : entry.detached = [entry] := by
  cases h with
  | message hspells _ _ =>
    cases hspells with
    | mk => split <;> rfl
  | _ => rfl

namespace Cursor

variable {c : Cursor} {source before : List Char}

theorem Starts.takeEntry_detached (h : c.Starts) (hne : c.here.rest ≠ []) :
    c.takeEntry.1.detached = [c.takeEntry.1] := by
  have hentry := (h.takesEntry hne).1
  generalize c.takeEntry.1 = entry at hentry ⊢
  cases hentry with
  | read _ hspells => exact hspells.detached
  | junk => rfl

theorem AtEntry.takeEntries_detached (h : c.AtEntry) :
    ∀ entry ∈ c.takeEntries.map Prod.fst, entry.detached = [entry] := by
  induction h using AtEntry.induction with
  | done c h hnil =>
    rw [takeEntries_of_nil hnil]
    simp
  | entry c h hne hnext ih =>
    rw [h.takeEntries_eq hne, List.map_cons, List.forall_mem_cons]
    exact ⟨h.takeEntry_detached hne, ih⟩

/-- The next entry is a comment that starts with `#` if it starts with `#` and is no junk. -/
theorem Starts.takeEntry_isMarked (h : c.Starts) (hne : c.here.rest ≠ [])
    (hbefore : (atStart source).Takes before c) :
    c.takeEntry.1.isMarked source ↔
      c.current = some '#' ∧ ∀ junk, c.takeEntry.1 ≠ .junk junk := by
  have hentry := (h.takesEntry hne).1
  have hsource : dropBytes? c.offset source = some c.here.rest := by
    have hoffset : c.offset = byteLength before := by
      rw [hbefore.offset]
      exact Nat.zero_add _
    rw [hoffset, show source = before ++ c.here.rest from hbefore.rest, Text.dropBytes?_append]
  generalize c.takeEntry.1 = entry, c.behindEntry = d at hentry
  cases hentry with
  | junk => simp [Entry.isMarked]
  | read _ hspells _ htakes =>
    cases entry with
    | comment level comment =>
      have hstart : comment.span.start = c.offset := by
        rw [hspells.comment_span]
        rfl
      have hcurrent : c.current = some '#' ↔ c.here.rest.head? = some '#' :=
        current_eq_head? (by decide)
      simp [Entry.isMarked, hstart, hsource, hcurrent]
    | junk junk => simp [Entry.isMarked]
    | message message | term message =>
      -- a name does not start with `#`
      obtain ⟨ch, more, rfl, hch⟩ := hspells.exists_nameStart ⟨message, by simp⟩
      have hmark : c.current ≠ some '#' := by
        rw [Ne, current_eq_head? (by decide), htakes.rest]
        rintro ⟨⟩
        cases hch
      simp [Entry.isMarked, hmark]

/-- Reading a single entry looks for the first of all entries that is no comment with `#`. -/
theorem AtEntry.first_eq (h : c.AtEntry) (hbefore : (atStart source).Takes before c) :
    Entry.first c =
      ((c.takeEntries.map Prod.fst).find? (!·.isMarked source)).getD (.missing source) := by
  induction h using AtEntry.induction generalizing before with
  | done c h hnil =>
    have hend : c.offset = byteLength source := by
      rw [show source = before ++ c.here.rest from hbefore.rest, hnil, List.append_nil,
        hbefore.offset]
      exact Nat.zero_add _
    rw [Entry.first_of_ne (by simp [current_eq_none_iff.2 hnil]), takeEntries_of_nil hnil,
      takeEntry_of_nil h.ready hnil, hend]
    rfl
  | entry c h hne hnext ih =>
    obtain ⟨text, htext⟩ := h.exists_takes_nextEntry hne
    have hmarked := h.takeEntry_isMarked hne hbefore
    rw [h.takeEntries_eq hne, List.map_cons]
    cases hpassed : c.takeEntry.1.isMarked source with
    | true =>
      obtain ⟨hcurrent, hjunk⟩ := hmarked.1 hpassed
      rw [Entry.first_of_comment h.toStarts hcurrent hjunk,
        List.find?_cons_of_neg (by simp [hpassed])]
      exact ih (hbefore.trans htext)
    | false =>
      rw [List.find?_cons_of_pos (by simp [hpassed]), Option.getD_some]
      -- reading ends with an entry of another kind, or with a comment that is broken
      by_cases hjunk : ∃ junk, c.takeEntry.1 = .junk junk
      · obtain ⟨junk, hjunk⟩ := hjunk
        rw [Entry.first_of_junk hjunk, hjunk]
      · refine Entry.first_of_ne fun hcurrent => ?_
        rw [hmarked.2 ⟨hcurrent, not_exists.1 hjunk⟩] at hpassed
        cases hpassed

end Cursor

namespace Entry

/-- Reading a single entry gives the first entry of the resource, with attached comments on their
own, that is no comment with `#`. If all comments in front of the first message, term or junk start
with `#`, it is that message, term or junk without its comment, and it is no comment. -/
theorem parse_eq_first (source : String) :
    parse source = (((Resource.parse source).body.flatMap detached).find?
        (!·.isMarked (held source.toList))).getD (missing (held source.toList)) ∧
      ((∀ entry ∈ ((Resource.parse source).body.flatMap detached).takeWhile isComment,
          entry.isMarked (held source.toList)) →
        parse source = (((Resource.parse source).body.find? (!·.isComment)).map detach).getD
          (missing (held source.toList)) ∧ (parse source).isComment = false) := by
  have hstart := Cursor.starts_ofText source.toList
  obtain ⟨hentry, gap, -, htakes, -⟩ := hstart.skipBlankLines
  -- detaching the comments gives back what was read entry by entry
  have hbody : (Resource.parse source).body.flatMap detached =
      (Cursor.ofText source.toList).skipBlankLines.2.takeEntries.map Prod.fst :=
    attachComments_detached hentry.takeEntries_detached
  have hfirst : parse source = (((Resource.parse source).body.flatMap detached).find?
      (!·.isMarked (held source.toList))).getD (missing (held source.toList)) := by
    rw [hbody]
    exact hentry.first_eq htakes
  refine ⟨hfirst, fun hmarked => ?_⟩
  rw [find?_detached hmarked] at hfirst
  refine ⟨hfirst, ?_⟩
  rw [hfirst]
  cases hfound : (Resource.parse source).body.find? (!·.isComment) with
  | none => rfl
  | some entry =>
    have hcomment := List.find?_some hfound
    exact entry.isComment_detach.trans (by simpa using hcomment)

/-- A comment with `#` in front of a message is passed over. -/
theorem parse_eq_first_marked :
    (∀ entry ∈ ((Resource.parse "# c\n\nfoo = Foo\nbar = Bar\n").body.flatMap detached).takeWhile
      isComment, entry.isMarked (held "# c\n\nfoo = Foo\nbar = Bar\n".toList)) ∧
      parse "# c\n\nfoo = Foo\nbar = Bar\n" =
        (((Resource.parse "# c\n\nfoo = Foo\nbar = Bar\n").body.find? (!·.isComment)).map
          detach).getD (missing (held "# c\n\nfoo = Foo\nbar = Bar\n".toList)) := by
  have hmarked : ∀ entry ∈ ((Resource.parse "# c\n\nfoo = Foo\nbar = Bar\n").body.flatMap
      detached).takeWhile isComment,
      entry.isMarked (held "# c\n\nfoo = Foo\nbar = Bar\n".toList) := by
    decide +kernel
  exact ⟨hmarked, ((parse_eq_first "# c\n\nfoo = Foo\nbar = Bar\n").2 hmarked).1⟩

/-- A comment with two slashes in front of a message is not passed over. -/
theorem parse_slashed_comment :
    parse "// old\nfoo = Foo\n" ≠
      (((Resource.parse "// old\nfoo = Foo\n").body.find? (!·.isComment)).map detach).getD
        (missing "// old\nfoo = Foo\n".toList) := by
  have hcomment : (parse "// old\nfoo = Foo\n").isComment = true := by decide +kernel
  have hmessage : ((((Resource.parse "// old\nfoo = Foo\n").body.find? (!·.isComment)).map
      detach).getD (missing "// old\nfoo = Foo\n".toList)).isComment = false := by decide +kernel
  intro heq
  rw [heq, hmessage] at hcomment
  cases hcomment

end Entry

end Localization
