import Localization.Proofs.Resource.FirstEntry
import Mathlib.Data.List.Chain
import Mathlib.Data.List.Nodup

/-!
# Which comments are attached

Reading a resource is reading one entry after the other, and then each plain comment is joined to
the message or term behind it if the two touch: if one line break, and nothing else, stands between
them. No comment is lost, reordered or read twice on the way.

## Main definitions

* `Touches` — one line break stands between two spans
* `Entry.plainComment?` — the plain comment that an entry is, or that is attached to it
* `Resource.readings` — the entries of a source as they are read, before comments are attached

## Main statements

* `Tiles.between` — between two entries lies a gap exactly if no entry lies there
* `Cursor.AtEntry.touches_iff` — what is noted of a comment is whether it touches the next entry
* `comment_mem_attachComments` — the comments that stay on their own
* `Resource.parse_comments` — comments are attached exactly where they touch
* `Resource.exists_taken` — junk has been taken where an entry starts
-/

namespace Localization

open Text (Ahead IsEnding IsGap byteLength)

/-- One line break, and nothing else, stands between two spans of a source. -/
def Touches (source : List Char) (first next : Span) : Prop :=
  ∃ ending, Text.slice? source first.stop next.start = some ending ∧ IsEnding ending

/-- The plain comment that an entry is, or that is attached to it. -/
def Entry.plainComment? : Entry → Option Comment
  | .comment .plain block => some block
  | .message body => body.comment
  | .term body => body.comment
  | _ => none

theorem Entry.filterMap_detached (entry : Entry) :
    entry.detached.filterMap plainComment? = entry.plainComment?.toList := by
  cases entry with
  | message body | term body =>
    cases hcomment : body.comment <;> simp [detached, plainComment?, Message.detach, hcomment]
  | comment level block => cases level <;> rfl
  | junk => rfl

/-! ### Attaching -/

section Attaching

variable {entries : List (Entry × Bool)} {entry : Entry} {block : Comment}

/-- Attaching keeps the plain comments and their order. -/
theorem filterMap_attachComments
    (hself : ∀ entry ∈ entries.map Prod.fst, entry.detached = [entry]) :
    (attachComments entries).filterMap Entry.plainComment? =
      (entries.map Prod.fst).filterMap Entry.plainComment? := by
  rw [← attachComments_detached hself, List.filterMap_flatMap, List.filterMap_eq_flatMap_toList]
  simp only [Entry.filterMap_detached]

/-- What stands in a list behind a comment that is attached stands behind the message too. -/
theorem exists_append_of_message {first message : Entry × Bool} {rest : List (Entry × Bool)}
    {P : Bool → List (Entry × Bool) → Prop} (hmessage : message.1.IsMessage)
    (hfirst : ∀ touches, first = (.comment .plain block, touches) → ¬P touches (message :: rest)) :
    (∃ before touches after, first :: message :: rest =
        before ++ (.comment .plain block, touches) :: after ∧ P touches after) ↔
      ∃ before touches after, rest = before ++ (.comment .plain block, touches) :: after ∧
        P touches after := by
  constructor
  · rintro ⟨before, touches, after, heq, hP⟩
    match before, heq with
    | [], heq =>
      cases heq
      exact absurd hP (hfirst touches rfl)
    | [_], heq =>
      cases heq
      obtain ⟨body, hbody | hbody⟩ := hmessage <;> cases hbody
    | _ :: _ :: before, heq =>
      exact ⟨before, touches, after, (List.cons.inj (List.cons.inj heq).2).2, hP⟩
  · rintro ⟨before, touches, after, rfl, hP⟩
    exact ⟨first :: message :: before, touches, after, rfl, hP⟩

/-- A plain comment stays on its own unless it touches a message or a term behind it. -/
theorem comment_mem_attachComments :
    Entry.comment .plain block ∈ attachComments entries ↔
      ∃ before touches after, entries = before ++ (.comment .plain block, touches) :: after ∧
        (touches = true → ∀ next ∈ after.head?, ¬next.1.IsMessage) := by
  fun_induction attachComments entries with
  -- where a comment is attached both entries are used up, and neither is a comment on its own
  | case1 first message touches rest ih | case2 first message touches rest ih =>
    rw [exists_append_of_message ⟨message, by simp⟩ (by rintro _ ⟨⟩; simp [Entry.IsMessage]), ← ih]
    simp
  | case3 first touches rest hmessage hterm ih =>
    rw [List.mem_cons, ih]
    constructor
    · rintro (rfl | ⟨before, touches', after, rfl, hstays⟩)
      -- the comment stays because the entry behind it is no message, or does not touch it
      · refine ⟨[], touches, rest, rfl, fun htouches next hnext => ?_⟩
        obtain ⟨more, rfl⟩ := List.head?_eq_some_iff.1 hnext
        obtain ⟨entry, flag⟩ := next
        rintro ⟨body, rfl | rfl⟩
        · exact hmessage _ _ _ _ rfl rfl htouches
        · exact hterm _ _ _ _ rfl rfl htouches
      · exact ⟨(first, touches) :: before, touches', after, rfl, hstays⟩
    · rintro ⟨before, touches', after, heq, hstays⟩
      cases before with
      | nil =>
        cases heq
        exact .inl rfl
      | cons _ before => exact .inr ⟨before, touches', after, (List.cons.inj heq).2, hstays⟩
  | case4 => simp

/-- An entry of the result was read as it is, or it is a message or a term that was read behind a
comment that touches it. -/
theorem mem_attachComments (h : entry ∈ attachComments entries) :
    entry ∈ entries.map Prod.fst ∨ ∃ before block next touches after,
      entries = before ++ (.comment .plain block, true) :: (next, touches) :: after ∧
        next.IsMessage ∧ entry = next.withComment block := by
  fun_induction attachComments entries with
  | case1 first message touches rest ih | case2 first message touches rest ih =>
    rcases List.mem_cons.1 h with rfl | hmem
    · exact .inr ⟨[], first, _, touches, rest, rfl, ⟨message, by simp⟩, rfl⟩
    · refine (ih hmem).imp (fun hread => by simp [hread]) ?_
      rintro ⟨before, block, next, flag, after, rfl, hattached⟩
      exact ⟨_ :: _ :: before, block, next, flag, after, rfl, hattached⟩
  | case3 first touches rest _ _ ih =>
    rcases List.mem_cons.1 h with rfl | hmem
    · simp
    · refine (ih hmem).imp (fun hread => by simp [hread]) ?_
      rintro ⟨before, block, next, flag, after, rfl, hattached⟩
      exact ⟨_ :: before, block, next, flag, after, rfl, hattached⟩
  | case4 => cases h

end Attaching

/-! ### What lies between entries -/

namespace Tiles

variable {source text : List Char} {start : Nat} {entry next : Entry}
  {before first middle after : List Entry}

/-- Behind some entries stand the others. Visible text stands in front of them, unless there is
none in front. -/
theorem split (h : Tiles start text (first ++ after)) :
    ∃ front rest, text = front ++ rest ∧ Tiles (start + byteLength front) rest after ∧
      (IsGap front ↔ first = []) := by
  induction first generalizing start text with
  | nil => exact ⟨[], text, rfl, h, by simp [Text.isGap_nil]⟩
  | cons entry first ih =>
    cases h with
    | @cons _ covered gap _ _ _ hcovers _ _ _ htiles =>
      obtain ⟨front, tail, rfl, hrest, -⟩ := ih htiles
      refine ⟨covered ++ gap ++ front, tail, by simp, ?_, ?_⟩
      · rwa [Text.byteLength_append (covered ++ gap), ← Nat.add_assoc]
      · obtain ⟨blanks, ch, more, -, hvisible, rfl⟩ := hcovers.hasContent
        refine iff_of_false (fun hgap => ?_) (List.cons_ne_nil _ _)
        have hinvisible := hgap ch (by simp)
        rw [hvisible] at hinvisible
        cases hinvisible

/-- Between two entries lies a text that is a gap exactly if no entry lies there. -/
theorem between (h : Tiles start text (before ++ entry :: (middle ++ next :: after)))
    (hahead : Ahead source start text) :
    ∃ within, Text.slice? source entry.span.stop next.span.start = some within ∧
      (IsGap within ↔ middle = []) := by
  obtain ⟨front, rest, rfl, hentry, -⟩ := h.split
  have hahead := hahead.behind
  cases hentry with
  | @cons _ covered gap _ _ _ hcovers hgap _ _ htiles =>
    obtain ⟨inner, tail, rfl, hnext, hinner⟩ := htiles.split
    rw [← List.append_assoc gap] at hahead
    have hslice := hahead.behind.slice?
    cases hnext with
    | cons hcovers' =>
      refine ⟨gap ++ inner, ?_, by rw [Text.isGap_append, hinner, and_iff_right hgap]⟩
      rw [hcovers.span_eq, hcovers'.span_eq]
      simpa only [spanOf, Text.byteLength_append, Nat.add_assoc] using hslice

end Tiles

/-! ### Reading entry after entry -/

/-- What is noted of a comment is whether it touches the entry behind it. -/
def Noted (source : List Char) (first next : Entry × Bool) : Prop :=
  ∀ level block, first.1 = .comment level block → (first.2 ↔ Touches source block.span next.1.span)

/-- Behind a line break that takes in all it can, only nothing is still that line break. -/
theorem Text.IsEnding.append_iff {ending gap : List Char} (h : IsEnding ending)
    (hfeed : ending = ['\r'] → gap.head? ≠ some '\n') : IsEnding (ending ++ gap) ↔ gap = [] := by
  constructor
  · intro hboth
    rcases h with rfl | rfl | rfl <;> rcases hboth with heq | heq | heq <;> simp_all
  · rintro rfl
    rwa [List.append_nil]

namespace Cursor

variable {c : Cursor} {source : List Char}

theorem AtEntry.span_start (h : c.AtEntry) (hne : c.here.rest ≠ []) :
    c.takeEntry.1.span.start = c.offset := by
  obtain ⟨text, gap, hcovers, -⟩ := h.covers hne
  rw [hcovers.span_eq]
  rfl

/-- The next entry but one stands directly behind the next one if that touches it. -/
theorem AtEntry.touchesNext_iff (h : c.AtEntry) (hne : c.here.rest ≠ [])
    (hnext : c.nextEntry.here.rest ≠ []) :
    c.touchesNext ↔ c.behindEntry.here.rest = c.nextEntry.here.rest := by
  refine ⟨fun htouches => h.nextEntry_of_touches hne htouches hnext, fun heq => ?_⟩
  obtain ⟨hatnext, -⟩ := h.nextEntry hne
  refine decide_eq_true ((h.takesEntry hne).2.ready.skipBlankLines_fst.2 ?_)
  rw [heq]
  exact (hatnext.content.resolve_left hnext).afterBreak?

/-- A comment is noted to touch the entry behind it if it does. -/
theorem AtEntry.touches_iff (h : c.AtEntry) (hne : c.here.rest ≠ [])
    (hnext : c.nextEntry.here.rest ≠ []) (hahead : Ahead source c.offset c.here.rest)
    {level : CommentLevel} {block : Comment} (hcomment : c.takeEntry.1 = .comment level block) :
    c.touchesNext ↔ Touches source block.span c.nextEntry.takeEntry.1.span := by
  obtain ⟨hatnext, gap, -, hgap, -⟩ := h.nextEntry hne
  rw [h.touchesNext_iff hne hnext]
  have hentry := (h.takesEntry hne).1
  rw [hcomment] at hentry
  generalize hblock : Entry.comment level block = entry at hentry
  cases hentry with
  | junk => cases hblock
  | @read text ending _ _ _ _ hspells hend htakes =>
    subst hblock
    have hbehind : c.behindEntry.here.rest ≠ [] := by simp [hgap.rest, hnext]
    obtain ⟨ending', hending, hfeed, heq⟩ := Text.afterBreak?_eq_some_iff.1
      (hend.resolve_left fun hnil => hbehind hnil.2)
    obtain rfl := List.append_cancel_right heq
    -- the line break and the gap behind it are all that lies between
    have hslice : Text.slice? source block.span.stop c.nextEntry.takeEntry.1.span.start =
        some (ending ++ gap) := by
      rw [(htakes.trans hgap).rest, List.append_assoc, List.append_assoc,
        ← List.append_assoc ending] at hahead
      have hslice := hahead.behind.slice?
      rw [hspells.comment_span, hatnext.span_start hnext, (htakes.trans hgap).offset]
      simpa only [spanOf, Text.byteLength_append, Nat.add_assoc] using hslice
    have hfeed' : ending = ['\r'] → gap.head? ≠ some '\n' := by
      intro hreturn hnewline
      refine hfeed hreturn ?_
      rw [hgap.rest, List.head?_append, hnewline]
      rfl
    have htouches : Touches source block.span c.nextEntry.takeEntry.1.span ↔
        IsEnding (ending ++ gap) := by
      unfold Touches
      rw [hslice]
      simp
    rw [htouches, hending.append_iff hfeed', hgap.rest, List.append_left_eq_self]

/-- All along the entries, a comment is noted to touch the entry behind it if it does. -/
theorem AtEntry.isChain_noted (h : c.AtEntry) (hahead : Ahead source c.offset c.here.rest) :
    c.takeEntries.IsChain (Noted source) := by
  induction h using AtEntry.induction with
  | done c h hnil =>
    rw [takeEntries_of_nil hnil]
    exact .nil
  | entry c h hne hatnext ih =>
    obtain ⟨text, htext⟩ := h.exists_takes_nextEntry hne
    have hahead' : Ahead source c.nextEntry.offset c.nextEntry.here.rest := by
      rw [htext.rest] at hahead
      rw [htext.offset]
      exact hahead.behind
    have hchain := ih hahead'
    rw [h.takeEntries_eq hne]
    -- the last entry has no entry behind it that it could touch
    by_cases hnext : c.nextEntry.here.rest = []
    · rw [takeEntries_of_nil hnext]
      exact .singleton _
    · rw [hatnext.takeEntries_eq hnext] at hchain ⊢
      exact .cons_cons (fun _ _ hcomment => h.touches_iff hne hnext hahead hcomment) hchain

/-- The entries that are read, each on its own, tile the text. -/
theorem AtEntry.tiles_takeEntries (h : c.AtEntry) :
    Tiles c.offset c.here.rest (c.takeEntries.map Prod.fst) := by
  induction h using AtEntry.induction with
  | done c h hnil =>
    rw [takeEntries_of_nil hnil, hnil]
    exact .nil
  | entry c h hne hnext ih =>
    rw [h.takeEntries_eq hne, List.map_cons]
    exact h.tiles_cons hne ih

end Cursor

/-! ### Resources -/

/-- Entries with what is noted of them, laid out as in a source. -/
structure Laid (source : List Char) (entries : List (Entry × Bool)) : Prop where
  noted : entries.IsChain (Noted source)
  detached : ∀ entry ∈ entries.map Prod.fst, entry.detached = [entry]
  tiles : ∃ start text, Ahead source start text ∧ Tiles start text (entries.map Prod.fst)

theorem Touches.le {source : List Char} {first next : Span} (h : Touches source first next) :
    first.stop ≤ next.start := by
  obtain ⟨ending, hslice, -⟩ := h
  unfold Text.slice? at hslice
  split_ifs at hslice with hle
  exact hle

theorem Touches.congr {source : List Char} {first next next' : Span} (h : Touches source first next)
    (hstart : next.start = next'.start) : Touches source first next' := by
  unfold Touches at *
  rwa [← hstart]

/-- A message or a term without an attached comment starts with its identifier. -/
theorem Entry.detached_message {entry : Entry} {message : Message}
    (hentry : entry = .message message ∨ entry = .term message)
    (hself : entry.detached = [entry]) :
    message.comment = none ∧ entry.span.start = message.id.span.start := by
  have hcomment : message.comment = none := by
    rcases hentry with rfl | rfl <;> cases hsome : message.comment <;> simp_all [detached]
  refine ⟨hcomment, ?_⟩
  rcases hentry with rfl | rfl <;> simp only [detached, hcomment] at hself
  · exact congrArg (fun entries => entries.head?.elim 0 (·.span.start)) hself.symm
  · exact congrArg (fun entries => entries.head?.elim 0 (·.span.start)) hself.symm

theorem Entry.eq_comment_of_plainComment? {entry : Entry} {block : Comment}
    (hself : entry.detached = [entry]) (h : entry.plainComment? = some block) :
    entry = .comment .plain block := by
  cases entry with
  | message body | term body =>
    have hnone : body.comment = none := (detached_message (by simp) hself).1
    rw [show body.comment = some block from h] at hnone
    cases hnone
  | comment level other =>
    cases level <;> cases h
    rfl
  | junk => cases h

namespace Laid

variable {source : List Char} {entries : List (Entry × Bool)} {entry next : Entry}
  {block : Comment} {message : Message}

theorem start_lt_stop (h : Laid source entries) (hentry : entry ∈ entries.map Prod.fst) :
    entry.span.start < entry.span.stop := by
  obtain ⟨start, text, -, htiles⟩ := h.tiles
  obtain ⟨_, _, _, -, -, -, hcovers⟩ := htiles.exists_covers hentry
  rw [hcovers.span_eq]
  exact Nat.lt_add_of_pos_right (Mark.byteLength_pos hcovers.hasContent.ne_nil)

theorem pairwise (h : Laid source entries) :
    (entries.map Prod.fst).Pairwise fun first second => first.span.stop ≤ second.span.start := by
  obtain ⟨start, text, -, htiles⟩ := h.tiles
  exact htiles.pairwise

/-- What is noted of a comment is true. -/
theorem touches_iff {before after : List (Entry × Bool)} {touches flag : Bool}
    (h : Laid source (before ++ (.comment .plain block, touches) :: (next, flag) :: after)) :
    touches ↔ Touches source block.span next.span :=
  (List.isChain_append_cons_cons.1 h.noted).2.1 .plain block rfl

/-- A message or a term has been read from its identifier on, and the comment attached to it, if
there is one, touches it. -/
theorem exists_reading (h : Laid source entries) (hentry : entry ∈ attachComments entries)
    (hmessage : entry = .message message ∨ entry = .term message) :
    ∃ next ∈ entries.map Prod.fst, next.IsMessage ∧
      next.span.start = message.id.span.start ∧
      ∀ block, message.comment = some block →
        Touches source block.span next.span ∧ entry.span.start = block.span.start := by
  rcases mem_attachComments hentry with hread | ⟨before, first, next, flag, after, rfl, hnext, rfl⟩
  · obtain ⟨hnone, hstart⟩ := Entry.detached_message hmessage (h.detached entry hread)
    refine ⟨entry, hread, ⟨message, hmessage⟩, hstart, fun block hblock => ?_⟩
    rw [hnone] at hblock
    cases hblock
  · have hread : next ∈ (before ++ (.comment .plain first, true) :: (next, flag) :: after).map
        Prod.fst := by simp
    obtain ⟨body, hbody⟩ := hnext
    have hstart := (Entry.detached_message hbody (h.detached next hread)).2
    obtain rfl : message = body.withComment first := by
      rcases hbody with rfl | rfl <;> rcases hmessage with heq | heq <;> cases heq <;> rfl
    refine ⟨next, hread, ⟨body, hbody⟩, hstart, fun block hblock => ?_⟩
    obtain rfl := Option.some.inj hblock
    exact ⟨h.touches_iff.1 rfl, by rw [Entry.IsMessage.withComment_span ⟨body, hbody⟩]⟩

/-- A comment that stays on its own touches no message and no term. -/
theorem not_touches (h : Laid source entries)
    (hcomment : .comment .plain block ∈ attachComments entries)
    (hnext : next ∈ entries.map Prod.fst) (hmessage : next.IsMessage) :
    ¬Touches source block.span next.span := by
  intro htouches
  have hnextLt := h.start_lt_stop hnext
  obtain ⟨before, touches, after, rfl, hstays⟩ := comment_mem_attachComments.1 hcomment
  have hblockLt : block.span.start < block.span.stop :=
    h.start_lt_stop (List.mem_map.2 ⟨_, List.mem_append_right _ List.mem_cons_self, rfl⟩)
  have hpairwise := h.pairwise
  rw [List.map_append, List.map_cons] at hnext hpairwise
  rcases List.mem_append.1 hnext with hbefore | hnext
  · -- a message in front of the comment does not start behind it
    have hle : next.span.stop ≤ block.span.start :=
      (List.pairwise_append.1 hpairwise).2.2 next hbefore _ List.mem_cons_self
    have hle' := htouches.le
    omega
  · obtain ⟨ending, hslice, hending⟩ := htouches
    rcases List.mem_cons.1 hnext with rfl | hafter
    · obtain ⟨body, hbody | hbody⟩ := hmessage <;> cases hbody
    · obtain ⟨middle, behind, hsplit⟩ := List.append_of_mem hafter
      obtain ⟨start, text, hahead, htiles⟩ := h.tiles
      rw [List.map_append, List.map_cons, hsplit] at htiles
      obtain ⟨within, hwithin, hgap⟩ := htiles.between hahead
      obtain rfl : ending = within := Option.some.inj (hslice.symm.trans hwithin)
      -- only a gap lies between, so the message is the next entry
      obtain rfl := hgap.1 hending.isGap
      obtain ⟨⟨other, flag⟩, rest, rfl, rfl, -⟩ := List.map_eq_cons_iff.1 hsplit
      exact hstays (h.touches_iff.2 ⟨ending, hslice, hending⟩) _ rfl hmessage

/-- Of the entries, a plain comment stays on its own unless the next one is a message or a term that
it touches. -/
theorem stays_iff (h : Laid source entries) {before after : List Entry}
    (hsplit : entries.map Prod.fst = before ++ .comment .plain block :: after) :
    .comment .plain block ∈ attachComments entries ↔
      ∀ next ∈ after.head?, next.IsMessage → ¬Touches source block.span next.span := by
  constructor
  · intro hcomment next hnext hmessage
    refine h.not_touches hcomment ?_ hmessage
    rw [hsplit]
    simp [List.mem_of_head? hnext]
  · intro hstays
    obtain ⟨front, tail, rfl, rfl, htail⟩ := List.map_eq_append_iff.1 hsplit
    obtain ⟨⟨comment, touches⟩, behind, rfl, hfirst, rfl⟩ := List.map_eq_cons_iff.1 htail
    obtain rfl : comment = .comment .plain block := hfirst
    refine comment_mem_attachComments.2 ⟨front, touches, behind, rfl, fun htouches next hnext => ?_⟩
    obtain ⟨rest, rfl⟩ := List.head?_eq_some_iff.1 hnext
    exact fun hmessage => hstays next.1 rfl hmessage (h.touches_iff.1 htouches)

theorem nodup_comments (h : Laid source entries) :
    ((entries.map Prod.fst).filterMap Entry.plainComment?).Nodup := by
  refine List.pairwise_filterMap.2 (h.pairwise.imp_of_mem ?_)
  rintro first second hfirst hsecond hle block hblock other hother rfl
  have hlt := h.start_lt_stop hfirst
  rw [Entry.eq_comment_of_plainComment? (h.detached _ hfirst) hblock] at hlt hle
  rw [Entry.eq_comment_of_plainComment? (h.detached _ hsecond) hother] at hle
  exact absurd hle (not_le.2 hlt)

end Laid

namespace Resource

/-- The entries of a source as they are read one after the other, no comment attached. -/
def readings (source : String) : List Entry :=
  (Cursor.ofText source.toList).skipBlankLines.2.takeEntries.map Prod.fst

theorem laid (text : List Char) :
    Laid text (Cursor.atStart text).skipBlankLines.2.takeEntries := by
  obtain ⟨hentry, gap, -, htakes, -⟩ := (Cursor.starts_atStart text).skipBlankLines
  have hahead : Ahead text (Cursor.atStart text).skipBlankLines.2.offset
      (Cursor.atStart text).skipBlankLines.2.here.rest := by
    refine ⟨gap, htakes.rest, ?_⟩
    rw [htakes.offset]
    exact (Nat.zero_add _).symm
  exact ⟨hentry.isChain_noted hahead, hentry.takeEntries_detached, _, _, hahead,
    hentry.tiles_takeEntries⟩

/-- A comment that is attached to a message or a term ends one line break in front of its
identifier, and there the entry starts with the comment; no comment on its own ends there. Every
plain comment that is read is in the resource exactly once, in the order of the source, and it
stays on its own unless the entry read behind it is a message or a term that it touches. -/
theorem parse_comments (source : String) :
    (∀ entry ∈ (parse source).body, ∀ message,
      (entry = .message message ∨ entry = .term message) →
      (∀ block, message.comment = some block →
        Touches (Cursor.held source.toList) block.span message.id.span ∧
          entry.span.start = block.span.start) ∧
      ∀ block, .comment .plain block ∈ (parse source).body →
        ¬Touches (Cursor.held source.toList) block.span message.id.span) ∧
    ((parse source).body.filterMap Entry.plainComment? =
        (readings source).filterMap Entry.plainComment? ∧
      ((readings source).Pairwise fun first second => first.span.stop ≤ second.span.start) ∧
      ∀ block, .comment .plain block ∈ readings source →
        ((parse source).body.filterMap Entry.plainComment?).count block = 1) ∧
    ∀ before block after, readings source = before ++ .comment .plain block :: after →
      (.comment .plain block ∈ (parse source).body ↔
        ∀ next ∈ after.head?, next.IsMessage →
          ¬Touches (Cursor.held source.toList) block.span next.span) := by
  have hlaid := laid (Cursor.held source.toList)
  have hcomments : (parse source).body.filterMap Entry.plainComment? =
      (readings source).filterMap Entry.plainComment? := filterMap_attachComments hlaid.detached
  refine ⟨fun entry hentry message hmessage => ?_,
    ⟨hcomments, hlaid.pairwise, fun block hblock => ?_⟩,
    fun before block after hsplit => hlaid.stays_iff hsplit⟩
  · obtain ⟨next, hread, hnext, hstart, hattached⟩ := hlaid.exists_reading hentry hmessage
    refine ⟨fun block hblock => ?_, fun block hblock htouches => ?_⟩
    · obtain ⟨htouches, hspan⟩ := hattached block hblock
      exact ⟨htouches.congr hstart, hspan⟩
    · exact hlaid.not_touches hblock hread hnext (htouches.congr hstart.symm)
  · rw [hcomments]
    refine List.count_eq_one_of_mem hlaid.nodup_comments ?_
    exact List.mem_filterMap.2 ⟨_, hblock, rfl⟩

/-- Junk has been taken on its own from a text that starts an entry. -/
theorem exists_taken {source : List Char} {junk : Junk}
    (h : junk ∈ (read source).junk) :
    ∃ before c, (Cursor.atStart source).Takes before c ∧ c.AtEntry ∧ c.here.rest ≠ [] ∧
      c.takeEntry.1 = .junk junk := by
  obtain ⟨entry, hentry, hjunk⟩ := List.mem_filterMap.1 h
  obtain rfl : entry = .junk junk := by
    cases entry <;> cases hjunk
    rfl
  -- nothing is attached to junk
  have hread : .junk junk ∈ (Cursor.atStart source).skipBlankLines.2.takeEntries.map Prod.fst := by
    refine (mem_attachComments hentry).resolve_right ?_
    rintro ⟨_, _, next, _, _, -, ⟨message, rfl | rfl⟩, heq⟩ <;> cases heq
  obtain ⟨hat, gap, -, hgap, -⟩ := (Cursor.starts_atStart source).skipBlankLines
  obtain ⟨before, c, htakes, hc⟩ := hat.exists_taken hread
  exact ⟨_, c, hgap.trans htakes, hc⟩

end Resource

end Localization
