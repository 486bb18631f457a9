import Localization.Proofs.Resource.Entries
import Localization.Proofs.Resource.Spelling.Lines
import Localization.Proofs.Text.LineTable

/-!
# Entries and the gaps between them

The text of a resource is made of the texts of its entries and of gaps. Every entry stands at the
start of a line and covers a text that is read as this entry alone; what no entry covers is blank.

## Main definitions

* `Covers` — an entry and the text that its span covers
* `Tiles` — entries whose texts, with gaps between them, make up a text

## Main statements

* `Cursor.AtEntry.tiles` — the entries that are read tile the text
* `Resource.entries_partition` — no visible character is lost or read twice
-/

namespace Localization

open Text (EndsLine HasContent IsBlanks IsEnding IsGap Joins StartsVisible afterBreak? byteLength
  isVisible)

/-! ### Messages and terms behind comments -/

namespace Entry

/-- A message or a term. -/
def IsMessage (entry : Entry) : Prop := ∃ message, entry = .message message ∨ entry = .term message

/-- A message or a term with a comment attached to it. -/
def withComment (comment : Comment) : Entry → Entry
  | .message body => .message (body.withComment comment)
  | .term body => .term (body.withComment comment)
  | entry => entry

theorem IsMessage.withComment_span {entry : Entry} (h : entry.IsMessage) (comment : Comment) :
    (entry.withComment comment).span = ⟨comment.span.start, entry.span.stop⟩ := by
  obtain ⟨message, rfl | rfl⟩ := h <;> rfl

end Entry

/-- A first entry stands for itself, unless it is a comment that touches a message or a term. -/
theorem attachComments_cons (entry : Entry) (touches : Bool) (entries : List (Entry × Bool)) :
    attachComments ((entry, touches) :: entries) = entry :: attachComments entries ∨
      ∃ comment next touches' rest, entry = .comment .plain comment ∧ touches = true ∧
        entries = (next, touches') :: rest ∧ next.IsMessage ∧
        attachComments ((entry, touches) :: entries) =
          next.withComment comment :: attachComments rest := by
  rw [attachComments.eq_def]
  split
  · next comment message touches' rest heq =>
    cases heq
    exact .inr ⟨comment, _, touches', rest, rfl, rfl, rfl, ⟨message, .inl rfl⟩, rfl⟩
  · next comment message touches' rest heq =>
    cases heq
    exact .inr ⟨comment, _, touches', rest, rfl, rfl, rfl, ⟨message, .inr rfl⟩, rfl⟩
  · next heq =>
    cases heq
    exact .inl rfl
  · next heq => cases heq

/-! ### Entries and their texts -/

/-- An entry and the text that its span covers: the text spells the entry, or a comment and the
message on the line behind it, or it is read as junk from its first to its last character. -/
inductive Covers (start : Nat) : List Char → Entry → Prop
  | read {text entry} : SpellsEntry start text entry [] → entry.span = spanOf start text →
      Covers start text entry
  | attached {text ending behind comment entry} :
      SpellsEntry start text (.comment .plain comment) (ending ++ behind) → IsEnding ending →
      SpellsEntry (start + byteLength (text ++ ending)) behind entry [] → entry.IsMessage →
      entry.span = spanOf (start + byteLength (text ++ ending)) behind →
      Covers start (text ++ (ending ++ behind)) (entry.withComment comment)
  | junk {text junk} : (Cursor.atStart text).takeEntry.1 = .junk junk →
      (Cursor.atStart text).behindEntry.here.rest = [] → HasContent text →
      Covers start text (.junk (junk.mapOffsets (· + start)))

/-- Entries whose texts make up a text, with gaps between them and behind the last one. -/
inductive Tiles : Nat → List Char → List Entry → Prop
  | nil {start} : Tiles start [] []
  | cons {start text gap rest entry entries} : Covers start text entry → IsGap gap →
      (rest = [] ∨ EndsLine (text ++ gap)) → ¬Joins text (gap ++ rest) →
      Tiles (start + byteLength (text ++ gap)) rest entries →
      Tiles start (text ++ (gap ++ rest)) (entry :: entries)

variable {start : Nat} {text gap rest : List Char} {entry : Entry}

theorem SpellsEntry.hasContent (h : SpellsEntry start text entry rest) : HasContent text := by
  obtain ⟨ch, more, rfl, hch⟩ := h.exists_head
  exact Text.hasContent_cons (Cursor.isVisible_of_isEntryStart hch) more

theorem IsLineEnd.isEnding {ending : List Char} (h : IsLineEnd ending rest)
    (hne : ending = [] → rest ≠ []) : IsEnding ending := by
  obtain ⟨ending', hending, heq⟩ :=
    Text.afterBreak?_eq_some (h.resolve_left fun hnil => hne hnil.1 hnil.2)
  rwa [List.append_cancel_right heq]

theorem SpellsEntry.comment_span {level : CommentLevel} {comment : Comment}
    (h : SpellsEntry start text (.comment level comment) rest) :
    comment.span = spanOf start text := by
  generalize hentry : Entry.comment level comment = entry at h
  cases h with
  | marked => cases hentry; rfl
  | slashed => cases hentry; rfl
  | header => cases hentry; rfl
  | message => split at hentry <;> cases hentry

theorem isMessage_ofMessage (message : Message) :
    (if message.isTerm then Entry.term message else .message message).IsMessage := by
  split
  · exact ⟨message, .inr rfl⟩
  · exact ⟨message, .inl rfl⟩

/-- A message or a term that is spelled without a comment. -/
theorem SpellsEntry.exists_message (h : SpellsEntry start text entry rest)
    (hmessage : entry.IsMessage) :
    ∃ message, SpellsMessage start text message ∧
      entry = if message.isTerm then .term message else .message message := by
  cases h with
  | message hspells _ _ => exact ⟨_, hspells, rfl⟩
  | _ => obtain ⟨message, heq | heq⟩ := hmessage <;> cases heq

/-- Messages and terms start with a name. -/
theorem SpellsEntry.exists_nameStart (h : SpellsEntry start text entry rest)
    (hmessage : entry.IsMessage) : ∃ ch more, text = ch :: more ∧ isNameStart ch := by
  obtain ⟨message, hspells, -⟩ := h.exists_message hmessage
  exact hspells.exists_head

/-- A line that starts with a name does not go on with a comment. -/
theorem startsMarked_of_isNameStart {ch : Char} (hch : isNameStart ch) (level : Nat)
    (more : List Char) : Text.startsMarked level (ch :: more) = false := by
  have hvisible := Cursor.isVisible_of_isEntryStart (isEntryStart_of_isNameStart hch)
  unfold Text.startsMarked
  split
  · rename_i heq
    rw [List.head?_cons, Option.all_some]
    simp only [isVisible, isInlineBlank] at hvisible
    grind
  · rename_i heq
    cases heq
    cases hch
  · rfl

theorem startsSlashes_of_isNameStart {ch : Char} (hch : isNameStart ch) (more : List Char) :
    Text.startsSlashes (ch :: more) = false := by
  unfold Text.startsSlashes
  split
  · rename_i heq
    cases heq
    cases hch
  · rfl

/-- In front of a line that starts with a name a comment is spelled whatever that line is. -/
theorem SpellsEntry.of_nameStart {level : CommentLevel} {comment : Comment} {ch : Char}
    {ending more : List Char} (h : SpellsEntry start text (.comment level comment) rest)
    (hending : IsEnding ending) (hch : isNameStart ch) (n : Nat) :
    SpellsEntry (start + n) text ((Entry.comment level comment).mapOffsets (· + n))
      (ending ++ ch :: more) := by
  have hvisible := Cursor.isVisible_of_isEntryStart (isEntryStart_of_isNameStart hch)
  have hbreak : isLineBreak ch = false := by
    simp only [isVisible] at hvisible
    grind
  have hafter : Text.afterBreak? (ending ++ ch :: more) = some (ch :: more) :=
    hending.afterBreak? hbreak
  refine Parser.SpellsEntry.shift_comment h ⟨_, _, rfl⟩ (fun _ => hending.lineEnds)
    (fun level _ => ?_) fun _ => ?_
  · rw [Text.startsComment, hafter, Option.any_some, startsMarked_of_isNameStart hch]
  · rw [Text.startsLegacyComment, hafter, Option.any_some, startsSlashes_of_isNameStart hch]

/-- A text that is read as junk from its first to its last character is the content of the junk. -/
theorem junk_eq {junk : Junk} (hentry : (Cursor.atStart text).takeEntry.1 = .junk junk)
    (hend : (Cursor.atStart text).behindEntry.here.rest = []) (hne : text ≠ []) :
    junk.content = String.ofList text ∧ junk.span = spanOf 0 text := by
  obtain ⟨text', e, k, -, -, htakes, -, rfl⟩ := (Cursor.starts_atStart text).exists_junk hne hentry
  have hrest := htakes.rest
  rw [hend, List.append_nil] at hrest
  obtain rfl : text = text' := hrest
  exact ⟨rfl, rfl⟩

/-- An entry that is read covers a text that spells it alone, and a gap follows that text. -/
theorem SpellsEntry.exists_trim {c d : Cursor} {ending : List Char}
    (h : SpellsEntry c.offset text entry (ending ++ d.here.rest))
    (hend : IsLineEnd ending d.here.rest) (htakes : c.Takes (text ++ ending) d) :
    ∃ kept gap, SpellsEntry c.offset kept entry [] ∧ entry.span = spanOf c.offset kept ∧
      IsGap gap ∧ c.Takes (kept ++ gap) d := by
  obtain ⟨kept, blanks, rfl, hblanks, hspan, hkept⟩ := h.trim
  rw [List.append_assoc] at htakes
  exact ⟨kept, _, hkept, hspan, Text.isGap_append.2 ⟨hblanks.isGap, hend.isGap⟩, htakes⟩

namespace Covers

theorem hasContent (h : Covers start text entry) : HasContent text := by
  cases h with
  | read hspells => exact hspells.hasContent
  | attached hspells => exact hspells.hasContent.append _
  | junk _ _ hcontent => exact hcontent

theorem span_eq (h : Covers start text entry) : entry.span = spanOf start text := by
  cases h with
  | read _ hspan => exact hspan
  | @attached text ending behind comment entry hspells _ _ hmessage hspan =>
    rw [hmessage.withComment_span, hspells.comment_span, hspan]
    simp only [spanOf, Text.byteLength_append, Span.mk.injEq, true_and]
    omega
  | @junk text junk hentry hend hcontent =>
    change junk.span.mapOffsets (· + start) = _
    rw [(junk_eq hentry hend hcontent.ne_nil).2, spanOf_mapOffsets, Nat.zero_add]

end Covers

/-- A line of content does not end in front of a text that ends with a line break. -/
theorem Text.HasContent.of_append (h : HasContent (text ++ rest))
    (hline : rest = [] ∨ EndsLine text) :
    HasContent text := by
  rcases hline with rfl | hline
  · rwa [List.append_nil] at h
  · obtain ⟨blanks, ch, more, hblanks, hvisible, heq⟩ := h
    rcases List.append_eq_append_iff.1 heq with ⟨within, rfl, -⟩ | ⟨more', rfl, hmore⟩
    · obtain ⟨last, hlast, hbreak⟩ := hline
      have hblank := (Text.isBlanks_append.1 hblanks).1 last (List.mem_of_getLast? hlast)
      rw [Text.not_isLineBreak_of_isInlineBlank hblank] at hbreak
      cases hbreak
    · cases more' with
      | nil =>
        rw [List.append_nil] at hline
        obtain ⟨last, hlast, hbreak⟩ := hline
        have hblank := hblanks last (List.mem_of_getLast? hlast)
        rw [Text.not_isLineBreak_of_isInlineBlank hblank] at hbreak
        cases hbreak
      | cons first more' =>
        obtain ⟨rfl, -⟩ := List.cons.inj hmore
        exact ⟨blanks, _, more', hblanks, hvisible, rfl⟩

namespace Cursor

variable {c d : Cursor}

/-- A broken entry is broken in the same way without the text behind it. -/
theorem AtEntry.covers_junk (h : c.AtEntry) {junk : Junk} (hentry : c.takeEntry.1 = .junk junk)
    {e : SyntaxError} {k : Cursor} (hrun : Parser.entryLine c.beginCapture = .error e k)
    (hne : text ≠ []) (htakes : c.Takes text c.behindEntry)
    (hresumes : Resumes text c.behindEntry.here.rest) : Covers c.offset text (.junk junk) := by
  have hcne : c.here.rest ≠ [] := by simp [htakes.rest, hne]
  have hline := hresumes.imp_right And.left
  have hbeside : Beside c.behindEntry.here.rest c.offset (atStart text) c := by
    refine ⟨⟨⟨htakes.rest, (Nat.zero_add _).symm, hline.imp_right .inr, fun ch hch => ?_⟩,
      ready_atStart text, h.ready⟩, hline⟩
    rcases hresumes with hnil | ⟨-, first, hfirst, hstart⟩
    · rw [hnil] at hch
      cases hch
    · rwa [Option.mem_unique hch hfirst]
  -- the run on the text alone fails as well, so what it takes is no comment
  have hfails : ∃ e k, Parser.entryLine (atStart text).beginCapture = .error e k := by
    rcases Parser.entryLine_failAlike hbeside.beginCapture with
      ⟨-, entry, d, hok⟩ | ⟨e, k, -, hfail, -⟩
    · rw [hrun] at hok
      cases hok
    · exact ⟨e, k, hfail⟩
  obtain ⟨e', k', hrun'⟩ := hfails
  obtain ⟨text', halone, -⟩ := (starts_atStart text).takeEntry_junk hne hrun'
  obtain ⟨hsame, hbehind⟩ := hbeside.takeEntry (starts_atStart text) h.toStarts hne (by
    rintro ⟨level, comment, hcomment⟩
    rw [halone] at hcomment
    cases hcomment)
  rw [hentry, halone] at hsame
  cases hsame
  refine .junk halone ?_ ?_
  · have hrest := hbehind.rest
    rwa [List.self_eq_append_left] at hrest
  · have hcontent := h.content.resolve_left hcne
    rw [htakes.rest] at hcontent
    exact hcontent.of_append hline

theorem Resumes.not_joins (h : Resumes text rest) : ¬Joins text rest := by
  refine Text.not_joins_of_head? fun hhead => ?_
  rcases h with rfl | ⟨-, ch, hch, hstart⟩
  · cases hhead
  · obtain rfl := Option.mem_unique hch hhead
    cases hstart

/-- The next entry covers the text that is read, up to a gap. -/
theorem AtEntry.covers (h : c.AtEntry) (hne : c.here.rest ≠ []) :
    ∃ text gap, Covers c.offset text c.takeEntry.1 ∧ IsGap gap ∧
      ¬Joins text (gap ++ c.behindEntry.here.rest) ∧ c.Takes (text ++ gap) c.behindEntry := by
  have hentry := (h.takesEntry hne).1
  generalize hresult : c.takeEntry.1 = entry at hentry ⊢
  cases hentry with
  | read _ hspells hend htakes =>
    obtain ⟨kept, gap, hkept, hspan, hgap, htakes⟩ := hspells.exists_trim hend htakes
    exact ⟨kept, gap, .read hkept hspan, hgap, Text.not_joins_of_not_endsLine hkept.not_endsLine,
      htakes⟩
  | junk hrun _ htext htakes hresumes =>
    refine ⟨_, [], h.covers_junk hresult hrun htext htakes hresumes, Text.isGap_nil,
      hresumes.not_joins, ?_⟩
    rwa [List.append_nil]

/-- The entry behind the next one is reached over gaps. -/
theorem Starts.takes_nextEntry {e : Cursor} {before : List Char} (h : c.Starts)
    (hne : c.here.rest ≠ []) (hgap : IsGap gap) (hbefore : e.Takes before c)
    (htakes : e.Takes (text ++ gap) c.behindEntry) :
    ∃ gap', IsGap gap' ∧ e.Takes (text ++ gap') c.nextEntry ∧
      (c.nextEntry.here.rest = [] ∨ EndsLine (text ++ gap')) ∧
      gap' ++ c.nextEntry.here.rest = gap ++ c.behindEntry.here.rest := by
  obtain ⟨taken, htaken, htakenne, hline⟩ := (h.takesEntry hne).1.takes
  obtain ⟨-, gap', hgap', htakes', hline'⟩ := h.nextEntry hne
  have heq : before ++ taken = text ++ gap :=
    List.append_cancel_right ((hbefore.trans htaken).rest.symm.trans htakes.rest)
  refine ⟨gap ++ gap', Text.isGap_append.2 ⟨hgap, hgap'⟩, ?_, ?_,
    by rw [htakes'.rest, List.append_assoc]⟩
  · rw [← List.append_assoc]
    exact htakes.trans htakes'
  · rw [← List.append_assoc]
    rcases hline' with hnil | rfl | hline'
    · exact .inl hnil
    · rw [List.append_nil, ← heq, Text.endsLine_append htakenne]
      exact hline.imp_left fun hnil => by simpa [hnil] using htakes'.rest.symm
    · exact .inr ((Text.endsLine_append hline'.ne_nil).2 hline')

/-- A message or a term covers a text that spells it. -/
theorem AtEntry.covers_message (h : c.AtEntry) (hne : c.here.rest ≠ [])
    (hmessage : c.takeEntry.1.IsMessage) :
    ∃ text gap, SpellsEntry c.offset text c.takeEntry.1 [] ∧
      c.takeEntry.1.span = spanOf c.offset text ∧ IsGap gap ∧
      c.Takes (text ++ gap) c.behindEntry := by
  have hentry := (h.takesEntry hne).1
  generalize c.takeEntry.1 = entry at *
  cases hentry with
  | read _ hspells hend htakes => exact hspells.exists_trim hend htakes
  | junk => obtain ⟨message, heq | heq⟩ := hmessage <;> cases heq

/-- A comment that touches a message or a term covers a text with it. -/
theorem AtEntry.covers_attached {comment : Comment} (h : c.AtEntry) (hne : c.here.rest ≠ [])
    (hcomment : c.takeEntry.1 = .comment .plain comment) (htouches : c.touchesNext)
    (hnext : c.nextEntry.here.rest ≠ []) (hmessage : c.nextEntry.takeEntry.1.IsMessage) :
    ∃ before text gap, c.Takes before c.nextEntry ∧
      Covers c.offset text (c.nextEntry.takeEntry.1.withComment comment) ∧ IsGap gap ∧
      (∀ rest, ¬Joins text rest) ∧ c.Takes (text ++ gap) c.nextEntry.behindEntry := by
  obtain ⟨message, gap, hspells, hspan, hgap, htakes⟩ :=
    (h.nextEntry hne).1.covers_message hnext hmessage
  obtain ⟨ch, more, rfl, hch⟩ := hspells.exists_nameStart hmessage
  -- the message touches the comment, so nothing lies between the two
  have htouch := h.nextEntry_of_touches hne htouches hnext
  obtain ⟨-, gap', -, hgap', -⟩ := h.nextEntry hne
  obtain rfl : gap' = [] := by
    rw [hgap'.rest] at htouch
    exact List.append_left_eq_self.1 htouch
  have hentry := (h.takesEntry hne).1
  rw [hcomment] at hentry
  generalize hplain : Entry.comment .plain comment = entry at hentry
  cases hentry with
  | junk => cases hplain
  | @read text ending _ _ _ _ hcomment hend hbefore =>
    subst hplain
    have hnextTakes := hbefore.trans hgap'
    rw [List.append_nil] at hnextTakes
    have hending := hend.isEnding fun _ => by rwa [htouch]
    rw [hnextTakes.offset] at hspells hspan
    refine ⟨_, _, gap, hnextTakes, .attached ?_ hending hspells hmessage hspan, hgap,
      fun _ => Text.not_joins_of_not_endsLine ?_, ?_⟩
    · exact hcomment.of_nameStart hending hch 0
    · rw [← List.append_assoc, Text.endsLine_append (List.cons_ne_nil _ _)]
      exact hspells.not_endsLine
    · have hall := hnextTakes.trans htakes
      simpa only [List.append_assoc] using hall

/-- The next entry stands in front of entries that tile the text behind it. -/
theorem AtEntry.tiles_cons (h : c.AtEntry) (hne : c.here.rest ≠ []) {entries : List Entry}
    (hrest : Tiles c.nextEntry.offset c.nextEntry.here.rest entries) :
    Tiles c.offset c.here.rest (c.takeEntry.1 :: entries) := by
  obtain ⟨text, gap, hcovers, hgap, hjoins, htakes⟩ := h.covers hne
  obtain ⟨gap', hgap', htakes', hline, hbehind⟩ :=
    h.takes_nextEntry hne hgap (.refl h.ready) htakes
  rw [htakes'.rest, List.append_assoc]
  rw [htakes'.offset] at hrest
  exact .cons hcovers hgap' hline (hbehind ▸ hjoins) hrest

/-- The entries that are read tile the text. -/
theorem AtEntry.tiles (h : c.AtEntry) :
    Tiles c.offset c.here.rest (attachComments c.takeEntries) := by
  -- induction on what is left to read: each entry takes some of it
  induction hlength : c.remaining using Nat.strongRecOn generalizing c with
  | ind length ih =>
    subst hlength
    by_cases hne : c.here.rest = []
    · rw [takeEntries_of_nil hne, hne]
      exact .nil
    · have hatnext := (h.nextEntry hne).1
      have hlt := h.nextEntry_remaining_lt hne
      rw [h.takeEntries_eq hne]
      rcases attachComments_cons c.takeEntry.1 c.touchesNext c.nextEntry.takeEntries with
        heq | ⟨comment, next, touches, entries, hcomment, htouches, hentries, hmessage, heq⟩
      · rw [heq]
        exact h.tiles_cons hne (ih _ hlt hatnext rfl)
      -- the comment was attached: the two entries are covered as one
      · have hnext : c.nextEntry.here.rest ≠ [] := fun hnil => by
          rw [takeEntries_of_nil hnil] at hentries
          cases hentries
        rw [heq]
        rw [hatnext.takeEntries_eq hnext] at hentries
        cases hentries
        obtain ⟨before, text, gap, hbefore, hcovers, hgap, hjoins, htakes⟩ :=
          h.covers_attached hne hcomment htouches hnext hmessage
        obtain ⟨gap', hgap', htakes', hline, -⟩ := hatnext.takes_nextEntry hnext hgap hbefore htakes
        have hrest := ih _ ((hatnext.nextEntry_remaining_lt hnext).trans hlt)
          (hatnext.nextEntry hnext).1 rfl
        rw [htakes'.rest, List.append_assoc]
        rw [htakes'.offset] at hrest
        exact .cons hcovers hgap' hline (hjoins _) hrest

end Cursor

/-! ### Texts that entries tile -/

/-- A character of two texts in a row stands in the first or in the second one. -/
theorem Text.eq_append_cons_or {first second before after : List Char} {ch : Char}
    (h : first ++ second = before ++ ch :: after) :
    (∃ more, first = before ++ ch :: more) ∨
      ∃ before', before = first ++ before' ∧ second = before' ++ ch :: after := by
  rcases List.append_eq_append_iff.1 h with ⟨before', rfl, hsecond⟩ | ⟨more, rfl, hmore⟩
  · exact .inr ⟨before', rfl, hsecond⟩
  · cases more with
    | nil => exact .inr ⟨[], by simp, hmore.symm⟩
    | cons other more =>
      obtain ⟨rfl, -⟩ := List.cons.inj hmore
      exact .inl ⟨more, rfl⟩

namespace Tiles

variable {before after : List Char} {ch : Char} {entries : List Entry}

/-- Every entry covers a text of its own that starts a line, and a gap to the end of a line follows
that text. -/
theorem exists_tile (h : Tiles start text entries) {entry : Entry} (hentry : entry ∈ entries) :
    ∃ before covered gap rest, text = before ++ (covered ++ (gap ++ rest)) ∧
      (before = [] ∨ EndsLine before) ∧ IsGap gap ∧ (rest = [] ∨ EndsLine (covered ++ gap)) ∧
      ¬Joins covered (gap ++ rest) ∧ Covers (start + byteLength before) covered entry := by
  induction h with
  | nil => cases hentry
  | @cons start covered gap rest first entries hcovers hgap hline hjoins htiles ih =>
    rcases List.mem_cons.1 hentry with rfl | hmem
    · exact ⟨[], covered, gap, rest, rfl, .inl rfl, hgap, hline, hjoins, hcovers⟩
    · obtain ⟨before, text, gap', after, rfl, hbefore, hgap', hline', hjoins, htext⟩ := ih hmem
      refine ⟨covered ++ gap ++ before, text, gap', after, by simp, ?_, hgap', hline', hjoins, ?_⟩
      · rcases hbefore with rfl | hbefore
        · rw [List.append_nil]
          refine .inr (hline.resolve_left fun hnil => ?_)
          simp only [List.nil_append, List.append_eq_nil_iff] at hnil
          exact htext.hasContent.ne_nil hnil.1
        · exact .inr ((Text.endsLine_append hbefore.ne_nil).2 hbefore)
      · rwa [Text.byteLength_append, ← Nat.add_assoc]

theorem exists_covers (h : Tiles start text entries) {entry : Entry} (hentry : entry ∈ entries) :
    ∃ before covered after, text = before ++ (covered ++ after) ∧
      (before = [] ∨ EndsLine before) ∧ ¬Joins covered after ∧
      Covers (start + byteLength before) covered entry := by
  obtain ⟨before, covered, gap, rest, htext, hbefore, -, -, hjoins, hcovers⟩ :=
    h.exists_tile hentry
  exact ⟨before, covered, gap ++ rest, htext, hbefore, hjoins, hcovers⟩

theorem start_le (h : Tiles start text entries) {entry : Entry} (hentry : entry ∈ entries) :
    start ≤ entry.span.start := by
  obtain ⟨before, covered, after, -, -, -, hcovers⟩ := h.exists_covers hentry
  rw [hcovers.span_eq]
  exact Nat.le_add_right _ _

theorem pairwise (h : Tiles start text entries) :
    entries.Pairwise fun first second => first.span.stop ≤ second.span.start := by
  induction h with
  | nil => exact .nil
  | cons hcovers _ _ _ htiles ih =>
    refine .cons (fun second hsecond => ?_) ih
    have hstart := htiles.start_le hsecond
    rw [hcovers.span_eq]
    rw [Text.byteLength_append] at hstart
    simp only [spanOf]
    omega

/-- A visible character stands in the span of exactly one entry. -/
theorem countP_covers (h : Tiles start text entries) (htext : text = before ++ ch :: after)
    (hch : isVisible ch) :
    entries.countP (·.span.covers (spanOf (start + byteLength before) [ch])) = 1 := by
  induction h generalizing before with
  | nil => simp at htext
  | @cons start covered gap rest first entries hcovers hgap _ _ htiles ih =>
    have hpos := ch.utf8Size_pos
    rcases Text.eq_append_cons_or htext with ⟨more, rfl⟩ | ⟨within, rfl, hrest⟩
    · -- no later entry starts before this character ends
      rw [List.countP_cons_of_pos, List.countP_eq_zero.2]
      · intro second hsecond
        have hstart := htiles.start_le hsecond
        simp only [Text.byteLength_append, Text.byteLength_cons] at hstart
        simp only [Span.covers_iff, spanOf, Text.byteLength_cons, Text.byteLength_nil]
        omega
      · rw [hcovers.span_eq]
        simp only [Span.covers_iff, spanOf, Text.byteLength_append, Text.byteLength_cons,
          Text.byteLength_nil]
        omega
    · rcases Text.eq_append_cons_or hrest with ⟨more, rfl⟩ | ⟨before, rfl, hbefore⟩
      -- nothing in a gap is visible
      · rw [hgap ch (by simp)] at hch
        cases hch
      -- behind the gap it is in one of the later entries, where the first one has ended
      · rw [List.countP_cons_of_neg]
        · have hcount := ih hbefore
          rw [Text.byteLength_append, ← Nat.add_assoc] at hcount
          rw [Text.byteLength_append, Text.byteLength_append, ← Nat.add_assoc, ← Nat.add_assoc]
          exact hcount
        · rw [hcovers.span_eq]
          simp only [Span.covers_iff, spanOf, Text.byteLength_append, Text.byteLength_cons,
            Text.byteLength_nil]
          omega

end Tiles

/-! ### Resources -/

namespace Resource

/-- Behind a gap at its start a source is tiled by its entries. -/
theorem tiles (source : List Char) :
    ∃ gap rest, source = gap ++ rest ∧ IsGap gap ∧ (rest = [] ∨ gap = [] ∨ EndsLine gap) ∧
      Tiles (byteLength gap) rest (read source).body := by
  obtain ⟨hentry, gap, hgap, htakes, hline⟩ := (Cursor.starts_atStart source).skipBlankLines
  refine ⟨gap, _, htakes.rest, hgap, hline, ?_⟩
  have htiles := hentry.tiles
  rwa [htakes.offset, show (Cursor.atStart source).offset = 0 from rfl, Nat.zero_add] at htiles

/-- Every entry covers a text of its own that starts a line, and a gap to the end of a line follows
that text. -/
theorem exists_tile {source : List Char} {entry : Entry} (h : entry ∈ (read source).body) :
    ∃ before covered gap rest, source = before ++ (covered ++ (gap ++ rest)) ∧
      (before = [] ∨ EndsLine before) ∧ IsGap gap ∧ (rest = [] ∨ EndsLine (covered ++ gap)) ∧
      ¬Joins covered (gap ++ rest) ∧ Covers (byteLength before) covered entry := by
  obtain ⟨start, rest, rfl, -, hline, htiles⟩ := tiles source
  obtain ⟨before, covered, gap, after, rfl, hbefore, hgap, hend, hjoins, hcovers⟩ :=
    htiles.exists_tile h
  refine ⟨start ++ before, covered, gap, after, by simp, ?_, hgap, hend, hjoins,
    by rwa [Text.byteLength_append]⟩
  rcases hbefore with rfl | hbefore
  · rw [List.append_nil]
    refine hline.resolve_left fun hnil => ?_
    simp only [List.nil_append, List.append_eq_nil_iff] at hnil
    exact hcovers.hasContent.ne_nil hnil.1
  · exact .inr ((Text.endsLine_append hbefore.ne_nil).2 hbefore)

theorem exists_covers {source : List Char} {entry : Entry} (h : entry ∈ (read source).body) :
    ∃ before covered after, source = before ++ (covered ++ after) ∧
      (before = [] ∨ EndsLine before) ∧ ¬Joins covered after ∧
      Covers (byteLength before) covered entry := by
  obtain ⟨before, covered, gap, rest, hsource, hbefore, -, -, hjoins, hcovers⟩ := exists_tile h
  exact ⟨before, covered, gap ++ rest, hsource, hbefore, hjoins, hcovers⟩

/-- The entries of a source are non-empty, start lines and follow one another; a byte outside them
belongs to a blank or a line break, and every other character stands in exactly one of them. This is
so of the whole source if it fits, and else of the start that is held of it. -/
theorem entries_partition (source : String) :
    (∀ entry ∈ (parse source).body, entry.span.start < entry.span.stop ∧
      entry.span.start ∈ (LineTable.ofText source.toList).starts) ∧
    ((parse source).body.Pairwise fun first second => first.span.stop ≤ second.span.start) ∧
    ∀ before ch after, Cursor.held source.toList = before ++ ch :: after →
      (∀ byte < ch.utf8Size,
        (∀ entry ∈ (parse source).body, entry.span.contains (byteLength before + byte) = false) →
          ch ∈ [' ', '\t', '\r', '\n']) ∧
      (ch ∉ [' ', '\t', '\r', '\n'] →
        (parse source).body.countP (·.span.covers (spanOf (byteLength before) [ch])) = 1) := by
  have hpairwise : (parse source).body.Pairwise
      fun first second => first.span.stop ≤ second.span.start := by
    obtain ⟨gap, rest, -, -, -, htiles⟩ := tiles (Cursor.held source.toList)
    exact htiles.pairwise
  have hcount : ∀ before ch after, Cursor.held source.toList = before ++ ch :: after →
      ch ∉ [' ', '\t', '\r', '\n'] →
        (parse source).body.countP (·.span.covers (spanOf (byteLength before) [ch])) = 1 := by
    intro before ch after hsource hch
    have hvisible : isVisible ch := by
      simp only [isVisible, isInlineBlank, isLineBreak]
      simp_all
    obtain ⟨gap, rest, heq, hgap, -, htiles⟩ := tiles (Cursor.held source.toList)
    rw [hsource] at heq
    rcases Text.eq_append_cons_or heq.symm with ⟨more, rfl⟩ | ⟨within, rfl, hrest⟩
    · rw [hgap ch (by simp)] at hvisible
      cases hvisible
    · rw [Text.byteLength_append]
      exact htiles.countP_covers hrest hvisible
  refine ⟨fun entry hentry => ?_, hpairwise, fun before ch after hsource =>
    ⟨fun byte hbyte houtside => ?_, hcount before ch after hsource⟩⟩
  · obtain ⟨before, covered, after, hheld, hline, -, hcovers⟩ := exists_covers hentry
    obtain ⟨beyond, hsource⟩ := Cursor.held_isPrefix source.toList
    rw [hheld, List.append_assoc, List.append_assoc] at hsource
    rw [hcovers.span_eq, ← hsource]
    refine ⟨Nat.lt_add_of_pos_right (Mark.byteLength_pos hcovers.hasContent.ne_nil),
      LineTable.mem_starts hline (hcovers.hasContent.append _).head?_ne⟩
  -- were the character of an uncovered byte no blank, an entry would cover all its bytes
  · by_contra hch
    have hone := hcount before ch after hsource hch
    obtain ⟨entry, hentry, hspan⟩ := List.countP_pos_iff.1
      (Nat.lt_of_lt_of_eq Nat.one_pos hone.symm)
    have hnot := houtside entry hentry
    simp only [Span.covers_iff, spanOf, Text.byteLength_cons, Text.byteLength_nil] at hspan
    simp only [Span.contains, decide_eq_false_iff_not] at hnot
    omega

end Resource

end Localization
