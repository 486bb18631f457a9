import Localization.Proofs.Resource.Spelling.Basic
import Localization.Proofs.Resource.Yields

/-!
# The spelling of names, numbers and quoted texts

What the smallest parts of the grammar read is spelled as the grammar says, and every such spelling
is read.

## Main statements

* `Parser.identifier_returns`, `Parser.identifier_yields` — names
* `Parser.number_returns`, `Parser.number_yields` — numbers
* `Parser.quoted_returns`, `Parser.quoted_yields` — quoted texts
* `Parser.variantKey_returns`, `Parser.variantKey_yields` — keys
-/

namespace Localization.Parser

open Text (Ends IsBlanks byteLength)

variable {c d : Cursor} {ch : Char} {name digits rest : List Char} {r : Char → Bool}

/-! ### Names -/

theorem takeIdentifierStart_returns (hc : c.Ready) (h : Returns takeIdentifierStart c ch d) :
    c.Takes [ch] d ∧ isIdentifierStart ch := by
  unfold takeIdentifierStart at h
  obtain ⟨ch?, c₁, htake, h⟩ := h.bind
  obtain ⟨htakes, hstart, -⟩ :=
    takeChar_returns (fun _ => isIdentifierStart_of_isLineBreak) hc htake
  cases ch? with
  | none => exact absurd h Returns.not_fail
  | some first =>
    obtain ⟨rfl, rfl⟩ := Returns.pure_iff.1 h
    exact ⟨htakes, hstart first rfl⟩

/-- A name that was read is the longest one that stands at the cursor. -/
theorem identifier_returns {id : Identifier} (hc : c.Ready) (h : Returns identifier c id d) :
    ∃ name, c.Takes name d ∧ IsName name ∧ Ends isIdentifierChar d.here.rest.head? ∧
      id = identifierAt c.offset name := by
  unfold identifier at h
  obtain ⟨first, c₁, hfirst, h⟩ := h.offset_bind.bind
  obtain ⟨htakes, hstart⟩ := takeIdentifierStart_returns hc hfirst
  obtain ⟨rfl, rfl⟩ := Returns.pure_iff.1
    (h.takeWhile_bind fun _ => isIdentifierChar_of_isLineBreak).spanFrom_bind
  have hmore := htakes.ready.skipWhile_takes fun _ => isIdentifierChar_of_isLineBreak
  refine ⟨_, htakes.trans hmore, ⟨first, _, hstart, fun ch hch => List.mem_takeWhile_imp hch, rfl⟩,
    ?_, ?_⟩
  · rw [Cursor.skipWhile_rest fun _ => isIdentifierChar_of_isLineBreak]
    exact Text.ends_dropWhile _ _
  · rw [identifierAt, ← (htakes.trans hmore).span_eq]
    rfl

theorem takeIdentifierStart_yields (hc : c.Ready) (hstart : isIdentifierStart ch)
    (hrest : c.here.rest = ch :: rest) : Yields takeIdentifierStart c [ch] ch := by
  have hbreak := isLineBreak_of_isIdentifierStart hstart
  unfold takeIdentifierStart
  refine ((Yields.takeChar_some hc hbreak hstart hrest).bind hrest fun d htakes _ => ?_).cast
    (List.append_nil _)
  exact Yields.pure htakes.ready ch

/-- A name is read up to the first character that cannot belong to it. -/
theorem identifier_yields (hc : c.Ready) (hname : IsName name)
    (hrest : c.here.rest = name ++ rest) (hend : Ends isIdentifierChar rest.head?) :
    Yields identifier c name (identifierAt c.offset name) := by
  obtain ⟨first, more, hfirst, hmore, rfl⟩ := hname
  unfold identifier
  refine Yields.offset_bind ?_
  refine (takeIdentifierStart_yields hc hfirst hrest).bind hrest fun c₁ h₁ hrest₁ => ?_
  refine ((Yields.takeWhile (fun _ => isIdentifierChar_of_isLineBreak) h₁.ready hmore hrest₁
    hend).bind hrest₁ fun c₂ h₂ _ => ?_).cast (List.append_nil more)
  exact Yields.span (h₁.trans h₂) _

/-- The name of an entry that was read is the longest one at the cursor, with the minus of a term.
-/
theorem entryIdentifier_returns {id : Identifier} (hc : c.Ready)
    (h : Returns entryIdentifier c id d) :
    ∃ name, c.Takes name d ∧ IsEntryName name ∧ Ends isIdentifierChar d.here.rest.head? ∧
      id = identifierAt c.offset name := by
  unfold entryIdentifier at h
  have h := h.current_bind
  split at h
  · next hminus =>
    have hnext := hc.next_takes_of_current (by decide) hminus
    obtain ⟨inner, c₁, hinner, h⟩ := h.offset_bind.modify_bind.bind
    obtain ⟨name, htakes, hname, hend, rfl⟩ := identifier_returns hnext.ready hinner
    obtain ⟨rfl, rfl⟩ := Returns.pure_iff.1 h
    refine ⟨_, hnext.trans htakes, .inr ⟨name, hname, rfl⟩, hend, ?_⟩
    simp only [identifierAt, spanOf, String.toList_ofList, hnext.offset, Identifier.mk.injEq,
      Span.mk.injEq, true_and, Text.byteLength_append]
    exact ⟨rfl, Nat.add_assoc _ _ _⟩
  · obtain ⟨name, htakes, hname, hend, rfl⟩ := identifier_returns hc h
    exact ⟨name, htakes, .inl hname, hend, rfl⟩

/-- The name of an entry is read up to the first character that cannot belong to it. -/
theorem entryIdentifier_yields (hc : c.Ready) (hname : IsEntryName name)
    (hrest : c.here.rest = name ++ rest) (hend : Ends isIdentifierChar rest.head?) :
    Yields entryIdentifier c name (identifierAt c.offset name) := by
  unfold entryIdentifier
  refine Yields.current_bind rfl ?_
  rcases hname with hname | ⟨name, hname, rfl⟩
  · have hminus : c.current ≠ some '-' := by
      rw [ne_eq, Cursor.current_eq_head? (by decide), hrest]
      exact hname.head?_ne (by decide)
    rw [if_neg hminus]
    exact identifier_yields hc hname hrest hend
  · have hminus := Cursor.current_of_cons (by decide) hrest
    rw [if_pos hminus]
    refine Yields.offset_bind ((Yields.next hc (by decide) hrest).bind hrest fun c₁ h₁ hrest₁ => ?_)
    refine ((identifier_yields h₁.ready hname hrest₁ hend).bind hrest₁ fun c₂ h₂ _ => ?_).cast
      (List.append_nil name)
    have hid : identifierAt c.offset ('-' :: name) =
        ⟨String.ofList ('-' :: (identifierAt c₁.offset name).name.toList),
          ⟨c.offset, (identifierAt c₁.offset name).span.stop⟩⟩ := by
      simp only [identifierAt, spanOf, String.toList_ofList, h₁.offset, Identifier.mk.injEq,
        Span.mk.injEq, true_and]
      exact (Nat.add_assoc _ _ _).symm
    rw [hid]
    exact Yields.pure h₂.ready _

/-! ### Numbers -/

/-- The digits that were read are all that stand at the cursor, at least one. -/
theorem takeDigits_returns (hc : c.Ready) (h : Returns takeDigits c digits d) :
    c.Takes digits d ∧ IsDigits digits ∧ Ends Char.isDigit d.here.rest.head? := by
  unfold takeDigits at h
  obtain ⟨ch?, c₁, htake, h⟩ := h.bind
  obtain ⟨htakes, hdigit, -⟩ := takeChar_returns (fun _ => isDigit_of_isLineBreak) hc htake
  cases ch? with
  | none => exact absurd h Returns.not_fail
  | some first =>
    obtain ⟨rfl, rfl⟩ := Returns.pure_iff.1 (h.takeWhile_bind fun _ => isDigit_of_isLineBreak)
    have hmore := htakes.ready.skipWhile_takes fun _ => isDigit_of_isLineBreak
    refine ⟨htakes.trans hmore, ⟨by simp, fun ch hch => ?_⟩, ?_⟩
    · rcases List.mem_cons.1 hch with rfl | hmem
      · exact hdigit ch rfl
      · exact List.mem_takeWhile_imp hmem
    · rw [Cursor.skipWhile_rest fun _ => isDigit_of_isLineBreak]
      exact Text.ends_dropWhile _ _

theorem takeDigits_yields (hc : c.Ready) (hdigits : IsDigits digits)
    (hrest : c.here.rest = digits ++ rest) (hend : Ends Char.isDigit rest.head?) :
    Yields takeDigits c digits digits := by
  obtain ⟨hne, hall⟩ := hdigits
  cases digits with
  | nil => exact absurd rfl hne
  | cons first more =>
    have hfirst : first.isDigit := hall first (by simp)
    have hbreak : isLineBreak first = false := by
      by_contra hbreak
      rw [isDigit_of_isLineBreak (by simpa using hbreak)] at hfirst
      cases hfirst
    unfold takeDigits
    refine (Yields.takeChar_some hc hbreak hfirst hrest).bind hrest fun c₁ h₁ hrest₁ => ?_
    refine ((Yields.takeWhile (fun _ => isDigit_of_isLineBreak) h₁.ready
      (fun ch hch => hall ch (by simp [hch])) hrest₁ hend).bind hrest₁ fun c₂ h₂ _ => ?_).cast
      (List.append_nil more)
    exact Yields.pure h₂.ready _

/-- A number that was read is spelled by what was taken, and kept as it is written. -/
theorem number_returns {value : String × Span} (hc : c.Ready) (h : Returns number c value d) :
    ∃ digits, c.Takes digits d ∧ SpellsNumber digits d.here.rest.head? ∧
      value = (String.ofList digits, spanOf c.offset digits) := by
  unfold number at h
  dsimp only at h
  obtain ⟨sign, c₁, hsign, h⟩ := h.offset_bind.bind
  obtain ⟨whole, c₂, hwhole, h⟩ := h.bind
  obtain ⟨point, c₃, hpoint, h⟩ := h.bind
  have hminus : ∀ ch, isLineBreak ch → decide (ch = '-') = false := by
    simp +contextual [isLineBreak]
  have hdot : ∀ ch, isLineBreak ch → decide (ch = '.') = false := by
    simp +contextual [isLineBreak]
  obtain ⟨h₁, hsign, -⟩ := takeChar_returns hminus hc hsign
  obtain ⟨h₂, hdigits, hend⟩ := takeDigits_returns h₁.ready hwhole
  obtain ⟨h₃, hpoint, hnone⟩ := takeChar_returns hdot h₂.ready hpoint
  have hsign : sign.toList = [] ∨ sign.toList = ['-'] := by
    cases sign with
    | none => exact .inl rfl
    | some ch => exact .inr (by simpa using hsign ch rfl)
  have htwo := h₁.trans h₂
  -- with a point there are places behind it; without one the number ends here
  cases point with
  | none =>
    rw [if_neg (by simp)] at h
    obtain ⟨rfl, rfl⟩ := Returns.pure_iff.1 h.pure_bind.spanFrom_bind
    have hall : c.Takes (sign.toList ++ whole) c₃ := by simpa using htwo.trans h₃
    -- neither a digit nor a point was left to take
    have hends : Ends (fun ch => ch.isDigit || ch = '.') c₃.here.rest.head? := by
      have hsame : c₃.here.rest = c₂.here.rest := by simpa using h₃.rest.symm
      intro ch hch
      simp [hend ch (hsame ▸ hch), hnone rfl ch hch]
    refine ⟨_, hall, .whole hsign hdigits hends, ?_⟩
    rw [← hall.span_eq]
    simp
  | some ch =>
    rw [if_pos (by simp)] at h
    obtain ⟨places, c₄, hplaces, h⟩ := h.bind
    obtain ⟨h₄, hplaces, hend₄⟩ := takeDigits_returns h₃.ready hplaces
    obtain ⟨rfl, rfl⟩ := Returns.pure_iff.1 h.spanFrom_bind
    obtain rfl : ch = '.' := by simpa using hpoint ch rfl
    have hall : c.Takes (sign.toList ++ (whole ++ '.' :: places)) c₄ := by
      simpa using htwo.trans (h₃.trans h₄)
    refine ⟨_, hall, .fraction hsign hdigits hplaces hend₄, ?_⟩
    rw [← hall.span_eq]
    simp

/-- The sign of a number is read whether it is there or not. -/
theorem takeChar_minus_yields {sign : List Char} (hc : c.Ready)
    (hsign : sign = [] ∨ sign = ['-']) (hrest : c.here.rest = sign ++ rest)
    (hend : rest.head? ≠ some '-') :
    Yields (takeChar (· = '-')) c sign sign.head? := by
  rcases hsign with rfl | rfl
  · refine Yields.takeChar_none (by simp +contextual [isLineBreak]) hc fun ch hch => ?_
    rw [hrest] at hch
    refine decide_eq_false ?_
    rintro rfl
    exact hend hch
  · exact Yields.takeChar_some hc (by decide) (by decide) hrest

/-- A text that spells a number is read as that number. -/
theorem number_yields (hc : c.Ready) (hdigits : SpellsNumber digits rest.head?)
    (hrest : c.here.rest = digits ++ rest) :
    Yields number c digits (String.ofList digits, spanOf c.offset digits) := by
  have hdot : ∀ ch, isLineBreak ch → decide (ch = '.') = false := by
    simp +contextual [isLineBreak]
  generalize hnext : rest.head? = next at hdigits
  unfold number
  dsimp only
  refine Yields.offset_bind ?_
  cases hdigits with
  | @whole sign whole _ hsign hwhole hend =>
    have hdigit : Ends Char.isDigit rest.head? := fun ch hch => by
      have := hend ch (hnext ▸ hch)
      simp_all
    -- a whole number is not followed by a point
    have hpoint : Ends (fun ch => decide (ch = '.')) rest.head? := fun ch hch => by
      have := hend ch (hnext ▸ hch)
      simp_all
    have hsignText : sign.head?.toList = sign := by rcases hsign with rfl | rfl <;> rfl
    rw [List.append_assoc] at hrest
    refine (takeChar_minus_yields hc hsign hrest (hwhole.head?_ne (by decide))).bind hrest
      fun c₁ h₁ hrest₁ => ?_
    refine ((takeDigits_yields h₁.ready hwhole hrest₁ hdigit).bind hrest₁
      fun c₂ h₂ hrest₂ => ?_).cast (List.append_nil whole)
    refine (Yields.takeChar_none hdot h₂.ready (hrest₂ ▸ hpoint)).bind hrest₂
      fun c₃ h₃ _ => ?_
    have hall : c.Takes (sign ++ whole) c₃ := by simpa using (h₁.trans h₂).trans h₃
    rw [if_neg (by simp), hsignText]
    refine Yields.pure_bind ?_
    simpa using Yields.span hall fun span => (String.ofList (sign ++ whole), span)
  | @fraction sign whole places _ hsign hwhole hplaces hend =>
    have hsignText : sign.head?.toList = sign := by rcases hsign with rfl | rfl <;> rfl
    rw [List.append_assoc, List.append_assoc] at hrest
    refine (takeChar_minus_yields hc hsign hrest (hwhole.head?_ne (by decide))).bind hrest
      fun c₁ h₁ hrest₁ => ?_
    refine (takeDigits_yields h₁.ready hwhole hrest₁ (Text.ends_some.2 (by decide))).bind hrest₁
      fun c₂ h₂ hrest₂ => ?_
    refine (Yields.takeChar_some h₂.ready (by decide) (by decide) hrest₂).bind hrest₂
      fun c₃ h₃ hrest₃ => ?_
    rw [if_pos (by simp), hsignText]
    refine ((takeDigits_yields h₃.ready hplaces hrest₃ (hnext ▸ hend)).bind hrest₃
      fun c₄ h₄ _ => ?_).cast (List.append_nil places)
    have hall : c.Takes (sign ++ (whole ++ '.' :: places)) c₄ := by
      simpa using ((h₁.trans h₂).trans h₃).trans h₄
    simpa using Yields.span hall fun span =>
      (String.ofList (sign ++ (whole ++ '.' :: places)), span)

/-! ### Quoted texts -/

/-- What a parser takes of a class of characters goes on as far as it can. -/
theorem takeAtMost_yields (hr : ∀ ch, isLineBreak ch → r ch = false) (k : Nat) (hc : c.Ready) :
    Yields (takeAtMost r k) c ((c.here.rest.take k).takeWhile r)
      ((c.here.rest.take k).takeWhile r) := by
  induction k generalizing c with
  | zero => exact Yields.pure hc []
  | succ k ih =>
    unfold takeAtMost
    by_cases hend : Text.Ends r c.here.rest.head?
    · have htaken : (c.here.rest.take (k + 1)).takeWhile r = [] :=
        Text.takeWhile_of_ends (by rwa [List.head?_take, if_neg (Nat.succ_ne_zero k)])
      rw [htaken]
      exact (Yields.takeChar_none hr hc hend).bind rfl fun d hd _ => Yields.pure hd.ready _
    · cases hrest : c.here.rest with
      | nil => simp [hrest, Text.Ends] at hend
      | cons ch rest =>
        have hch : r ch := by simpa [hrest, Text.Ends] using hend
        have hbreak : isLineBreak ch = false := by
          by_contra hbreak
          rw [hr ch (by simpa using hbreak)] at hch
          cases hch
        rw [List.take_succ_cons, List.takeWhile_cons_of_pos hch]
        refine (Yields.takeChar_some hc hbreak hch hrest).bind hrest fun d hd hdrest => ?_
        have hmore := ih hd.ready
        have hsplit : d.here.rest = (d.here.rest.take k).takeWhile r ++
            ((d.here.rest.take k).dropWhile r ++ d.here.rest.drop k) := by
          rw [← List.append_assoc, List.takeWhile_append_dropWhile, List.take_append_drop]
        rw [← hdrest]
        refine (hmore.bind hsplit fun e he _ => ?_).cast (List.append_nil _)
        exact Yields.pure he.ready _

/-- What is taken up to a bound is of the class asked for. -/
theorem takeAtMost_returns (hr : ∀ ch, isLineBreak ch → r ch = false) {k : Nat} (hc : c.Ready)
    (h : Returns (takeAtMost r k) c digits d) : c.Takes digits d ∧ ∀ ch ∈ digits, r ch := by
  obtain ⟨e, hrun, htakes⟩ := takeAtMost_yields hr k hc
  obtain ⟨rfl, rfl⟩ := EStateM.Result.ok.inj (hrun.symm.trans h)
  exact ⟨htakes, fun ch hch => List.mem_takeWhile_imp hch⟩

/-- Only four digits make an escape. -/
theorem length_of_charOfHex? (h : charOfHex? digits = some ch) : digits.length = 4 := by
  unfold charOfHex? at h
  dsimp only at h
  split at h
  · next hvalid => exact hvalid.1
  · cases h

/-- An escape that was read has taken the digits of the character that it stands for. -/
theorem unicodeEscape_returns (hc : c.Ready) (h : Returns unicodeEscape c ch d) :
    ∃ digits, c.Takes digits d ∧ (∀ ch ∈ digits, isHexDigit ch) ∧ charOfHex? digits = some ch := by
  unfold unicodeEscape at h
  obtain ⟨digits, c₁, hdigits, h⟩ := h.bind
  obtain ⟨h₁, hall⟩ := takeAtMost_returns (fun _ => isHexDigit_of_isLineBreak) hc hdigits
  split at h
  · next found hfound =>
    obtain ⟨rfl, rfl⟩ := Returns.pure_iff.1 h
    exact ⟨digits, h₁, hall, hfound⟩
  · exact absurd h Returns.not_fail

/-- The digits of a character are read as that character. -/
theorem unicodeEscape_yields (hc : c.Ready) (hall : ∀ ch ∈ digits, isHexDigit ch)
    (hch : charOfHex? digits = some ch) (hrest : c.here.rest = digits ++ rest) :
    Yields unicodeEscape c digits ch := by
  have htake := takeAtMost_yields (fun _ => isHexDigit_of_isLineBreak) 4 hc
  rw [hrest, List.take_left' (length_of_charOfHex? hch), List.takeWhile_eq_self_iff.2 hall] at htake
  unfold unicodeEscape
  refine (htake.bind hrest fun c₁ h₁ _ => ?_).cast (List.append_nil digits)
  rw [hch]
  exact Yields.pure h₁.ready ch

/-- No line break stands between quotes. -/
theorem Quotes.not_isLineBreak {body value : List Char} (h : Quotes (ch :: body) value) :
    isLineBreak ch = false := by
  cases h with
  | plain _ _ hbreak _ => exact hbreak
  | pair => decide
  | unicode => decide
  | slash => decide

/-- A quoted text that goes on behind the cursor starts with the character there. -/
theorem Quotes.current {body value : List Char} (h : Quotes body value)
    (hrest : c.here.rest = body ++ ('"' :: rest)) :
    (body = [] ∧ c.current = some '"') ∨
      ∃ first more, body = first :: more ∧ c.current = some first := by
  cases body with
  | nil => exact .inl ⟨rfl, Cursor.current_of_cons (by decide) hrest⟩
  | cons first more =>
    exact .inr ⟨first, more, rfl, Cursor.current_of_cons (not_isLineBreak h) hrest⟩

/-- What the rounds over a quoted text have read when it ends. -/
def ReadsQuoted (taken : List Char) (c : Cursor) (value : List Char) (d : Cursor) : Prop :=
  ∃ body v, c.Takes (body ++ ['"']) d ∧ Quotes body v ∧ value = taken.reverse ++ v

/-- A spelling in front of a quoted text stands for one more character. -/
theorem ReadsQuoted.cons {taken head value : List Char} {e : Cursor} (h : c.Takes head d)
    (hquotes : ∀ body v rest, d.here.rest = body ++ '"' :: rest → Quotes body v →
      Quotes (head ++ body) (ch :: v)) (hreads : ReadsQuoted (ch :: taken) d value e) :
    ReadsQuoted taken c value e := by
  obtain ⟨body, v, htakes, hbody, rfl⟩ := hreads
  have hrest : d.here.rest = body ++ '"' :: e.here.rest := by
    rw [htakes.rest, List.append_assoc]
    rfl
  refine ⟨head ++ body, ch :: v, ?_, hquotes body v _ hrest hbody, by simp⟩
  rw [List.append_assoc]
  exact h.trans htakes

/-- A backslash on its own stands for itself. -/
theorem Quotes.slash_of_current {body value : List Char} (hquotes : Quotes body value)
    (hrest : c.here.rest = body ++ '"' :: rest)
    (hcurrent : ∀ first ∈ c.current, first ≠ '"' ∧ first ≠ '\\' ∧ first ≠ 'u') :
    Quotes ('\\' :: body) ('\\' :: value) := by
  rcases Quotes.current hquotes hrest with ⟨rfl, hquote⟩ | ⟨first, more, rfl, hfirst⟩
  · exact absurd rfl (hcurrent '"' hquote).1
  · obtain ⟨hquote, hslash, hu⟩ := hcurrent first hfirst
    exact .slash hquote hslash hu hquotes

/-- A round that goes on has read one character or escape of the string. -/
theorem quotedRound_again {taken taken' : List Char} (hc : c.Ready)
    (h : Returns (quotedRound taken) c (.again taken') d) :
    d.Ready ∧ ∀ value e, ReadsQuoted taken' d value e → ReadsQuoted taken c value e := by
  unfold quotedRound at h
  have h := h.current_bind
  split at h
  · obtain ⟨hround, -⟩ := Returns.pure_iff.1 h.modify_bind
    cases hround
  · exact absurd h Returns.not_fail
  · exact absurd h Returns.not_fail
  · next hslash =>
    have h₁ := hc.next_takes_of_current (by decide) hslash
    have h := h.next_bind
    split at h
    -- an escape by number is taken whole
    · next hu =>
      have h₂ := h₁.ready.next_takes_of_current (by decide) hu
      obtain ⟨escaped, c₃, hescape, h⟩ := h.modify_bind.bind
      obtain ⟨digits, h₃, hall, hch⟩ := unicodeEscape_returns h₂.ready hescape
      obtain ⟨hround, rfl⟩ := Returns.pure_iff.1 h
      obtain rfl := Round.again.inj hround
      exact ⟨h₃.ready, fun _ _ => .cons ((h₁.trans h₂).trans h₃) fun _ _ _ _ hquotes => by
        simpa using .unicode hall hch hquotes⟩
    · next first hne hcurrent =>
      split at h
      -- a quote or a backslash is taken together with the backslash in front of it
      · next hpair =>
        have hpair : first = '"' ∨ first = '\\' := by simpa using hpair
        have h₂ := h₁.ready.next_takes_of_current
          (by rcases hpair with rfl | rfl <;> decide) hcurrent
        obtain ⟨hround, rfl⟩ := Returns.pure_iff.1 h.modify_bind
        obtain rfl := Round.again.inj hround
        exact ⟨h₂.ready, fun _ _ => .cons (h₁.trans h₂) fun _ _ _ _ hquotes =>
          .pair hpair hquotes⟩
      -- before anything else the backslash stands for itself: the next round reads on behind it
      · next hpair =>
        obtain ⟨hround, rfl⟩ := Returns.pure_iff.1 h
        obtain rfl := Round.again.inj hround
        have hkept : ∀ ch ∈ c.next.current, ch ≠ '"' ∧ ch ≠ '\\' ∧ ch ≠ 'u' := by
          intro ch hch
          obtain rfl : first = ch := Option.some.inj (hcurrent.symm.trans hch)
          simp only [Bool.or_eq_true, decide_eq_true_eq, not_or] at hpair
          exact ⟨hpair.1, hpair.2, fun heq => hne (by rw [heq])⟩
        exact ⟨h₁.ready, fun _ _ => .cons h₁ fun _ _ _ hrest hquotes =>
          Quotes.slash_of_current hquotes hrest hkept⟩
    · next hnone =>
      obtain ⟨hround, rfl⟩ := Returns.pure_iff.1 h
      obtain rfl := Round.again.inj hround
      exact ⟨h₁.ready, fun _ _ => .cons h₁ fun _ _ _ hrest hquotes =>
        Quotes.slash_of_current hquotes hrest fun ch hch => by simp [hnone] at hch⟩
  · next first hquote hbreak hslash hcurrent =>
    have hne : first ≠ '\n' := fun heq => hbreak (by rw [heq])
    have h₁ := hc.next_takes_of_current hne hcurrent
    obtain ⟨hround, rfl⟩ := Returns.pure_iff.1 h.modify_bind
    obtain rfl := Round.again.inj hround
    have hplain := ((Cursor.current_eq_some_iff hne).1 hcurrent).1
    exact ⟨h₁.ready, fun _ _ => .cons h₁ fun _ _ _ _ hquotes =>
      .plain (fun heq => hquote (by rw [heq])) (fun heq => hslash (by rw [heq])) hplain hquotes⟩

/-- The last round has read the closing quote. -/
theorem quotedRound_done {taken value : List Char} (hc : c.Ready)
    (h : Returns (quotedRound taken) c (.done value) d) : ReadsQuoted taken c value d := by
  unfold quotedRound at h
  have h := h.current_bind
  split at h
  · next hquote =>
    obtain ⟨hround, rfl⟩ := Returns.pure_iff.1 h.modify_bind
    obtain rfl := Round.done.inj hround
    exact ⟨[], [], hc.next_takes_of_current (by decide) hquote, .nil, by simp⟩
  · exact absurd h Returns.not_fail
  · exact absurd h Returns.not_fail
  · have h := h.next_bind
    split at h
    · obtain ⟨escaped, c₃, -, h⟩ := h.modify_bind.bind
      cases (Returns.pure_iff.1 h).1
    · split at h
      · cases (Returns.pure_iff.1 h.modify_bind).1
      · cases (Returns.pure_iff.1 h).1
    · cases (Returns.pure_iff.1 h).1
  · cases (Returns.pure_iff.1 h.modify_bind).1

/-- The text and the value of a quoted text with its quotes. -/
theorem quoted_returns {value : String × Span} (hc : c.Ready) (h : Returns quoted c value d) :
    ∃ body v, c.Takes ('"' :: (body ++ ['"'])) d ∧ Quotes body v ∧
      value = (String.ofList v, spanOf c.offset ('"' :: (body ++ ['"']))) := by
  unfold quoted at h
  obtain ⟨_, c₁, hopen, h⟩ := h.offset_bind.bind
  have h₁ := expectChar_returns hc (by decide) hopen
  obtain ⟨text, c₂, hrounds, h⟩ := h.bind
  obtain ⟨body, v, h₂, hquotes, rfl⟩ := rounds_returns (Q := ReadsQuoted)
    (fun _ _ _ _ hready hround => quotedRound_again hready hround)
    (fun _ _ _ _ hready hround => quotedRound_done hready hround) h₁.ready hrounds
  obtain ⟨rfl, rfl⟩ := Returns.pure_iff.1 h.spanFrom_bind
  refine ⟨body, _, h₁.trans h₂, hquotes, ?_⟩
  rw [(h₁.trans h₂).span_eq]
  rfl

/-- A character that starts no escape is read as itself. -/
theorem quotedRound_plain (taken : List Char) (hc : c.Ready) (hquote : ch ≠ '"')
    (hslash : ch ≠ '\\') (hbreak : isLineBreak ch = false) (hrest : c.here.rest = ch :: rest) :
    Yields (quotedRound taken) c [ch] (.again (ch :: taken)) := by
  have hne : ch ≠ '\n' := by
    rintro rfl
    exact absurd hbreak (by decide)
  unfold quotedRound
  refine Yields.current_bind (Cursor.current_of_cons hbreak hrest) ?_
  split
  · next heq => exact absurd (Option.some.inj heq) hquote
  · next heq => cases heq
  · next heq => exact absurd (Option.some.inj heq) hne
  · next heq => exact absurd (Option.some.inj heq) hslash
  · next heq =>
    cases heq
    exact (Yields.next hc hbreak hrest).bind hrest fun d hd _ => Yields.pure hd.ready _

/-- A quote or a backslash behind a backslash is read as itself. -/
theorem quotedRound_pair (taken : List Char) (hc : c.Ready) (hpair : ch = '"' ∨ ch = '\\')
    (hrest : c.here.rest = '\\' :: ch :: rest) :
    Yields (quotedRound taken) c ['\\', ch] (.again (ch :: taken)) := by
  have hbreak : isLineBreak ch = false := by rcases hpair with rfl | rfl <;> decide
  unfold quotedRound
  refine Yields.current_bind (Cursor.current_of_cons (by decide) hrest) ?_
  refine Yields.next_bind hc (by decide) hrest fun d hd hdrest => ?_
  rw [Cursor.current_of_cons hbreak hdrest]
  split
  · next heq => rcases hpair with rfl | rfl <;> cases heq
  · next first hne heq =>
    cases heq
    rw [if_pos (by simpa using hpair)]
    exact (Yields.next hd.ready hbreak hdrest).bind hdrest fun e he _ => Yields.pure he.ready _
  · next heq => cases heq

/-- A character given by its digits is read in one round. -/
theorem quotedRound_unicode (taken : List Char) (hc : c.Ready)
    (hall : ∀ d ∈ digits, isHexDigit d) (hch : charOfHex? digits = some ch)
    (hrest : c.here.rest = '\\' :: 'u' :: (digits ++ rest)) :
    Yields (quotedRound taken) c ('\\' :: 'u' :: digits) (.again (ch :: taken)) := by
  unfold quotedRound
  refine Yields.current_bind (Cursor.current_of_cons (by decide) hrest) ?_
  refine Yields.next_bind hc (by decide) hrest fun c₁ h₁ hrest₁ => ?_
  rw [Cursor.current_of_cons (by decide) hrest₁]
  refine (Yields.next h₁.ready (by decide) hrest₁).bind hrest₁ fun c₂ h₂ hrest₂ => ?_
  refine ((unicodeEscape_yields h₂.ready hall hch hrest₂).bind hrest₂ fun c₃ h₃ _ => ?_).cast
    (List.append_nil digits)
  exact Yields.pure h₃.ready _

/-- A backslash that starts no escape is kept. -/
theorem quotedRound_slash (taken : List Char) (hc : c.Ready)
    (hkept : ∀ ch ∈ rest.head?, ch ≠ '"' ∧ ch ≠ '\\' ∧ ch ≠ 'u')
    (hrest : c.here.rest = '\\' :: rest) :
    Yields (quotedRound taken) c ['\\'] (.again ('\\' :: taken)) := by
  unfold quotedRound
  refine Yields.current_bind (Cursor.current_of_cons (by decide) hrest) ?_
  refine Yields.next_bind hc (by decide) hrest fun d hd hdrest => ?_
  subst hdrest
  split
  · next heq => exact absurd rfl (hkept 'u' ((Cursor.current_eq_head? (by decide)).1 heq)).2.2
  · next first hne heq =>
    have hpair : ¬(first = '"' ∨ first = '\\') := by
      rintro (rfl | rfl)
      · exact absurd rfl (hkept '"' ((Cursor.current_eq_head? (by decide)).1 heq)).1
      · exact absurd rfl (hkept '\\' ((Cursor.current_eq_head? (by decide)).1 heq)).2.1
    rw [if_neg (by simpa using hpair)]
    exact Yields.pure hd.ready _
  · exact Yields.pure hd.ready _

/-- What stands between quotes is read in rounds, behind what was read before. -/
theorem quotedRounds_yields {body value taken : List Char} (hc : c.Ready)
    (h : Quotes body value) (hrest : c.here.rest = body ++ '"' :: rest) :
    Yields (rounds quotedRound taken) c (body ++ ['"']) (taken.reverse ++ value) := by
  induction h generalizing c taken with
  | nil =>
    rw [List.append_nil]
    refine Yields.rounds_done ?_
    unfold quotedRound
    refine Yields.current_bind (Cursor.current_of_cons (by decide) hrest) ?_
    exact (Yields.next hc (by decide) hrest).bind hrest fun d hd _ => Yields.pure hd.ready _
  | plain hquote hslash hbreak _ ih =>
    have hround := quotedRound_plain taken hc hquote hslash hbreak hrest
    simpa using Yields.rounds_again hc hround (by simp) hrest fun d hd hdrest =>
      ih hd.ready hdrest
  | pair hpair _ ih =>
    have hround := quotedRound_pair taken hc hpair hrest
    simpa using Yields.rounds_again hc hround (by simp) hrest fun d hd hdrest =>
      ih hd.ready hdrest
  | unicode hall hch _ ih =>
    simp only [List.cons_append, List.append_assoc] at hrest
    have hround := quotedRound_unicode taken hc hall hch hrest
    simpa using Yields.rounds_again hc hround (by simp) hrest fun d hd hdrest =>
      ih hd.ready hdrest
  | slash hquote hslash hu hquotes ih =>
    have hround := quotedRound_slash taken hc (by simp [hquote, hslash, hu]) hrest
    simpa using Yields.rounds_again hc hround (by simp) hrest fun d hd hdrest =>
      ih hd.ready hdrest

/-- A text in quotes is read as the value that it stands for. -/
theorem quoted_yields {body value : List Char} (hc : c.Ready) (h : Quotes body value)
    (hrest : c.here.rest = '"' :: (body ++ '"' :: rest)) :
    Yields quoted c ('"' :: (body ++ ['"']))
      (String.ofList value, spanOf c.offset ('"' :: (body ++ ['"']))) := by
  unfold quoted
  refine Yields.offset_bind ?_
  refine (Yields.expectChar hc (by decide) hrest).bind hrest fun c₁ h₁ hrest₁ => ?_
  have hbody : c₁.here.rest = body ++ ['"'] ++ rest := by simpa using hrest₁
  refine ((quotedRounds_yields h₁.ready h hrest₁).bind hbody fun c₂ h₂ _ => ?_).cast
    (List.append_nil _)
  exact Yields.span (h₁.trans h₂) _

/-! ### Variant keys -/

/-- A key of words that was read is spelled by what was taken, with spaces behind it. -/
theorem variantName_returns {key : VariantKey} (hc : c.Ready) (hstart : isIdentifierStart ch)
    (hcurrent : c.current = some ch) (h : Returns variantName c key d) :
    ∃ text, c.Takes text d ∧ SpellsKey c.offset text key d.here.rest.head? := by
  have hne : ch ≠ '\n' := by
    rintro rfl
    exact absurd hstart (by decide)
  unfold variantName at h
  dsimp only at h
  have h := h.offset_bind.current_bind.modify_bind
  rw [hcurrent] at h
  obtain ⟨rfl, rfl⟩ := Returns.pure_iff.1
    (h.takeWhile_bind fun _ => isVariantNameChar_of_isLineBreak)
  have h₁ := hc.next_takes_of_current hne hcurrent
  have h₂ := h₁.ready.skipWhile_takes fun _ => isVariantNameChar_of_isLineBreak
  have hend : Ends isVariantNameChar (c.next.skipWhile isVariantNameChar).here.rest.head? := by
    rw [Cursor.skipWhile_rest fun _ => isVariantNameChar_of_isLineBreak]
    exact Text.ends_dropWhile _ _
  have hspace : ch ≠ ' ' := by
    rintro rfl
    exact absurd hstart (by decide)
  -- the blanks taken with the name are trimmed off it
  obtain ⟨words, spaces, hmore, hspaces, hlast, hname⟩ :=
    Text.exists_words hspace (c.next.here.rest.takeWhile isVariantNameChar)
  rw [hmore] at h₂
  have hall : ∀ first ∈ words, isVariantNameChar first := fun first hfirst =>
    List.mem_takeWhile_imp (hmore ▸ List.mem_append_left _ hfirst)
  refine ⟨_, h₁.trans h₂, ?_⟩
  rw [show (some ch).toList ++ c.next.here.rest.takeWhile isVariantNameChar =
    ch :: c.next.here.rest.takeWhile isVariantNameChar from rfl, hname]
  exact .name hstart hall hlast hspaces hend

/-- Words are read as a key without the spaces behind them. -/
theorem variantName_yields {more spaces : List Char} (hc : c.Ready)
    (hstart : isIdentifierStart ch) (hmore : ∀ first ∈ more, isVariantNameChar first)
    (hlast : (ch :: more).getLast? ≠ some ' ') (hspaces : ∀ space ∈ spaces, space = ' ')
    (hend : Ends isVariantNameChar rest.head?)
    (hrest : c.here.rest = ch :: (more ++ spaces ++ rest)) :
    Yields variantName c (ch :: (more ++ spaces))
      (.name (String.ofList (ch :: more)) (spanOf c.offset (ch :: more))) := by
  have hbreak := isLineBreak_of_isIdentifierStart hstart
  have hall : ∀ first ∈ more ++ spaces, isVariantNameChar first := by
    intro first hfirst
    rcases List.mem_append.1 hfirst with hmem | hmem
    · exact hmore first hmem
    · rw [hspaces first hmem]
      decide
  have hname : ((ch :: (more ++ spaces)).reverse.dropWhile (· = ' ')).reverse = ch :: more :=
    Text.rdropWhile_append_of_ends (fun space hspace => decide_eq_true (hspaces space hspace))
      fun last hlast' => decide_eq_false fun heq => hlast (heq ▸ hlast')
  unfold variantName
  refine Yields.offset_bind (Yields.current_bind (Cursor.current_of_cons hbreak hrest) ?_)
  refine (Yields.next hc hbreak hrest).bind hrest fun c₁ h₁ hrest₁ => ?_
  refine ((Yields.takeWhile (fun _ => isVariantNameChar_of_isLineBreak) h₁.ready hall hrest₁
    hend).bind hrest₁ fun c₂ h₂ _ => ?_).cast (List.append_nil _)
  rw [show (some ch).toList ++ (more ++ spaces) = ch :: (more ++ spaces) from rfl, hname]
  exact Yields.pure h₂.ready _

/-- A key that was read is spelled by what was taken. -/
theorem variantKey_returns {key : VariantKey} (hc : c.Ready) (h : Returns variantKey c key d) :
    ∃ text, c.Takes text d ∧ SpellsKey c.offset text key d.here.rest.head? := by
  unfold variantKey at h
  have h := h.current_bind
  split at h
  · exact absurd h Returns.not_fail
  · next ch hcurrent =>
    split at h
    · obtain ⟨⟨digits, span⟩, c₁, hnumber, h⟩ := h.bind
      obtain ⟨text, h₁, hdigits, hvalue⟩ := number_returns hc hnumber
      obtain ⟨rfl, rfl⟩ := Prod.mk.inj hvalue
      obtain ⟨rfl, rfl⟩ := Returns.pure_iff.1 h
      exact ⟨text, h₁, .number hdigits⟩
    · split at h
      · next hstart => exact variantName_returns hc hstart hcurrent h
      · exact absurd h Returns.not_fail

/-- A text that spells a key is read as that key. -/
theorem variantKey_yields {key : VariantKey} {text : List Char} (hc : c.Ready)
    (h : SpellsKey c.offset text key rest.head?) (hrest : c.here.rest = text ++ rest) :
    Yields variantKey c text key := by
  generalize hnext : rest.head? = next at h
  unfold variantKey
  cases h with
  | number hdigits =>
    obtain ⟨ch, more, rfl, hch⟩ := hdigits.exists_head
    have hbreak := isLineBreak_of_isSelectorStart (isSelectorStart_of_isNumberStart hch)
    refine Yields.current_bind (Cursor.current_of_cons hbreak hrest) ?_
    dsimp only
    rw [if_pos (show (ch.isDigit || ch = '-') from hch)]
    refine ((number_yields hc (hnext ▸ hdigits) hrest).bind hrest fun c₁ h₁ _ => ?_).cast
      (List.append_nil _)
    exact Yields.pure h₁.ready _
  | @name first more spaces _ hstart hmore hlast hspaces hend =>
    have hbreak := isLineBreak_of_isIdentifierStart hstart
    -- a name starts like no number
    have hdigit : ¬(first.isDigit || decide (first = '-')) := by
      intro hdigit
      rcases Bool.or_eq_true_iff.1 hdigit with hdigit | hminus
      · rw [isDigit_of_isIdentifierStart hstart] at hdigit
        cases hdigit
      · obtain rfl : first = '-' := of_decide_eq_true hminus
        exact absurd hstart (by decide)
    refine Yields.current_bind (Cursor.current_of_cons hbreak hrest) ?_
    dsimp only
    rw [if_neg hdigit, if_pos hstart]
    exact variantName_yields hc hstart hmore hlast hspaces (hnext ▸ hend) hrest

end Localization.Parser
