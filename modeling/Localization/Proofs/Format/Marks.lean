import Localization.Proofs.Format.Builtin
import Localization.Proofs.Format.Follows

/-!
# Isolation marks

Two characters mark where an isolated placeable starts and ends. Numbers and dates are shown without
them, so wherever they do not stand in a store, in a pattern or in the arguments, all marks in a
text come from isolating.

## Main definitions

* `Unmarked` — a text without marks
* `Environment.texts` — all texts that formatting a pattern can start from

## Main statements

* `Number.unmarked_format`, `DateTime.unmarked_text` — numbers and dates are shown without marks
* `Number.unmarked_of_parse?` — a text that reads as a number has no marks
-/

namespace Localization

open Resolver (isolateStart isolateEnd)

/-- Whether a character marks the start or the end of an isolated placeable. -/
def isMark (c : Char) : Bool := c == isolateStart || c == isolateEnd

/-- A text without marks. -/
def Unmarked (text : List Char) : Prop := ∀ c ∈ text, isMark c = false

instance (text : List Char) : Decidable (Unmarked text) :=
  decidable_of_iff (text.all (!isMark ·) = true) (by simp [Unmarked])

/-! ### Texts without marks -/

section

variable {s t : List Char}

theorem unmarked_nil : Unmarked [] := by simp [Unmarked]

@[simp] theorem unmarked_append : Unmarked (s ++ t) ↔ Unmarked s ∧ Unmarked t :=
  List.forall_mem_append

@[simp] theorem unmarked_cons {c : Char} : Unmarked (c :: t) ↔ isMark c = false ∧ Unmarked t :=
  List.forall_mem_cons

/-- A text whose characters stand in a text without marks has no marks. -/
theorem Unmarked.mono (h : Unmarked t) (hsubset : s ⊆ t) : Unmarked s :=
  fun c hc => h c (hsubset hc)

theorem unmarked_replicate {c : Char} (h : isMark c = false) (n : Nat) :
    Unmarked (List.replicate n c) := fun d hd => by rwa [List.eq_of_mem_replicate hd]

theorem isMark_of_isDigit {c : Char} (h : c.isDigit) : isMark c = false := by
  refine Bool.eq_false_iff.2 fun hmark => ?_
  rcases Bool.or_eq_true_iff.1 hmark with hmark | hmark <;>
    · rw [eq_of_beq hmark] at h
      revert h
      decide

theorem unmarked_of_isDigits (h : ∀ c ∈ t, c.isDigit) : Unmarked t :=
  fun c hc => isMark_of_isDigit (h c hc)

theorem unmarked_toDigits (n : Nat) : Unmarked (Nat.toDigits 10 n) :=
  unmarked_of_isDigits fun _ => Nat.isDigit_of_mem_toDigits (by decide) (by decide)

theorem unmarked_toString (n : Nat) : Unmarked (toString n).toList := by
  rw [Nat.toString_eq_repr, Nat.toList_repr]
  exact unmarked_toDigits n

end

/-! ### Numbers -/

/-- A decimal is written without marks. -/
theorem Decimal.unmarked_positional (digits places : Nat) :
    Unmarked (positional digits places).toList := by
  have hpadded : Unmarked (List.replicate (places + 1 - (Nat.toDigits 10 digits).length) '0' ++
      Nat.toDigits 10 digits) :=
    unmarked_append.2 ⟨unmarked_replicate (by decide) _, unmarked_toDigits digits⟩
  unfold positional
  rw [String.toList_ofList]
  split
  · exact hpadded.mono (List.take_subset _ _)
  · rw [unmarked_append, unmarked_cons]
    exact ⟨hpadded.mono (List.take_subset _ _), by decide, hpadded.mono (List.drop_subset _ _)⟩

namespace Binary64

theorem unmarked_signed (negative : Bool) {text : String} (h : Unmarked text.toList) :
    Unmarked (signed negative text).toList := by
  unfold signed
  split
  · rw [String.toList_append, unmarked_append]
    exact ⟨by decide, h⟩
  · exact h

/-- A double with a fixed number of places is written without marks. -/
theorem unmarked_fixedText (value : Binary64) (places : Nat) :
    Unmarked (value.fixedText places).toList := by
  cases value with
  | nan =>
    have h : Unmarked "NaN".toList := by decide
    exact h
  | infinite negative => exact unmarked_signed negative (by decide)
  | finite negative mantissa exponent =>
    exact unmarked_signed negative (Decimal.unmarked_positional _ _)

end Binary64

namespace Number

/-- A number is shown without marks if it is written without. -/
theorem unmarked_format {n : Number} (h : Unmarked n.raw.toList) : Unmarked n.format.toList := by
  unfold format
  dsimp only
  split
  · exact h
  · exact n.value.unmarked_fixedText _

/-- Next to its digits a decimal text has a sign and a point. -/
theorem Parts.mem_ofText {text : List Char} {c : Char} (h : c ∈ text) :
    c = '-' ∨ c = '.' ∨ c ∈ (ofText text).whole ∨ c ∈ (ofText text).fraction.getD [] := by
  unfold ofText
  dsimp only
  generalize hunsigned : (if text.head? = some '-' then text.tail else text) = unsigned
  have hmem : c = '-' ∨ c ∈ unsigned := by
    rw [← hunsigned]
    cases text with
    | nil => simp at h
    | cons first rest =>
      rcases List.mem_cons.1 h with rfl | h
      · by_cases hfirst : c = '-' <;> simp [hfirst]
      · right
        split
        · exact h
        · exact List.mem_cons_of_mem _ h
  refine hmem.imp_right fun hmem => ?_
  -- without its sign the text is the whole part, and a point with the fraction behind it
  rw [← List.takeWhile_append_dropWhile (p := fun c => decide (c ≠ '.')) (l := unsigned)] at hmem
  rcases List.mem_append.1 hmem with hmem | hmem
  · exact .inr (.inl hmem)
  · cases hdrop : unsigned.dropWhile fun c => decide (c ≠ '.') with
    | nil =>
      rw [hdrop] at hmem
      cases hmem
    | cons point rest =>
      have hpoint := List.head?_dropWhile_not (fun c => decide (c ≠ '.')) unsigned
      rw [hdrop] at hpoint hmem
      obtain rfl : point = '.' := by simpa using hpoint
      exact (List.mem_cons.1 hmem).imp_right .inr

/-- A text that reads as a number has no marks. -/
theorem unmarked_of_parse? {text : String} {n : Number} (h : parse? text = some n) :
    Unmarked n.raw.toList := by
  unfold parse? at h
  dsimp only at h
  split at h
  · next hdigits =>
    cases h
    rw [String.toList_ofList]
    obtain ⟨hwhole, hfraction⟩ := Bool.and_eq_true_iff.1 hdigits
    intro c hc
    rcases Parts.mem_ofText hc with rfl | rfl | hc | hc
    · decide
    · decide
    · exact isMark_of_isDigit (List.all_eq_true.1 (Bool.and_eq_true_iff.1 hwhole).2 c hc)
    · cases hparts : (Parts.ofText (Text.trim text.toList)).fraction with
      | none => simp [hparts] at hc
      | some fraction =>
        rw [hparts] at hc hfraction
        exact isMark_of_isDigit (List.all_eq_true.1 (Bool.and_eq_true_iff.1 hfraction).2 c hc)
  · cases h

end Number

/-! ### Dates -/

namespace DateTime

theorem unmarked_padded (width n : Nat) : Unmarked (padded width n).toList := by
  unfold padded
  rw [String.toList_append, String.toList_ofList, unmarked_append]
  exact ⟨unmarked_replicate (by decide) _, unmarked_toString n⟩

/-- A year is written without marks. -/
theorem unmarked_yearText (year : Int) : Unmarked (yearText year).toList := by
  unfold yearText
  split
  · exact unmarked_padded _ _
  · rw [String.toList_append, unmarked_append]
    refine ⟨?_, unmarked_padded _ _⟩
    split <;> decide

theorem unmarked_fractionText (nanosecond : Nat) : Unmarked (fractionText nanosecond).toList := by
  have hpoint : ∀ width n, Unmarked ("." ++ padded width n).toList := by
    intro width n
    rw [String.toList_append, unmarked_append]
    exact ⟨by decide, unmarked_padded width n⟩
  unfold fractionText
  split
  · decide
  · split
    · exact hpoint _ _
    · split <;> exact hpoint _ _

/-- A date is shown without marks. -/
theorem unmarked_text (t : DateTime) : Unmarked t.text.toList := by
  have hpunctuation : Unmarked "-".toList ∧ Unmarked ":".toList ∧ Unmarked " ".toList := by decide
  obtain ⟨hdash, hcolon, hspace⟩ := hpunctuation
  unfold text
  dsimp only
  simp only [String.toList_append, unmarked_append, hdash, hcolon, hspace, unmarked_padded,
    unmarked_yearText, unmarked_fractionText, and_self]

end DateTime

/-! ### What formatting starts from -/

/-- The texts in a value; that of a number is how it is written. -/
def Value.texts : Value → List String
  | string text => [text]
  | number n => [n.raw]
  | dateTime _ => []
  | symbol name => [name]
  | none name => name.toList

/-- The texts in an argument that stands for a value. -/
def Argument.texts (argument : Argument) : List String :=
  (argument.toValue?.map Value.texts).getD []

namespace Environment

variable (env : Environment)

/-- All texts that formatting a pattern can start from: the names of messages and terms, the texts
and names in their patterns and in the pattern itself, and the texts in the arguments. -/
def texts (content : Pattern) (site : Site) : List String :=
  (env.store.messages.entries ++ env.store.terms.entries).map (·.2.id.name) ++
    (env.store.located ++ content.located site).flatMap (·.1.texts) ++
    env.args.elim [] (·.entries.flatMap (·.2.texts))

/-- No text that formatting a pattern can start from has marks. -/
def MarkFree (content : Pattern) (site : Site) : Prop :=
  ∀ text ∈ env.texts content site, Unmarked text.toList

namespace MarkFree

variable {env} {content : Pattern} {site : Site} (h : env.MarkFree content site)
include h

theorem name {root : Root} {message : Message} (hfind : env.store.find? root = some message) :
    Unmarked message.id.name.toList := by
  refine h _ (List.mem_append_left _ (List.mem_append_left _ ?_))
  cases root with
  | message id =>
    exact List.mem_map_of_mem (List.mem_append_left _ (Store.mem_entries_of_get? hfind))
  | term id =>
    exact List.mem_map_of_mem (List.mem_append_right _ (Store.mem_entries_of_get? hfind))
  | loose => cases hfind

theorem pattern {inner : Pattern × Site}
    (hinner : inner ∈ env.store.located ++ content.located site) {text : String}
    (htext : text ∈ inner.1.texts) : Unmarked text.toList :=
  h _ (List.mem_append_left _ (List.mem_append_right _ (List.mem_flatMap.2 ⟨_, hinner, htext⟩)))

theorem argument {name : String} {argument : Argument} {value : Value}
    (hargument : env.args.bind (·.get? name) = some argument)
    (hvalue : argument.toValue? = some value) {text : String} (htext : text ∈ value.texts) :
    Unmarked text.toList := by
  obtain ⟨args, hargs, hget⟩ := Option.bind_eq_some_iff.1 hargument
  refine h _ (List.mem_append_right _ ?_)
  rw [hargs]
  refine List.mem_flatMap.2 ⟨_, Store.mem_entries_of_get? hget, ?_⟩
  simpa [Argument.texts, hvalue] using htext

end MarkFree

end Environment

end Localization
