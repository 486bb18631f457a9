import Localization.Proofs.Resource.SingleMessages
import Mathlib.Data.Nat.Digits.Defs

/-!
# Quoted texts

Every text can be quoted: a quote and a backslash are written with a backslash in front, a line
break by its number, and any other character as it is or by its number. What stands behind an
opening quote is refused for two reasons only, and the one that comes first from the left counts:
the line ends before the quote is closed, or an escape names no character.

## Main definitions

* `Quotation` — the ways to write a text between quotes
* `quotedFault?` — what is wrong with the text behind an opening quote

## Main statements

* `Quotation.quotes` — what is written between quotes stands for the text
* `Parser.quoted_fault` — the parser refuses what is wrong with a quoted text
* `quoted_complete` — every text can be quoted, and nothing else is refused
-/

namespace Localization

open Text (byteLength)

/-! ### Hexadecimal digits -/

/-- The four hexadecimal digits of a number below 65536, in lower case. -/
def fourDigits (code : Nat) : List Char :=
  [code / 4096, code / 256 % 16, code / 16 % 16, code % 16].map Nat.digitChar

/-- A hexadecimal digit in either case has the value of the one in lower case. -/
theorem hexValue_of_toLower {digit : Char} {n : Nat} (h : n < 16)
    (hdigit : digit.toLower = Nat.digitChar n) :
    isHexDigit digit ∧ Parser.hexValue digit = n := by
  have hlower : ∀ n < 16, isHexDigit (Nat.digitChar n) ∧ Parser.hexValue (Nat.digitChar n) = n := by
    decide
  have hupper : ∀ k < 26, ∀ n < 16, (Char.ofNat (65 + k)).toLower = Nat.digitChar n →
      isHexDigit (Char.ofNat (65 + k)) ∧ Parser.hexValue (Char.ofNat (65 + k)) = n := by
    decide
  by_cases hcase : digit.isUpper
  · obtain ⟨hge, hle⟩ := isUpper_iff_toNat.1 hcase
    have hofNat : Char.ofNat (65 + (digit.toNat - 65)) = digit := by
      rw [Nat.add_sub_cancel' hge, Char.ofNat_toNat]
    rw [← hofNat] at hdigit ⊢
    exact hupper _ (by omega) n h hdigit
  · have hsame : digit.toLower = digit := dif_neg (mt decide_eq_true hcase)
    rw [hsame] at hdigit
    rw [hdigit]
    exact hlower n h

/-- The digits of a character in either case name it. -/
theorem charOfHex?_of_toLower {ch : Char} {digits : List Char} (h : ch.toNat < 65536)
    (hdigits : digits.map Char.toLower = fourDigits ch.toNat) :
    (∀ digit ∈ digits, isHexDigit digit) ∧ Parser.charOfHex? digits = some ch := by
  obtain ⟨a, b, c, d, rfl⟩ : ∃ a b c d, digits = [a, b, c, d] := by
    have hlength := congrArg List.length hdigits
    rw [List.length_map] at hlength
    exact List.length_eq_four.1 hlength
  simp only [fourDigits, List.map_cons, List.map_nil, List.cons.injEq, and_true] at hdigits
  obtain ⟨ha, hb, hc, hd⟩ := hdigits
  obtain ⟨ha, hvalueA⟩ := hexValue_of_toLower (by omega) ha
  obtain ⟨hb, hvalueB⟩ := hexValue_of_toLower (by omega) hb
  obtain ⟨hc, hvalueC⟩ := hexValue_of_toLower (by omega) hc
  obtain ⟨hd, hvalueD⟩ := hexValue_of_toLower (by omega) hd
  refine ⟨by simp [ha, hb, hc, hd], ?_⟩
  have hcode : [a, b, c, d].foldl (fun n ch => 16 * n + Parser.hexValue ch) 0 = ch.toNat := by
    simp only [List.foldl_cons, List.foldl_nil, hvalueA, hvalueB, hvalueC, hvalueD]
    omega
  unfold Parser.charOfHex?
  rw [hcode, if_pos ⟨rfl, ch.valid⟩, Char.ofNat_toNat]

/-! ### Writing a text between quotes -/

/-- How a text is written between quotes, character by character. -/
inductive Quotation : List Char → List Char → Prop
  | nil : Quotation [] []
  | plain {ch value body} : ch ≠ '"' → ch ≠ '\\' → isLineBreak ch = false →
      Quotation value body → Quotation (ch :: value) (ch :: body)
  | pair {ch value body} : ch = '"' ∨ ch = '\\' → Quotation value body →
      Quotation (ch :: value) ('\\' :: ch :: body)
  | number {ch : Char} {digits value body} : ch.toNat < 65536 →
      digits.map Char.toLower = fourDigits ch.toNat → Quotation value body →
      Quotation (ch :: value) ('\\' :: 'u' :: (digits ++ body))

/-- What is written between quotes stands for the text. -/
theorem Quotation.quotes {value body : List Char} (h : Quotation value body) :
    Quotes body value := by
  induction h with
  | nil => exact .nil
  | plain hquote hslash hbreak _ ih => exact .plain hquote hslash hbreak ih
  | pair hch _ ih => exact .pair hch ih
  | number hcode hdigits _ ih =>
    obtain ⟨hhex, hch⟩ := charOfHex?_of_toLower hcode hdigits
    exact .unicode hhex hch ih

/-- Every text can be written between quotes. -/
theorem exists_quotation (value : List Char) : ∃ body, Quotation value body := by
  induction value with
  | nil => exact ⟨[], .nil⟩
  | cons ch value ih =>
    obtain ⟨body, h⟩ := ih
    by_cases hpair : ch = '"' ∨ ch = '\\'
    · exact ⟨_, .pair hpair h⟩
    obtain ⟨hquote, hslash⟩ := not_or.1 hpair
    -- only a line break has to be written by its number
    cases hbreak : isLineBreak ch with
    | false => exact ⟨_, .plain hquote hslash hbreak h⟩
    | true =>
      obtain rfl | rfl := Text.isLineBreak_iff.1 hbreak
      · exact ⟨_, .number (by decide) (by decide : (fourDigits 10).map Char.toLower = _) h⟩
      · exact ⟨_, .number (by decide) (by decide : (fourDigits 13).map Char.toLower = _) h⟩

/-! ### What is wrong with a quoted text -/

/-- Whether a number is the half of a surrogate pair, which is no character. -/
def isSurrogate (code : Nat) : Bool := 0xD800 ≤ code && code ≤ 0xDFFF

/-- Whether a text starts with the four hexadecimal digits of a character. -/
def startsCharCode (text : List Char) : Bool :=
  let digits := text.take 4
  digits.length = 4 && digits.all isHexDigit &&
    !isSurrogate (Nat.ofDigits 16 (digits.reverse.map Parser.hexValue))

/-- What is wrong with the text behind an opening quote, read from the left up to the quote that
closes it. An escaped quote or backslash is passed over as a pair. -/
def quotedFault? : List Char → Option ErrorCode
  | [] => some .unclosedString
  | '"' :: _ => none
  | '\\' :: '"' :: rest => quotedFault? rest
  | '\\' :: '\\' :: rest => quotedFault? rest
  | '\\' :: 'u' :: rest => if startsCharCode rest then quotedFault? rest else some .invalidEscape
  | ch :: rest => if isLineBreak ch then some .unclosedString else quotedFault? rest

section

variable {ch : Char} {text rest digits : List Char}

theorem quotedFault?_of_break (h : isLineBreak ch) :
    quotedFault? (ch :: rest) = some .unclosedString := by
  obtain rfl | rfl := Text.isLineBreak_iff.1 h <;> simp [quotedFault?, h]

theorem quotedFault?_plain (hquote : ch ≠ '"') (hslash : ch ≠ '\\')
    (hbreak : isLineBreak ch = false) : quotedFault? (ch :: rest) = quotedFault? rest := by
  simp [quotedFault?, hslash, hbreak]

/-- A backslash that starts no escape is passed over alone. -/
theorem quotedFault?_slash (h : ∀ ch ∈ rest.head?, ch ≠ '"' ∧ ch ≠ '\\' ∧ ch ≠ 'u') :
    quotedFault? ('\\' :: rest) = quotedFault? rest := by
  cases rest with
  | nil => rfl
  | cons ch rest =>
    obtain ⟨hquote, hslash, hu⟩ := h ch rfl
    rw [quotedFault?.eq_6]
    · rfl
    all_goals simp_all

theorem hexValue_lt (h : isHexDigit ch) : Parser.hexValue ch < 16 := by
  have hrange : (ch.isDigit ∨ 97 ≤ ch.toNat ∧ ch.toNat ≤ 102) ∨
      65 ≤ ch.toNat ∧ ch.toNat ≤ 70 := by
    simpa [isHexDigit, Char.le_def, UInt32.le_iff_toNat_le] using h
  have hdigit : ch.isDigit ↔ 48 ≤ ch.toNat ∧ ch.toNat ≤ 57 := Char.isDigit_iff_toNat
  simp only [Parser.hexValue, isLower_iff_toNat, hdigit, show '0'.toNat = 48 from rfl,
    show 'a'.toNat = 97 from rfl, show 'A'.toNat = 65 from rfl] at hrange ⊢
  split_ifs <;> omega

/-- Four hexadecimal digits name a character unless their number is half of a surrogate pair. -/
theorem charOfHex?_isSome (hlength : digits.length = 4)
    (hhex : ∀ digit ∈ digits, isHexDigit digit) :
    (Parser.charOfHex? digits).isSome =
      !isSurrogate (Nat.ofDigits 16 (digits.reverse.map Parser.hexValue)) := by
  obtain ⟨a, b, c, d, rfl⟩ := List.length_eq_four.1 hlength
  simp only [List.mem_cons, List.not_mem_nil, or_false, forall_eq_or_imp, forall_eq] at hhex
  obtain ⟨ha, hb, hc, hd⟩ := hhex
  have ha := hexValue_lt ha
  have hb := hexValue_lt hb
  have hc := hexValue_lt hc
  have hd := hexValue_lt hd
  have hcode : [a, b, c, d].foldl (fun n ch => 16 * n + Parser.hexValue ch) 0 =
      Nat.ofDigits 16 ([a, b, c, d].reverse.map Parser.hexValue) := by
    simp [Nat.ofDigits_cons]
    omega
  -- four digits stay below the first code point that is too large
  have hlt : Nat.ofDigits 16 ([a, b, c, d].reverse.map Parser.hexValue) < 65536 := by
    rw [← hcode]
    simp only [List.foldl_cons, List.foldl_nil]
    omega
  unfold Parser.charOfHex? isSurrogate
  rw [hcode, Bool.eq_iff_iff]
  simp only [hlength, true_and, Nat.isValidChar, Option.isSome_ite, Bool.not_eq_true',
    Bool.and_eq_false_iff, decide_eq_false_iff_not]
  omega

/-- Digits hide nothing that is wrong behind them. -/
theorem quotedFault?_append (hhex : ∀ digit ∈ digits, isHexDigit digit) :
    quotedFault? (digits ++ text) = quotedFault? text := by
  induction digits with
  | nil => rfl
  | cons digit digits ih =>
    obtain ⟨hdigit, hdigits⟩ := List.forall_mem_cons.1 hhex
    have hne : ∀ other, isHexDigit other = false → digit ≠ other := by
      rintro other hother rfl
      rw [hother] at hdigit
      cases hdigit
    have hbreak : isLineBreak digit = false := by
      by_contra hbreak
      rw [isHexDigit_of_isLineBreak (by simpa using hbreak)] at hdigit
      cases hdigit
    rw [List.cons_append, quotedFault?_plain (hne _ (by decide)) (hne _ (by decide)) hbreak,
      ih hdigits]

end

/-! ### Reading a quoted text -/

namespace Parser

open EStateM (Result)

variable {c : Cursor} {text rest : List Char}

/-- The error code with which a run fails. -/
def failure? {α : Type} : Result SyntaxError Cursor α → Option ErrorCode
  | .ok _ _ => none
  | .error e _ => some e.code

/-- Where a text starts with the digits of a character, they name it. -/
theorem exists_charOfHex? (h : startsCharCode text) :
    (∀ digit ∈ text.take 4, isHexDigit digit) ∧ ∃ ch, charOfHex? (text.take 4) = some ch := by
  simp only [startsCharCode, Bool.and_eq_true, decide_eq_true_eq, List.all_eq_true] at h
  obtain ⟨⟨hlength, hhex⟩, hcode⟩ := h
  rw [← charOfHex?_isSome hlength hhex] at hcode
  exact ⟨hhex, Option.isSome_iff_exists.1 hcode⟩

/-- Anywhere else an escape is refused. -/
theorem unicodeEscape_fails (hc : c.Ready) (h : startsCharCode c.here.rest = false) :
    ∃ e d, unicodeEscape c = .error e d ∧ e.code = .invalidEscape := by
  obtain ⟨d, hrun, -⟩ := takeAtMost_yields (fun _ => isHexDigit_of_isLineBreak) 4 hc
  have hnone : charOfHex? ((c.here.rest.take 4).takeWhile isHexDigit) = none := by
    by_contra hsome
    obtain ⟨ch, hch⟩ := Option.ne_none_iff_exists'.1 hsome
    have hlength := length_of_charOfHex? hch
    -- four digits are all of the four characters
    have hall : (c.here.rest.take 4).takeWhile isHexDigit = c.here.rest.take 4 :=
      (List.takeWhile_prefix _).eq_of_length_le (by
        rw [hlength]
        exact List.length_take_le 4 c.here.rest)
    rw [hall] at hlength hch
    have hhex := List.takeWhile_eq_self_iff.1 hall
    have hcode := charOfHex?_isSome hlength hhex
    rw [hch] at hcode
    have hstarts : startsCharCode c.here.rest := by
      simp only [startsCharCode, Bool.and_eq_true, decide_eq_true_eq, List.all_eq_true]
      exact ⟨⟨hlength, hhex⟩, hcode.symm⟩
    rw [hstarts] at h
    cases h
  unfold unicodeEscape
  rw [bind_ok hrun, hnone]
  exact ⟨_, d, rfl, rfl⟩

/-- At the end of the line or of the text the quote is still open. -/
theorem quotedRound_open (taken : List Char) (h : c.current = none ∨ c.current = some '\n') :
    quotedRound taken c = .error ⟨.unclosedString, [], c.offset⟩ c := by
  unfold quotedRound
  rw [current_bind]
  rcases h with h | h <;> rw [h] <;> rfl

theorem quotedRound_close (taken : List Char) (hrest : c.here.rest = '"' :: rest) :
    quotedRound taken c = .ok (.done taken.reverse) c.next := by
  unfold quotedRound
  rw [current_bind, Cursor.current_of_cons (by decide) hrest]
  rfl

theorem quotedRound_badEscape (taken : List Char) (hc : c.Ready)
    (hrest : c.here.rest = '\\' :: 'u' :: rest) (h : startsCharCode rest = false) :
    ∃ e d, quotedRound taken c = .error e d ∧ e.code = .invalidEscape := by
  have h₁ := hc.next_takes (by decide) hrest
  have hrest₁ := h₁.rest_eq hrest
  have h₂ := h₁.ready.next_takes (by decide) hrest₁
  obtain ⟨e, d, hescape, hcode⟩ := unicodeEscape_fails h₂.ready (by rwa [h₂.rest_eq hrest₁])
  have hrun : quotedRound taken c =
      (unicodeEscape >>= fun ch => pure (Round.again (ch :: taken))) c.next.next := by
    unfold quotedRound
    rw [current_bind, Cursor.current_of_cons (by decide) hrest]
    change (next >>= _) c = _
    rw [next_bind, Cursor.current_of_cons (by decide) hrest₁]
    rfl
  exact ⟨e, d, hrun.trans (bind_error hescape), hcode⟩

/-- A round over a quoted text reads a piece that is as it should be, or closes the quote, or fails
for what is wrong with the text. -/
theorem quotedRound_cases (hc : c.Ready) (taken : List Char) :
    (∃ piece rest taken', Yields (quotedRound taken) c piece (.again taken') ∧ piece ≠ [] ∧
      c.here.rest = piece ++ rest ∧ quotedFault? c.here.rest = quotedFault? rest) ∨
    (∃ value d, quotedRound taken c = .ok (.done value) d ∧ quotedFault? c.here.rest = none) ∨
    ∃ e d, quotedRound taken c = .error e d ∧ quotedFault? c.here.rest = some e.code := by
  cases hrest : c.here.rest with
  | nil =>
    have hopen := quotedRound_open taken (.inl (Cursor.current_eq_none_iff.2 hrest))
    exact .inr (.inr ⟨_, _, hopen, rfl⟩)
  | cons ch rest =>
    by_cases hbreak : isLineBreak ch
    · have hstarts : Text.StartsBreak c.here.rest := hrest ▸ Text.startsBreak_cons.2 hbreak
      have hopen := quotedRound_open taken
        (.inr (Cursor.current_eq_newline_iff.2 (Text.startsBreak_iff_isSome.1 hstarts)))
      exact .inr (.inr ⟨_, _, hopen, quotedFault?_of_break hbreak⟩)
    rw [Bool.not_eq_true] at hbreak
    by_cases hquote : ch = '"'
    · subst hquote
      exact .inr (.inl ⟨_, _, quotedRound_close taken hrest, rfl⟩)
    by_cases hslash : ch = '\\'
    · subst hslash
      -- a backslash starts a pair, or the number of a character, or stands alone
      by_cases hpair : ∃ ch more, rest = ch :: more ∧ (ch = '"' ∨ ch = '\\')
      · obtain ⟨ch, more, rfl, hch⟩ := hpair
        refine .inl ⟨_, more, _, quotedRound_pair taken hc hch hrest, by simp, rfl, ?_⟩
        rcases hch with rfl | rfl <;> rfl
      by_cases hu : ∃ more, rest = 'u' :: more
      · obtain ⟨more, rfl⟩ := hu
        have hfault : quotedFault? ('\\' :: 'u' :: more) =
          if startsCharCode more then quotedFault? more else some .invalidEscape := rfl
        cases hcode : startsCharCode more with
        | true =>
          obtain ⟨hhex, ch, hch⟩ := exists_charOfHex? hcode
          have hsplit : more.take 4 ++ more.drop 4 = more := List.take_append_drop 4 more
          have hdigits : quotedFault? more = quotedFault? (more.drop 4) := by
            conv_lhs => rw [← hsplit]
            exact quotedFault?_append hhex
          refine .inl ⟨'\\' :: 'u' :: more.take 4, more.drop 4, _,
            quotedRound_unicode taken hc hhex hch (by rw [hsplit, hrest]), by simp, by simp, ?_⟩
          rw [hfault, if_pos hcode, hdigits]
        | false =>
          obtain ⟨e, d, hrun, hinvalid⟩ := quotedRound_badEscape taken hc hrest hcode
          exact .inr (.inr ⟨e, d, hrun, by rw [hfault, hcode, hinvalid]; rfl⟩)
      · have hkept : ∀ ch ∈ rest.head?, ch ≠ '"' ∧ ch ≠ '\\' ∧ ch ≠ 'u' := by
          intro ch hch
          obtain ⟨more, rfl⟩ := List.head?_eq_some_iff.1 hch
          refine ⟨fun heq => hpair ⟨ch, more, rfl, .inl heq⟩,
            fun heq => hpair ⟨ch, more, rfl, .inr heq⟩, fun heq => hu ⟨more, by rw [heq]⟩⟩
        exact .inl ⟨['\\'], rest, _, quotedRound_slash taken hc hkept hrest, by simp, rfl,
          quotedFault?_slash hkept⟩
    · exact .inl ⟨[ch], rest, _, quotedRound_plain taken hc hquote hslash hbreak hrest, by simp,
        rfl, quotedFault?_plain hquote hslash hbreak⟩

/-- The rounds over a quoted text refuse what is wrong with it. -/
theorem quotedRounds_fault (hc : c.Ready) (taken : List Char) :
    failure? (rounds quotedRound taken c) = quotedFault? c.here.rest := by
  -- on what is left to read: a round settles the matter or leaves less of the same
  induction hn : c.here.rest.length using Nat.strongRecOn generalizing c taken with
  | ind n ih =>
    subst hn
    rcases quotedRound_cases hc taken with
      ⟨piece, rest, taken', ⟨d, hround, htakes⟩, hne, hrest, hfault⟩ |
      ⟨value, d, hround, hfault⟩ | ⟨e, d, hround, hfault⟩
    · have hlt : d.here.rest.length < c.here.rest.length := by
        rw [htakes.rest, List.length_append]
        exact Nat.lt_add_of_pos_left (List.length_pos_iff.2 hne)
      rw [rounds_again hround (htakes.remaining_lt hc hne), hfault, ← htakes.rest_eq hrest,
        ih _ hlt htakes.ready taken' rfl]
    · rw [rounds_done hround, hfault]
      rfl
    · rw [rounds_error hround, hfault]
      rfl

/-- The parser refuses what is wrong with a quoted text, and nothing else. -/
theorem quoted_fault (hc : c.Ready) (hrest : c.here.rest = '"' :: text) :
    failure? (quoted c) = quotedFault? text := by
  obtain ⟨d, hopen, htakes⟩ := Yields.expectChar hc (by decide) hrest
  have hrounds := quotedRounds_fault htakes.ready []
  rw [htakes.rest_eq hrest] at hrounds
  unfold quoted
  rw [offset_bind, bind_ok hopen, ← hrounds]
  cases hrun : rounds quotedRound [] d with
  | ok value e => rw [bind_ok hrun]; rfl
  | error e k =>
    rw [bind_error hrun]
    rfl

end Parser

/-! ### Quoted texts in a source -/

/-- Every text can be quoted, in any of the ways to write it, and is read as it was if it fits. What
stands behind an opening quote is refused for the first thing that is wrong with it, and for nothing
else. -/
theorem quoted_complete :
    (∀ value : String, ∃ body : String, Quotation value.toList body.toList) ∧
    (∀ value body : String, Quotation value.toList body.toList →
      let literal : Expression := .stringLiteral value ⟨6, 8 + byteLength body.toList⟩
      let span : Span := ⟨4, 10 + byteLength body.toList⟩
      let source := placed ("\"" ++ body ++ "\"")
      Cursor.Fits source.toList → (Resource.parse source).body =
        [.message ⟨⟨"m", ⟨0, 1⟩⟩, some ⟨[.placeable literal span], span⟩, [], none,
          ⟨0, span.stop⟩⟩]) ∧
    ∀ (c : Cursor) (text : List Char), c.Ready → c.here.rest = '"' :: text →
      Parser.failure? (Parser.quoted c) = quotedFault? text := by
  refine ⟨fun value => ?_, fun value body h => ?_, fun c text hc hrest =>
    Parser.quoted_fault hc hrest⟩
  · obtain ⟨body, h⟩ := exists_quotation value.toList
    exact ⟨String.ofList body, by rwa [String.toList_ofList]⟩
  · intro literal span source hfits
    have htext : ("\"" ++ body ++ "\"").toList = '"' :: (body.toList ++ ['"']) := by
      simp [String.toList_append]
    have hsize : byteLength ('"' :: (body.toList ++ ['"'])) = 2 + byteLength body.toList := by
      simp only [Text.byteLength_cons, Text.byteLength_append, Text.byteLength_nil,
        show Char.utf8Size '"' = 1 from rfl]
      omega
    have hliteral := @SpellsSelector.string 6 _ _ (some ' ') h.quotes
    rw [← htext] at hliteral
    have hbody := Resource.body_selector hliteral rfl
    rw [htext, hsize] at hbody
    rw [String.ofList_toList, spanOf, hsize,
      show 6 + (2 + byteLength body.toList) = 8 + byteLength body.toList by omega,
      show 8 + (2 + byteLength body.toList) = 10 + byteLength body.toList by omega] at hbody
    rw [Resource.parse, Resource.ofText_of_fits hfits]
    exact hbody

/-- A backslash, a line feed and an accented letter are read back; behind an escaped backslash an
escape for half of a surrogate pair is refused. -/
theorem quoted_complete_escapes :
    (Resource.parse (placed "\"\\\\\\u000A\\u00e9\"")).body =
      [.message ⟨⟨"m", ⟨0, 1⟩⟩,
        some ⟨[.placeable (.stringLiteral "\\\né" ⟨6, 22⟩) ⟨4, 24⟩], ⟨4, 24⟩⟩, [], none,
        ⟨0, 24⟩⟩] ∧
    Parser.failure? (Parser.quoted (.ofText "\"\\\\\\ud800\"".toList)) =
      some .invalidEscape := by
  have hwritten : Quotation "\\\né".toList "\\\\\\u000A\\u00e9".toList :=
    .pair (.inr rfl)
      (.number (by decide) (by decide : ['0', '0', '0', 'A'].map Char.toLower = _)
        (.number (by decide) (by decide : ['0', '0', 'e', '9'].map Char.toLower = _) .nil))
  have hread := quoted_complete.2.1 _ _ hwritten
  rw [show "\"" ++ "\\\\\\u000A\\u00e9" ++ "\"" = "\"\\\\\\u000A\\u00e9\"" by decide +kernel,
    show byteLength "\\\\\\u000A\\u00e9".toList = 14 by decide +kernel] at hread
  have hrefused := quoted_complete.2.2 (.ofText "\"\\\\\\ud800\"".toList) _
    (Cursor.ready_ofText _) rfl
  exact ⟨hread (by decide), hrefused.trans (by decide +kernel)⟩

end Localization
