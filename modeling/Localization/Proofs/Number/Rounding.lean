import Localization.Number.Binary64
import Mathlib.Algebra.Order.Field.Power
import Mathlib.Algebra.Order.Floor.Semifield
import Mathlib.Data.Int.Log
import Mathlib.Data.Rat.Floor
import Mathlib.Tactic.FieldSimp
import Mathlib.Tactic.Linarith
import Mathlib.Tactic.NormNum
import Mathlib.Tactic.Positivity
import Mathlib.Tactic.Ring

/-!
# Rounding to binary numbers

The number nearest to a quotient of integers is computed in whole numbers. Here it is described for
rational numbers: it depends on the quotient alone, it is off by half a unit in the last place at
most, and a rational that is itself a binary number is rounded to itself.

## Main definitions

* `roundHalfEven` — rounding a rational to an integer
* `Binary64.rat?` — the rational that a finite number is
* `Binary64.unit`, `Binary64.nearest` — rounding a rational to a binary number
* `Binary64.IsExact` — the rationals that are binary numbers

## Main statements

* `roundDiv_eq`, `Binary64.unitExponent_eq`, `Binary64.ofRatio_eq` — what is computed is what is
  described
* `Binary64.nearest_cases` — how far a number is from the rational that is rounded
* `Binary64.nearest_of_isExact` — what needs no rounding
-/

namespace Localization

/-! ### Rounding to integers -/

/-- A rational rounded to the nearest integer; a tie goes to the even one. -/
def roundHalfEven (q : ℚ) : ℕ :=
  if q - ⌊q⌋₊ < 1 / 2 ∨ (q - ⌊q⌋₊ = 1 / 2 ∧ ⌊q⌋₊ % 2 = 0) then ⌊q⌋₊ else ⌊q⌋₊ + 1

/-- Integer division with rounding rounds the quotient to the nearest integer, halves to even. -/
theorem roundDiv_eq (num : ℕ) {den : ℕ} (hden : 0 < den) :
    roundDiv num den = roundHalfEven (num / den) := by
  have hpos : (0 : ℚ) < den := by exact_mod_cast hden
  have hfloor : ⌊(num / den : ℚ)⌋₊ = num / den := Nat.floor_div_eq_div num den
  have hrest : (num / den : ℚ) - (num / den : ℕ) = (num % den : ℕ) / den := by
    rw [eq_div_iff hpos.ne', sub_mul, div_mul_cancel₀ _ hpos.ne', sub_eq_iff_eq_add]
    exact_mod_cast (Nat.mod_add_div' num den).symm
  have hlt : ((num % den : ℕ) / den : ℚ) < 1 / 2 ↔ 2 * (num % den) < den := by
    rw [div_lt_div_iff₀ hpos two_pos, one_mul, mul_comm]
    exact_mod_cast Iff.rfl
  have heq : ((num % den : ℕ) / den : ℚ) = 1 / 2 ↔ 2 * (num % den) = den := by
    rw [div_eq_div_iff hpos.ne' two_ne_zero, one_mul, mul_comm]
    exact_mod_cast Iff.rfl
  unfold roundDiv roundHalfEven
  simp only [hfloor, hrest, hlt, heq]

/-- Rounding to an integer is off by at most a half. -/
theorem abs_roundHalfEven_sub_le {q : ℚ} (hq : 0 ≤ q) : |(roundHalfEven q : ℚ) - q| ≤ 1 / 2 := by
  have hle := Nat.floor_le hq
  have hlt := Nat.lt_floor_add_one q
  unfold roundHalfEven
  rw [abs_le]
  split_ifs with h
  · rcases h with h | ⟨h, -⟩ <;> constructor <;> linarith
  · have hhalf : 1 / 2 ≤ q - ⌊q⌋₊ := not_lt.1 fun hlt => h (.inl hlt)
    push_cast
    constructor <;> linarith

/-- An integer that is nearer than one half is the nearest. -/
theorem roundHalfEven_eq {q : ℚ} (hq : 0 ≤ q) {n : ℕ} (h : |q - n| < 1 / 2) :
    roundHalfEven q = n := by
  have hround := abs_le.1 (abs_roundHalfEven_sub_le hq)
  have hnear := abs_lt.1 h
  have hlow : roundHalfEven q < n + 1 := by
    have : (roundHalfEven q : ℚ) < n + 1 := by linarith
    exact_mod_cast this
  have hhigh : n < roundHalfEven q + 1 := by
    have : (n : ℚ) < roundHalfEven q + 1 := by linarith
    exact_mod_cast this
  omega

theorem roundHalfEven_natCast (n : ℕ) : roundHalfEven n = n :=
  roundHalfEven_eq n.cast_nonneg (by simp)

/-! ### Powers of a base -/

theorem scaled_snd_pos {base : ℕ} (hbase : 0 < base) (digits : ℕ) (exponent : ℤ) :
    0 < (scaled digits base exponent).2 := Nat.pow_pos hbase

/-- A power of the base, with its digits in front, is kept as a quotient of natural numbers. -/
theorem scaled_eq (digits base : ℕ) (exponent : ℤ) :
    ((scaled digits base exponent).1 : ℚ) / (scaled digits base exponent).2 =
      digits * (base : ℚ) ^ exponent := by
  obtain ⟨n, rfl | rfl⟩ := exponent.eq_nat_or_neg
  · simp [scaled]
  · simp [scaled, div_eq_mul_inv]

namespace Binary64

theorem ratio_eq (mantissa : ℕ) (exponent : ℤ) :
    ((ratio mantissa exponent).1 : ℚ) / (ratio mantissa exponent).2 = mantissa * 2 ^ exponent :=
  scaled_eq mantissa 2 exponent

theorem ratio_snd_pos (mantissa : ℕ) (exponent : ℤ) : 0 < (ratio mantissa exponent).2 :=
  scaled_snd_pos two_pos mantissa exponent

theorem ratio_one_fst_pos (exponent : ℤ) : 0 < (ratio 1 exponent).1 := by
  simp only [ratio, scaled, one_mul]
  exact Nat.pow_pos two_pos

/-! ### The unit in the last place -/

/-- The exponent of the unit in the last place of a positive rational. -/
def unit (q : ℚ) : ℤ := max (Int.log 2 q - 52) minExponent

/-- A natural number lies between two successive powers of two. -/
theorem log2_bounds {n : ℕ} (hn : 0 < n) :
    (2 : ℚ) ^ (n.log2 : ℤ) ≤ n ∧ (n : ℚ) < 2 ^ ((n.log2 : ℤ) + 1) := by
  have hlow := Nat.log2_self_le hn.ne'
  have hhigh : n < 2 ^ (n.log2 + 1) := Nat.lt_log2_self
  constructor
  · rw [zpow_natCast]
    exact_mod_cast hlow
  · rw [show (n.log2 : ℤ) + 1 = ((n.log2 + 1 : ℕ) : ℤ) from rfl, zpow_natCast]
    exact_mod_cast hhigh

/-- The binary logarithm of a quotient is the difference of the logarithms, or one less. -/
theorem log_div {num den : ℕ} (hnum : 0 < num) (hden : 0 < den) :
    Int.log 2 (num / den : ℚ) =
      if (num / den : ℚ) < 2 ^ ((num.log2 : ℤ) - den.log2) then (num.log2 : ℤ) - den.log2 - 1
      else (num.log2 : ℤ) - den.log2 := by
  obtain ⟨hnumLow, hnumHigh⟩ := log2_bounds hnum
  obtain ⟨hdenLow, hdenHigh⟩ := log2_bounds hden
  have hpos : (0 : ℚ) < den := by exact_mod_cast hden
  have hq : (0 : ℚ) < num / den := div_pos (by exact_mod_cast hnum) hpos
  -- the quotient lies in the two binades around the difference; the comparison tells them apart
  have hlow : (2 : ℚ) ^ ((num.log2 : ℤ) - den.log2 - 1) ≤ num / den := by
    rw [le_div_iff₀ hpos]
    calc (2 : ℚ) ^ ((num.log2 : ℤ) - den.log2 - 1) * den
        ≤ 2 ^ ((num.log2 : ℤ) - den.log2 - 1) * 2 ^ ((den.log2 : ℤ) + 1) := by gcongr
      _ = 2 ^ (num.log2 : ℤ) := by
        rw [← zpow_add₀ two_ne_zero]
        congr 1
        ring
      _ ≤ num := hnumLow
  have hhigh : (num / den : ℚ) < 2 ^ ((num.log2 : ℤ) - den.log2 + 1) := by
    rw [div_lt_iff₀ hpos]
    calc (num : ℚ) < 2 ^ ((num.log2 : ℤ) + 1) := hnumHigh
      _ = 2 ^ ((num.log2 : ℤ) - den.log2 + 1) * 2 ^ (den.log2 : ℤ) := by
        rw [← zpow_add₀ two_ne_zero]
        congr 1
        ring
      _ ≤ 2 ^ ((num.log2 : ℤ) - den.log2 + 1) * den := by gcongr
  have hlog (x : ℤ) : (num / den : ℚ) < 2 ^ x ↔ Int.log 2 (num / den : ℚ) < x :=
    Int.lt_zpow_iff_log_lt one_lt_two hq
  have hlow' : (num.log2 : ℤ) - den.log2 - 1 ≤ Int.log 2 (num / den : ℚ) :=
    (Int.zpow_le_iff_le_log one_lt_two hq).1 hlow
  have hhigh' := (hlog _).1 hhigh
  split_ifs with h <;> rw [hlog] at h <;> omega

/-- The exponent that is found by counting bits is that of the unit in the last place. -/
theorem unitExponent_eq {num den : ℕ} (hnum : 0 < num) (hden : 0 < den) :
    unitExponent num den = unit (num / den) := by
  have hpos : (0 : ℚ) < den := by exact_mod_cast hden
  set high : ℤ := (num.log2 : ℤ) - den.log2 - 52 with hhigh
  have hunits : (0 : ℚ) < (ratio 1 high).2 := by exact_mod_cast ratio_snd_pos 1 high
  -- comparing with the least full mantissa is comparing with a power of two
  have hcompare : num * (ratio 1 high).2 < leastFull * (den * (ratio 1 high).1) ↔
      (num / den : ℚ) < 2 ^ ((num.log2 : ℤ) - den.log2) := by
    have hpower : (2 : ℚ) ^ ((num.log2 : ℤ) - den.log2) =
        leastFull * ((ratio 1 high).1 / (ratio 1 high).2) := by
      rw [ratio_eq, show (num.log2 : ℤ) - den.log2 = 52 + high by omega, zpow_add₀ two_ne_zero]
      norm_num [leastFull]
    rw [hpower, div_lt_iff₀ hpos, mul_div_assoc', div_mul_eq_mul_div, lt_div_iff₀ hunits]
    rw [mul_assoc, mul_comm ((ratio 1 high).1 : ℚ)]
    exact_mod_cast Iff.rfl
  unfold unitExponent unit
  rw [log_div hnum hden]
  simp only [← hhigh, hcompare]
  split_ifs <;> exact congrArg (max · minExponent) (by omega)

/-! ### Rounding to binary numbers -/

/-- The binary number nearest to a rational, with a sign of its own. -/
def nearest (negative : Bool) (q : ℚ) : Binary64 :=
  if q = 0 then .finite negative 0 minExponent
  else ofRounded negative (roundHalfEven (q / 2 ^ unit q)) (unit q)

/-- The number nearest to a quotient of integers depends on the quotient alone. -/
theorem ofRatio_eq (negative : Bool) (num : ℕ) {den : ℕ} (hden : 0 < den) :
    ofRatio negative num den = nearest negative (num / den) := by
  have hpos : (0 : ℚ) < den := by exact_mod_cast hden
  unfold ofRatio nearest
  by_cases hnum : num = 0
  · simp [hnum]
  · have hq : (num / den : ℚ) ≠ 0 := div_ne_zero (by exact_mod_cast hnum) hpos.ne'
    rw [if_neg hnum, if_neg hq]
    simp only [unitExponent_eq (Nat.pos_of_ne_zero hnum) hden]
    have hunit := ratio_one_fst_pos (unit (num / den))
    rw [roundDiv_eq _ (Nat.mul_pos hden hunit)]
    -- a quotient in units of the last place
    have hratio : ((ratio 1 (unit (num / den))).1 : ℚ) / (ratio 1 (unit (num / den))).2 =
        2 ^ unit (num / den) := by simpa using ratio_eq 1 (unit (num / den))
    rw [← hratio, div_div_div_eq]
    push_cast
    rfl

/-- A rational with a sign of its own. -/
def withSign (negative : Bool) (q : ℚ) : ℚ := if negative then -q else q

/-- The rational that a finite number is. -/
def rat? : Binary64 → Option ℚ
  | finite negative mantissa exponent => some (withSign negative (mantissa * 2 ^ exponent))
  | _ => none

/-- Signs are told apart by any number but zero. -/
theorem withSign_inj {s t : Bool} {q : ℚ} (hq : q ≠ 0) (h : withSign s q = withSign t q) :
    s = t := by
  cases s <;> cases t <;> simp_all [withSign, self_eq_neg, neg_eq_self]

theorem abs_withSign_sub (negative : Bool) (p q : ℚ) :
    |withSign negative p - withSign negative q| = |p - q| := by
  unfold withSign
  split_ifs
  · rw [neg_sub_neg, abs_sub_comm]
  · rfl

theorem two_zpow_pos (exponent : ℤ) : (0 : ℚ) < 2 ^ exponent := by positivity

/-- A mantissa that has become too large is half as large in twice the unit. -/
theorem ofRounded_cases (negative : Bool) (mantissa : ℕ) (exponent : ℤ) :
    (maxExponent ≤ exponent ∧ ofRounded negative mantissa exponent = .infinite negative) ∨
      ∃ m e, ofRounded negative mantissa exponent = .finite negative m e ∧
        (m * 2 ^ e : ℚ) = mantissa * 2 ^ exponent := by
  unfold ofRounded
  by_cases hfull : mantissa = 2 * leastFull
  · simp only [if_pos hfull]
    split_ifs with hmax
    · exact .inl ⟨by omega, rfl⟩
    · refine .inr ⟨_, _, rfl, ?_⟩
      rw [hfull, zpow_add_one₀ two_ne_zero]
      push_cast
      ring
  · simp only [if_neg hfull]
    split_ifs with hmax
    · exact .inl ⟨hmax.le, rfl⟩
    · exact .inr ⟨_, _, rfl, rfl⟩

/-- Rounding a rational number never gives a NaN. -/
theorem nearest_ne_nan (negative : Bool) (q : ℚ) : nearest negative q ≠ .nan := by
  unfold nearest
  split_ifs
  · exact nofun
  · rcases ofRounded_cases negative (roundHalfEven (q / 2 ^ unit q)) (unit q) with
      ⟨-, hround⟩ | ⟨m, e, hround, -⟩ <;> rw [hround] <;> exact nofun

/-- A mantissa of at most 53 bits is kept, with an exponent that is not too large. -/
theorem ofRounded_of_lt (negative : Bool) {mantissa : ℕ} {exponent : ℤ}
    (hmantissa : mantissa < 2 ^ 53) (hexponent : exponent ≤ maxExponent) :
    ofRounded negative mantissa exponent = .finite negative mantissa exponent := by
  have hfull : mantissa ≠ 2 * leastFull := by
    rw [leastFull]
    omega
  unfold ofRounded
  simp only [if_neg hfull]
  exact if_neg (not_lt.2 hexponent)

variable {q : ℚ}

theorem two_pow_log_le (hq : 0 < q) {x : ℤ} (hx : x ≤ Int.log 2 q) : (2 : ℚ) ^ x ≤ q :=
  (Int.zpow_le_iff_le_log one_lt_two hq).2 hx

/-- The unit in the last place is small beside the rational, unless it is the least one. -/
theorem two_zpow_unit_le (hq : 0 < q) : (2 : ℚ) ^ unit q ≤ max (q / 2 ^ 52) (2 ^ minExponent) := by
  unfold unit
  rcases le_total (Int.log 2 q - 52) minExponent with hle | hle
  · rw [max_eq_right hle]
    exact le_max_right _ _
  · rw [max_eq_left hle, zpow_sub₀ two_ne_zero]
    have hlog := two_pow_log_le hq le_rfl
    exact le_max_of_le_left (div_le_div_of_nonneg_right hlog (by positivity))

/-- How far a rational is at most from the binary number nearest to it: half a unit in the last
place. -/
def errorBound (q : ℚ) : ℚ := max (q / 2 ^ 52) (2 ^ minExponent) / 2

/-- A rational is rounded to a number that is off by half a unit in the last place at most, unless
it is out of range. -/
theorem nearest_cases (negative : Bool) (hq : 0 ≤ q) :
    ((2 : ℚ) ^ (1023 : ℤ) ≤ q ∧ nearest negative q = .infinite negative) ∨
      ∃ m e, nearest negative q = .finite negative m e ∧
        |(m * 2 ^ e : ℚ) - q| ≤ errorBound q := by
  rcases hq.eq_or_lt with rfl | hpos
  · refine .inr ⟨0, minExponent, if_pos rfl, ?_⟩
    have := two_zpow_pos minExponent
    simp only [Nat.cast_zero, zero_mul, sub_zero, abs_zero, errorBound]
    positivity
  · rw [nearest, if_neg hpos.ne']
    rcases ofRounded_cases negative (roundHalfEven (q / 2 ^ unit q)) (unit q) with
      ⟨hmax, hinfinite⟩ | ⟨m, e, hfinite, hvalue⟩
    · refine .inl ⟨two_pow_log_le hpos ?_, hinfinite⟩
      simp only [unit, maxExponent, minExponent] at hmax
      omega
    · refine .inr ⟨m, e, hfinite, ?_⟩
      have hunit := two_zpow_pos (unit q)
      have hround := abs_roundHalfEven_sub_le (div_nonneg hq hunit.le)
      -- in units of the last place the error is that of rounding to an integer
      have herror : (roundHalfEven (q / 2 ^ unit q) * 2 ^ unit q : ℚ) - q =
          (roundHalfEven (q / 2 ^ unit q) - q / 2 ^ unit q) * 2 ^ unit q := by
        field_simp
      rw [hvalue, herror, abs_mul, abs_of_pos hunit]
      calc _ ≤ 1 / 2 * (2 : ℚ) ^ unit q := by gcongr
        _ ≤ errorBound q := by
          rw [errorBound]
          linarith [two_zpow_unit_le hpos]

/-- What is less than `2 ^ 52` is far from being out of range. -/
theorem two_pow_le_range : (2 : ℚ) ^ 52 ≤ 2 ^ (1023 : ℤ) := by
  rw [← zpow_natCast]
  exact zpow_le_zpow_right₀ one_le_two (by decide)

/-- The rationals that are binary numbers. -/
def IsExact (q : ℚ) : Prop :=
  ∃ m < 2 ^ 53, ∃ e, minExponent ≤ e ∧ e ≤ maxExponent ∧ |q| = (m : ℕ) * 2 ^ (e : ℤ)

/-- Integers of at most 53 bits are doubles. -/
theorem isExact_intCast {i : ℤ} (h : |i| ≤ 2 ^ 53) : IsExact i := by
  rcases h.lt_or_eq with hlt | heq
  · rw [Int.abs_eq_natAbs] at hlt
    refine ⟨i.natAbs, by exact_mod_cast hlt, 0, by decide, by decide, ?_⟩
    rw [zpow_zero, mul_one, Nat.cast_natAbs]
    push_cast
    rfl
  · refine ⟨2 ^ 52, by decide, 1, by decide, by decide, ?_⟩
    rw [← Int.cast_abs, heq]
    norm_num

/-- A rational that is a binary number is rounded to itself. -/
theorem nearest_of_isExact (negative : Bool) (hq : 0 ≤ q) (h : IsExact q) :
    ∃ m e, nearest negative q = .finite negative m e ∧ (m * 2 ^ e : ℚ) = q := by
  obtain ⟨m, hm, e, hmin, hmax, hvalue⟩ := h
  rw [abs_of_nonneg hq] at hvalue
  rcases hq.eq_or_lt with rfl | hpos
  · exact ⟨0, minExponent, if_pos rfl, by simp⟩
  · -- the unit in the last place is not above the one that the rational is given in
    have hunit : unit q ≤ e := by
      have hlt : q < 2 ^ (53 + e) := by
        rw [hvalue, zpow_add₀ two_ne_zero]
        have : (m : ℚ) < 2 ^ (53 : ℤ) := by exact_mod_cast hm
        exact mul_lt_mul_of_pos_right this (two_zpow_pos e)
      have hlog := (Int.lt_zpow_iff_log_lt one_lt_two hpos).1 hlt
      exact max_le (by omega) hmin
    obtain ⟨n, hn⟩ := Int.le.dest hunit
    have hscaled : q = ((m * 2 ^ n : ℕ) : ℚ) * 2 ^ unit q := by
      rw [← hn, zpow_add₀ two_ne_zero, zpow_natCast] at hvalue
      push_cast
      linarith
    -- so it is a multiple of that unit, with a mantissa that is not too large
    have hmantissa : m * 2 ^ n < 2 ^ 53 := by
      have hlog : Int.log 2 q < 53 + unit q := by
        have := le_max_left (Int.log 2 q - 52) minExponent
        simp only [unit]
        omega
      have hlt : q < (2 : ℚ) ^ (53 + unit q) := (Int.lt_zpow_iff_log_lt one_lt_two hpos).2 hlog
      rw [zpow_add₀ two_ne_zero] at hlt
      have hlt' := lt_of_mul_lt_mul_right (hscaled.symm.trans_lt hlt) (two_zpow_pos _).le
      exact_mod_cast hlt'
    refine ⟨m * 2 ^ n, unit q, ?_, hscaled.symm⟩
    have hquotient : q / 2 ^ unit q = ((m * 2 ^ n : ℕ) : ℚ) := by
      rw [div_eq_iff (two_zpow_pos _).ne']
      exact hscaled
    rw [nearest, if_neg hpos.ne', hquotient, roundHalfEven_natCast,
      ofRounded_of_lt _ hmantissa (hunit.trans hmax)]

/-! ### Errors on a decimal grid -/

/-- The least unit in the last place is small on every decimal grid that is not finer than
`10 ^ -323`. -/
theorem ten_pow_mul_minUnit_le {places : ℕ} (hplaces : places ≤ 323) :
    (10 : ℚ) ^ places * 2 ^ minExponent ≤ 1 / 2 := by
  have hgrid : (10 : ℚ) ^ places ≤ 2 ^ (1073 : ℤ) := by
    calc (10 : ℚ) ^ places ≤ 10 ^ (19 * 17) := pow_le_pow_right₀ (by norm_num) hplaces
      _ = (10 ^ 19) ^ 17 := pow_mul 10 19 17
      _ ≤ (2 ^ 29) ^ 37 := by norm_num
      _ = 2 ^ (1073 : ℤ) := by
        rw [← pow_mul]
        exact (zpow_natCast 2 1073).symm
  calc (10 : ℚ) ^ places * 2 ^ minExponent ≤ 2 ^ (1073 : ℤ) * 2 ^ minExponent := by gcongr
    _ = 1 / 2 := by
      rw [← zpow_add₀ two_ne_zero, minExponent]
      norm_num

/-- How far the number nearest to a rational is from it, counted on a decimal grid. -/
theorem ten_pow_mul_error_le {places : ℕ} (hplaces : places ≤ 323) (q : ℚ) :
    (10 : ℚ) ^ places * errorBound q ≤ max (10 ^ places * q / 2 ^ 53) (1 / 4) := by
  unfold errorBound
  have hleast := ten_pow_mul_minUnit_le hplaces
  rcases max_cases (q / 2 ^ 52) ((2 : ℚ) ^ minExponent) with ⟨hmax, -⟩ | ⟨hmax, -⟩ <;> rw [hmax]
  · refine le_max_of_le_left (le_of_eq ?_)
    ring
  · exact le_max_of_le_right (by linarith)

/-! ### Equal values -/

/-- Doubles that compare equal have the same rational value. -/
theorem rat?_eq_of_sameValue {x y : Binary64} (h : x.sameValue y) : x.rat? = y.rat? := by
  cases x <;> cases y <;> simp only [sameValue, Bool.false_eq_true] at h
  · rfl
  · simp only [Bool.or_eq_true, Bool.and_eq_true, decide_eq_true_eq] at h
    rcases h with ⟨rfl, rfl⟩ | ⟨⟨rfl, rfl⟩, rfl⟩
    · simp [rat?, withSign]
    · rfl

theorem sameValue_self {x : Binary64} (h : x ≠ nan) : x.sameValue x := by
  cases x <;> simp_all [sameValue]

end Binary64

end Localization
