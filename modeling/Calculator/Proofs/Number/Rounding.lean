import Calculator.Number.Numeral
import Calculator.Proofs.Number.Pattern
import Mathlib.Data.Rat.Defs
import Mathlib.Algebra.Order.Field.Basic
import Mathlib.Tactic.Linarith
import Mathlib.Tactic.Positivity
import Mathlib.Tactic.Ring
import Mathlib.Tactic.FieldSimp
/-!
# Decimals stand for the nearest double

`value` is the number that core's model gives to a finite double, and `IsNearest` says that none is nearer to
a number, with ties going to the even pattern. The proof counts in units of 2⁻¹⁰⁷⁴, where every
finite double is a whole number. A decimal is rounded to a multiple of a power of two; every double at
least as large as the smallest with 53 binary digits above that power is such a multiple, and the smaller ones
are further away.

Main statements: `isNearest_toFloat`, and `isFinite_toFloat_iff` for the decimals too large for a finite double.
-/

namespace Calculator.Binary64

open Number

/-! ## Units -/

theorem significand_lt (code : Nat) : significand code < 2 ^ 53 := by
  unfold significand
  split <;> omega

/-- Doubles from 53 binary digits above a power of two on are multiples of it. -/
theorem dvd_units {code shift : Nat} (h : 2 ^ (52 + shift) ≤ units code) : 2 ^ shift ∣ units code := by
  rw [units_eq] at h ⊢
  have hlt : significand code * 2 ^ stepExponent code < 2 ^ (53 + stepExponent code) := by
    rw [pow_add]
    exact Nat.mul_lt_mul_of_pos_right (significand_lt code) (by positivity)
  have hexp : 52 + shift < 53 + stepExponent code := (Nat.pow_lt_pow_iff_right (by decide)).1 (h.trans_lt hlt)
  exact Dvd.dvd.mul_left (pow_dvd_pow 2 (by omega)) _

/-- A count of steps and where the steps of its size begin make up a pattern. -/
theorem units_shift {shift m : Nat} (hm : m ≤ 2 ^ 53) (h : shift = 0 ∨ 2 ^ 52 ≤ m) :
    units (shift * 2 ^ 52 + m) = m * 2 ^ shift := by
  rcases Nat.lt_or_ge m (2 ^ 53) with hlt | hge
  · unfold units stepExponent
    by_cases hsmall : shift * 2 ^ 52 + m < 2 ^ 52
    · obtain rfl : shift = 0 := by omega
      rw [if_pos hsmall]
      omega
    · have hmod : 2 ^ 52 + (shift * 2 ^ 52 + m) % 2 ^ 52 = m := by omega
      have hdiv : (shift * 2 ^ 52 + m) / 2 ^ 52 - 1 = shift := by omega
      rw [if_neg hsmall, hmod, hdiv]
  -- one more step is the first of the next size
  · obtain rfl : m = 2 ^ 53 := by omega
    have hmod : (shift * 2 ^ 52 + 2 ^ 53) % 2 ^ 52 = 0 := by omega
    have hdiv : (shift * 2 ^ 52 + 2 ^ 53) / 2 ^ 52 - 1 = shift + 1 := by omega
    unfold units stepExponent
    rw [if_neg (by omega), hmod, hdiv, Nat.add_zero, pow_succ]
    omega

end Calculator.Binary64

namespace Calculator

/-! ## Rounding a quotient -/

/-- A rounded quotient is within a half of it, and even if it is a half away. -/
theorem roundDiv_spec (num : Nat) {den : Nat} (hden : 0 < den) :
    2 * num ≤ (2 * roundDiv num den + 1) * den ∧ 2 * roundDiv num den * den ≤ 2 * num + den ∧
      ((2 * num = (2 * roundDiv num den + 1) * den ∨ 2 * roundDiv num den * den = 2 * num + den) →
        roundDiv num den % 2 = 0) := by
  have hdiv := Nat.div_add_mod num den
  have hmod := Nat.mod_lt num hden
  unfold roundDiv
  generalize num / den = q at *
  generalize num % den = r at *
  have hq : (2 * q + 1) * den = 2 * (den * q) + den := by ring
  have hq' : 2 * q * den = 2 * (den * q) := by ring
  have hq1 : (2 * (q + 1) + 1) * den = 2 * (den * q) + 3 * den := by ring
  have hq1' : 2 * (q + 1) * den = 2 * (den * q) + 2 * den := by ring
  simp only
  split
  · rw [hq, hq']
    omega
  · split
    · rw [hq1, hq1']
      omega
    · rcases Nat.mod_two_eq_zero_or_one q with h | h
      · simp only [h, Nat.add_zero]
        rw [hq, hq']
        exact ⟨by omega, by omega, fun _ => trivial⟩
      · rw [h, hq1, hq1']
        exact ⟨by omega, by omega, fun _ => by omega⟩

theorem abs_roundDiv_sub (num : Nat) {den : Nat} (hden : 0 < den) :
    |(roundDiv num den : ℚ) - num / den| ≤ 1 / 2 ∧
      (|(roundDiv num den : ℚ) - num / den| = 1 / 2 → roundDiv num den % 2 = 0) := by
  obtain ⟨hlow, hhigh, heven⟩ := roundDiv_spec num hden
  generalize roundDiv num den = m at *
  have hd : (0 : ℚ) < den := by exact_mod_cast hden
  have hlow' : (num : ℚ) / den ≤ m + 1 / 2 := by
    rw [div_le_iff₀ hd]
    have : (2 * num : ℚ) ≤ (2 * m + 1) * den := by exact_mod_cast hlow
    linarith
  have hhigh' : m - 1 / 2 ≤ (num : ℚ) / den := by
    rw [le_div_iff₀ hd]
    have : (2 * m * den : ℚ) ≤ 2 * num + den := by exact_mod_cast hhigh
    linarith
  refine ⟨abs_le.2 ⟨by linarith, by linarith⟩, ?_⟩
  intro heq
  apply heven
  have hcancel := div_mul_cancel₀ (num : ℚ) hd.ne'
  rcases (abs_eq (by norm_num)).1 heq with h | h
  · right
    have hv : (num : ℚ) / den = m - 1 / 2 := by linarith
    have : (2 * m * den : ℚ) = 2 * num + den := by
      rw [hv] at hcancel
      linarith
    exact_mod_cast this
  · left
    have hv : (num : ℚ) / den = m + 1 / 2 := by linarith
    have : (2 * num : ℚ) = (2 * m + 1) * den := by
      rw [hv] at hcancel
      linarith
    exact_mod_cast this

/-- No whole number is nearer to a quotient than the rounded one, and if another is as near, the
rounded one is even. -/
theorem roundDiv_nearest (num : Nat) {den : Nat} (hden : 0 < den) (n : Nat) :
    |(roundDiv num den : ℚ) - num / den| ≤ |(n : ℚ) - num / den| ∧
      (n ≠ roundDiv num den → |(n : ℚ) - num / den| = |(roundDiv num den : ℚ) - num / den| →
        roundDiv num den % 2 = 0) := by
  obtain ⟨hle, heven⟩ := abs_roundDiv_sub num hden
  generalize roundDiv num den = m at *
  generalize (num : ℚ) / den = v at *
  by_cases hnm : n = m
  · subst hnm
    exact ⟨le_refl _, fun h => absurd rfl h⟩
  · have hone : (1 : ℚ) ≤ |(n : ℚ) - m| := by
      have : (1 : ℤ) ≤ |(n : ℤ) - m| := Int.one_le_abs (by omega)
      exact_mod_cast this
    have htri : |(n : ℚ) - m| ≤ |(n : ℚ) - v| + |(m : ℚ) - v| := by
      rw [abs_sub_comm (m : ℚ) v]
      exact abs_sub_le _ _ _
    exact ⟨by linarith, fun _ heq => heven (by linarith)⟩

/-! ## The nearest pattern -/

namespace Binary64

open Number

/-- How many binary digits beyond 53 the whole part of a quotient has. -/
def excess (num den : Nat) : Nat := (num / den).log2 - 52

/-- A quotient as a count of steps of the size that leaves it 53 binary digits. -/
def steps (num den : Nat) : Nat := roundDiv num (den * 2 ^ excess num den)

/-- The pattern of the double nearest to a quotient, counted in units, if doubles went on for ever. -/
def roundedCode (num den : Nat) : Nat := excess num den * 2 ^ 52 + steps num den

variable (num : Nat) {den : Nat}

theorem lt_two_pow_excess (hden : 0 < den) : num < 2 ^ 53 * (den * 2 ^ excess num den) := by
  have hfloor : num / den < 2 ^ (53 + excess num den) := by
    refine Nat.lt_log2_self.trans_le (Nat.pow_le_pow_right (by decide) ?_)
    unfold excess
    omega
  rw [Nat.div_lt_iff_lt_mul hden] at hfloor
  calc num < 2 ^ (53 + excess num den) * den := hfloor
    _ = 2 ^ 53 * (den * 2 ^ excess num den) := by rw [pow_add]; ring

theorem two_pow_excess_le (hden : 0 < den) (h : excess num den ≠ 0) : 2 ^ 52 * (den * 2 ^ excess num den) ≤ num := by
  have hne : num / den ≠ 0 := by
    intro hzero
    unfold excess at h
    rw [hzero] at h
    simp at h
  have hfloor : 2 ^ (52 + excess num den) ≤ num / den := by
    refine (Nat.pow_le_pow_right (by decide) ?_).trans (Nat.log2_self_le hne)
    unfold excess at h ⊢
    omega
  rw [Nat.le_div_iff_mul_le hden] at hfloor
  calc 2 ^ 52 * (den * 2 ^ excess num den) = 2 ^ (52 + excess num den) * den := by rw [pow_add]; ring
    _ ≤ num := hfloor

theorem steps_le (hden : 0 < den) : steps num den ≤ 2 ^ 53 := by
  have hpos : 0 < den * 2 ^ excess num den := by positivity
  have hlt := lt_two_pow_excess num hden
  obtain ⟨-, hhigh, -⟩ := roundDiv_spec num hpos
  unfold steps
  generalize den * 2 ^ excess num den = d at *
  by_contra hm
  have : (2 * (2 ^ 53 + 1)) * d ≤ 2 * roundDiv num d * d := Nat.mul_le_mul_right d (by omega)
  omega

theorem le_steps (hden : 0 < den) : excess num den = 0 ∨ 2 ^ 52 ≤ steps num den := by
  by_cases h : excess num den = 0
  · exact .inl h
  · right
    have hpos : 0 < den * 2 ^ excess num den := by positivity
    have hle := two_pow_excess_le num hden h
    obtain ⟨hlow, -, -⟩ := roundDiv_spec num hpos
    unfold steps
    generalize den * 2 ^ excess num den = d at *
    by_contra hm
    have : (2 * roundDiv num d + 1) * d ≤ (2 * 2 ^ 52 - 1) * d := Nat.mul_le_mul_right d (by omega)
    omega

theorem units_roundedCode (hden : 0 < den) : units (roundedCode num den) = steps num den * 2 ^ excess num den :=
  units_shift (steps_le num hden) (le_steps num hden)

theorem roundedCode_mod_two : roundedCode num den % 2 = steps num den % 2 := by
  unfold roundedCode
  omega

/-- Distances in units are distances in steps, of the steps' size. -/
theorem abs_mul_sub (hden : 0 < den) (n : Nat) :
    |((n * 2 ^ excess num den : Nat) : ℚ) - num / den| =
      |(n : ℚ) - num / (den * 2 ^ excess num den : Nat)| * 2 ^ excess num den := by
  have hd : (den : ℚ) ≠ 0 := by exact_mod_cast hden.ne'
  have hp : (0 : ℚ) < 2 ^ excess num den := by positivity
  have habs : |(2 : ℚ) ^ excess num den| = 2 ^ excess num den := abs_of_pos hp
  conv_rhs => rw [← habs]
  rw [← abs_mul]
  congr 1
  push_cast
  field_simp

/-- A double that is no multiple of the steps is further away than one step is: it lies below the smallest with
53 digits, which is a multiple, and so does not come between that and the quotient. -/
theorem lt_abs_sub_of_not_dvd (hden : 0 < den) {code : Nat} (h : ¬ 2 ^ excess num den ∣ units code) :
    |((2 ^ 52 * 2 ^ excess num den : Nat) : ℚ) - num / den| < |(units code : ℚ) - num / den| := by
  have hsmall : units code < 2 ^ (52 + excess num den) := by
    by_contra hge
    exact h (dvd_units (Nat.le_of_not_lt hge))
  have hexcess : excess num den ≠ 0 := by
    intro hzero
    rw [hzero] at h
    simp at h
  have hbelow : ((2 ^ 52 * 2 ^ excess num den : Nat) : ℚ) ≤ num / den := by
    rw [le_div_iff₀ (by exact_mod_cast hden)]
    have hle := two_pow_excess_le num hden hexcess
    rw [Nat.mul_comm den, ← Nat.mul_assoc] at hle
    exact_mod_cast hle
  have hcode : (units code : ℚ) < ((2 ^ 52 * 2 ^ excess num den : Nat) : ℚ) := by
    rw [← pow_add]
    exact_mod_cast hsmall
  generalize ((2 ^ 52 * 2 ^ excess num den : Nat) : ℚ) = b at *
  rw [abs_of_nonpos (by linarith), abs_of_nonpos (by linarith)]
  linarith

/-- No double is nearer to a quotient than the rounded one, and if another is as near, the pattern is even. -/
theorem roundedCode_nearest (hden : 0 < den) (code : Nat) :
    |(units (roundedCode num den) : ℚ) - num / den| ≤ |(units code : ℚ) - num / den| ∧
      (units code ≠ units (roundedCode num den) →
        |(units code : ℚ) - num / den| = |(units (roundedCode num den) : ℚ) - num / den| →
        roundedCode num den % 2 = 0) := by
  have hpos : 0 < den * 2 ^ excess num den := by positivity
  have hp : (0 : ℚ) < 2 ^ excess num den := by positivity
  rw [roundedCode_mod_two, units_roundedCode num hden, abs_mul_sub num hden]
  by_cases hdvd : 2 ^ excess num den ∣ units code
  · obtain ⟨n, hn⟩ := hdvd
    obtain ⟨hle, heven⟩ := roundDiv_nearest num hpos n
    rw [hn, Nat.mul_comm _ n, abs_mul_sub num hden]
    refine ⟨mul_le_mul_of_nonneg_right hle hp.le, ?_⟩
    intro hne heq
    refine heven ?_ (mul_right_cancel₀ hp.ne' heq)
    rintro rfl
    exact hne rfl
  · have hlt := lt_abs_sub_of_not_dvd num hden hdvd
    have hle := mul_le_mul_of_nonneg_right (roundDiv_nearest num hpos (2 ^ 52)).1 hp.le
    rw [← abs_mul_sub num hden (2 ^ 52)] at hle
    refine ⟨(hle.trans_lt hlt).le, ?_⟩
    intro _ heq
    exact absurd heq (hle.trans_lt hlt).ne'

/-! ## Finite or not -/

/-- At the size of the steps below infinity, the rounding decides: the middle itself would go to the even side,
which is the next step above. -/
theorem roundDiv_lt_two_pow_iff {half : Nat} (hpos : 0 < half) :
    roundDiv num (2 * half) < 2 ^ 53 ↔ num < (2 ^ 54 - 1) * half := by
  obtain ⟨hlow, hhigh, heven⟩ := roundDiv_spec num (Nat.mul_pos Nat.two_pos hpos)
  generalize roundDiv num (2 * half) = m at *
  constructor
  · intro hm
    by_contra hge
    by_cases hlast : m = 2 ^ 53 - 1
    · subst hlast
      have := heven (.inl (by omega))
      omega
    · have : (2 * m + 1) * (2 * half) ≤ (2 * (2 ^ 53 - 2) + 1) * (2 * half) := Nat.mul_le_mul_right _ (by omega)
      omega
  · intro hnum
    by_contra hm
    have : 2 * 2 ^ 53 * (2 * half) ≤ 2 * m * (2 * half) := Nat.mul_le_mul_right _ (by omega)
    omega

/-- A quotient rounds to a finite double if it is below the middle between the largest one and the next
step above it. -/
theorem roundedCode_lt_iff (hden : 0 < den) :
    roundedCode num den < infinityCode ↔ num < (2 ^ 54 - 1) * (den * 2 ^ 2044) := by
  have hsteps := steps_le num hden
  have hpos : 0 < den * 2 ^ 2044 := Nat.mul_pos hden (pow_pos Nat.two_pos 2044)
  have hstep {m n : Nat} (h : m ≤ n) : den * 2 ^ m ≤ den * 2 ^ n :=
    Nat.mul_le_mul_left den (Nat.pow_le_pow_right Nat.two_pos h)
  have hfour (k : Nat) : 4 * (den * 2 ^ k) = den * 2 ^ (k + 2) := by ring
  rcases Nat.lt_trichotomy (excess num den) 2045 with h | h | h
  · refine iff_of_true (by unfold roundedCode infinityCode; omega) ?_
    have hlt := lt_two_pow_excess num hden
    have hle := @hstep (excess num den) 2044 (by omega)
    omega
  · have hhalf : den * 2 ^ 2045 = 2 * (den * 2 ^ 2044) := by rw [pow_succ 2 2044, ← Nat.mul_assoc, Nat.mul_comm]
    rw [← roundDiv_lt_two_pow_iff num hpos, ← hhalf]
    unfold roundedCode infinityCode steps
    rw [h]
    omega
  · have hge := two_pow_excess_le num hden (by omega)
    have hle := (hfour 2044).trans_le (@hstep (2044 + 2) (excess num den) (by omega))
    have hlarge := (le_steps num hden).resolve_left (by omega)
    refine iff_of_false ?_ (by omega)
    unfold roundedCode infinityCode
    omega

end Binary64

namespace Numeral

theorem finiteBound_eq : finiteBound = (2 ^ 54 - 1) * 2 ^ 970 := by
  rw [finiteBound, Nat.sub_mul, ← pow_add, one_mul]

theorem finiteBound_pos : 0 < finiteBound := by
  rw [finiteBound_eq]
  exact Nat.mul_pos (by decide) (pow_pos Nat.two_pos 970)

end Numeral

/-! ## Decimals -/

namespace Decimal

open Binary64 Number

/-- The number a decimal stands for. -/
def value (d : Decimal) : ℚ := d.coefficient / 10 ^ d.places

theorem nearestCode_eq (d : Decimal) :
    d.nearestCode = min infinityCode (roundedCode (d.coefficient * 2 ^ 1074) (10 ^ d.places)) := rfl

theorem nearestCode_lt_iff (d : Decimal) :
    d.nearestCode < infinityCode ↔ d.coefficient < Numeral.finiteBound * 10 ^ d.places := by
  have hsplit (a b m n : Nat) : a * (b * 2 ^ (m + n)) = a * 2 ^ m * b * 2 ^ n := by ring
  have hunit := hsplit (2 ^ 54 - 1) (10 ^ d.places) 970 1074
  rw [← Numeral.finiteBound_eq] at hunit
  rw [nearestCode_eq, min_lt_iff, or_iff_right (Nat.lt_irrefl _), roundedCode_lt_iff _ (by positivity), hunit,
    Nat.mul_lt_mul_right (Nat.two_pow_pos _)]

theorem toNat_toBits_toFloat (d : Decimal) : d.toFloat.toBits.toNat = d.nearestCode := by
  have hle : d.nearestCode ≤ infinityCode := Nat.min_le_left ..
  have hlt : d.nearestCode < signCode := hle.trans_lt (by decide)
  have hnat : d.nearestCode.toUInt64.toNat = d.nearestCode :=
    UInt64.toNat_ofNat_of_lt' (hlt.trans (by decide))
  unfold toFloat
  rw [toBits_ofBits (by rw [hnat, Nat.mod_eq_of_lt hlt]; exact hle), hnat]

theorem magnitude_toFloat (d : Decimal) : magnitude d.toFloat = d.nearestCode := by
  have hle : d.nearestCode ≤ infinityCode := Nat.min_le_left ..
  rw [magnitude, toNat_toBits_toFloat, Nat.mod_eq_of_lt (hle.trans_lt (by decide))]

theorem isNegative_toFloat (d : Decimal) : isNegative d.toFloat = false := by
  have hle : d.nearestCode ≤ infinityCode := Nat.min_le_left ..
  rw [isNegative, toNat_toBits_toFloat, decide_eq_false_iff_not, Nat.not_le]
  exact hle.trans_lt (by decide)

/-- A decimal stands for a finite double exactly if it is below the bound. -/
theorem isFinite_toFloat_iff (d : Decimal) :
    d.toFloat.isFinite = true ↔ d.coefficient < Numeral.finiteBound * 10 ^ d.places := by
  rw [isFinite_iff, magnitude_toFloat, nearestCode_lt_iff]

end Decimal

/-! ## The nearest double -/

namespace Binary64

open Float.Model Float.Model.UnpackedFloat Number

/-- The number that core's model gives to a finite double. -/
def value (x : Float) : ℚ :=
  match x.toModel.unpack with
  | .finite sign m e _ => (sign.apply m : ℤ) * (2 : ℚ) ^ e
  | _ => 0

/-- A double in units, with its sign. -/
def signedUnits (x : Float) : ℚ := (if isNegative x then -1 else 1) * units (magnitude x)

theorem value_eq {x : Float} (h : x.isFinite = true) : value x = signedUnits x / 2 ^ 1074 := by
  rw [isFinite_iff] at h
  unfold value signedUnits
  rw [unpack_toModel]
  obtain h0 | ⟨h0, -⟩ | hinf | hnan := code_cases (magnitude x)
  · rw [h0, parts_zero]
    simp [units]
  · have hpow : (2 : ℚ) ^ ((stepExponent (magnitude x) : ℤ) - 1074) = 2 ^ stepExponent (magnitude x) / 2 ^ 1074 := by
      rw [zpow_sub₀ (by norm_num), zpow_natCast, zpow_ofNat]
    rw [parts_finite h0 h, units_eq, Nat.cast_mul, Nat.cast_pow, mul_div_assoc, mul_div_assoc]
    simp only [hpow]
    cases isNegative x <;> simp [Sign.apply]
  · omega
  · omega

theorem abs_value_sub {x : Float} (h : x.isFinite = true) (q : ℚ) :
    |value x - q| = |signedUnits x - q * 2 ^ 1074| / 2 ^ 1074 := by
  have hunit : (0 : ℚ) < 2 ^ 1074 := by positivity
  have hvalue := value_eq h
  generalize (2 : ℚ) ^ 1074 = unit at *
  rw [hvalue, ← abs_of_pos hunit, ← abs_div, abs_of_pos hunit, sub_div, mul_div_cancel_right₀ _ hunit.ne']

/-- A finite double than which no other is nearer to a number; if another one is as near, its pattern is even. -/
structure IsNearest (q : ℚ) (x : Float) : Prop where
  finite : x.isFinite = true
  nearest (y : Float) : y.isFinite = true → |value x - q| ≤ |value y - q|
  even (y : Float) : y.isFinite = true → value y ≠ value x → |value y - q| = |value x - q| →
    x.toBits.toNat % 2 = 0

/-- Turning the sign of a whole number of units round brings it no nearer to what has none. -/
theorem abs_sub_le_signed {u v : ℚ} (hu : 0 ≤ u) (hv : 0 ≤ v) (negative : Bool) :
    |u - v| ≤ |(if negative then -1 else 1) * u - v| ∧
      (|u - v| = |(if negative then -1 else 1) * u - v| → negative = false ∨ u = 0 ∨ v = 0) := by
  cases negative
  · simp
  · have hsum : -1 * u - v = -(u + v) := by ring
    have hneg : |(if true then -1 else 1) * u - v| = u + v := by
      rw [if_pos rfl, hsum, abs_neg, abs_of_nonneg (by linarith)]
    rw [hneg]
    constructor
    · exact abs_le.2 ⟨by linarith, by linarith⟩
    · intro heq
      right
      rcases abs_choice (u - v) with h | h
      · exact .inr (by linarith)
      · exact .inl (by linarith)

/-- Another number as near is as near without its sign. -/
theorem abs_sub_eq_of_signed {u u' v : ℚ} (hu' : 0 ≤ u') (hv : 0 ≤ v) {negative : Bool}
    (hle : |u - v| ≤ |u' - v|) (hzero : |u - v| ≤ |0 - v|) (hne : (if negative then -1 else 1) * u' ≠ u)
    (heq : |(if negative then -1 else 1) * u' - v| = |u - v|) : u' ≠ u ∧ |u' - v| = |u - v| := by
  obtain ⟨hsigned, hsame⟩ := abs_sub_le_signed hu' hv negative
  have heq' : |u' - v| = |u - v| := le_antisymm (hsigned.trans_eq heq) hle
  refine ⟨?_, heq'⟩
  rintro rfl
  -- the two differ in the sign alone, so one of the distances is to zero
  rcases hsame heq.symm with hpos | rfl | rfl
  · rw [hpos] at hne
    simp at hne
  · simp at hne
  · obtain rfl : u' = 0 := by simpa using hzero
    simp at hne

/-- It is enough to compare a double with those without a sign, in units. -/
theorem isNearest_of_units {q : ℚ} {x : Float} (hfinite : x.isFinite = true) (hsign : isNegative x = false)
    (hq : 0 ≤ q) (hnear : ∀ code,
      |(units (magnitude x) : ℚ) - q * 2 ^ 1074| ≤ |(units code : ℚ) - q * 2 ^ 1074| ∧
        (units code ≠ units (magnitude x) →
          |(units code : ℚ) - q * 2 ^ 1074| = |(units (magnitude x) : ℚ) - q * 2 ^ 1074| →
          magnitude x % 2 = 0)) : IsNearest q x := by
  have hunit : (0 : ℚ) < 2 ^ 1074 := by positivity
  have hv : 0 ≤ q * 2 ^ 1074 := by positivity
  have hx : signedUnits x = units (magnitude x) := by rw [signedUnits, hsign]; simp
  have hvalue := @value_eq
  have habs := @abs_value_sub
  generalize (2 : ℚ) ^ 1074 = unit at *
  constructor
  · exact hfinite
  · intro y hy
    rw [habs hfinite, habs hy, hx]
    refine div_le_div_of_nonneg_right ((hnear (magnitude y)).1.trans ?_) hunit.le
    exact (abs_sub_le_signed (by positivity) hv _).1
  · intro y hy hne heq
    rw [habs hfinite, habs hy, hx, div_left_inj' hunit.ne'] at heq
    rw [hvalue hfinite, hvalue hy, hx, Ne, div_left_inj' hunit.ne'] at hne
    have hzero := (hnear 0).1
    obtain ⟨hunits, heq'⟩ := abs_sub_eq_of_signed (by positivity) hv (hnear (magnitude y)).1
      (by simpa [units] using hzero) hne heq
    have hbits : x.toBits.toNat = magnitude x := by rw [toNat_toBits, hsign]; simp
    rw [hbits]
    exact (hnear (magnitude y)).2 (by exact_mod_cast hunits) heq'

end Binary64

open Binary64 Number

namespace Decimal

theorem value_mul (d : Decimal) (unit : Nat) :
    ((d.coefficient * unit : Nat) : ℚ) / (10 ^ d.places : Nat) = d.value * unit := by
  unfold Decimal.value
  push_cast
  ring

theorem isNearest_toFloat {d : Decimal} (h : d.coefficient < Numeral.finiteBound * 10 ^ d.places) :
    Binary64.IsNearest d.value d.toFloat := by
  have hcode : magnitude d.toFloat = roundedCode (d.coefficient * 2 ^ 1074) (10 ^ d.places) := by
    have hlt := (nearestCode_lt_iff d).2 h
    rw [magnitude_toFloat]
    rw [nearestCode_eq] at hlt ⊢
    omega
  refine isNearest_of_units ((isFinite_toFloat_iff d).2 h) (isNegative_toFloat d) (by unfold Decimal.value; positivity) ?_
  have hunit : ((2 ^ 1074 : Nat) : ℚ) = 2 ^ 1074 := by rw [Nat.cast_pow, Nat.cast_ofNat]
  rw [hcode, ← hunit, ← value_mul]
  exact roundedCode_nearest _ (by positivity)

end Decimal

end Calculator
