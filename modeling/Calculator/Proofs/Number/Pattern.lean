import Calculator.Number.Text
import Mathlib.Data.Nat.Bitwise
/-!
# Doubles and their bit patterns

Core's doubles are bit patterns, and its operations take them apart into sign, significand and exponent
first. `unpack_eq` says what the parts of a pattern are in terms of its code, the pattern without its sign, and
`toNat_pack` puts them together again. From these two: which doubles are finite, what negation does to a
pattern, that patterns and doubles determine each other, and which doubles are equal to zero.
-/

namespace Calculator.Binary64

open Float.Model Float.Model.UnpackedFloat Number

/-! ## The parts of a pattern -/

/-- The whole number that a pattern multiplies by two to the power of its step exponent. -/
def significand (code : Nat) : Nat := if code < 2 ^ 52 then code else 2 ^ 52 + code % 2 ^ 52

theorem units_eq (code : Nat) : units code = significand code * 2 ^ stepExponent code := by
  unfold units significand stepExponent
  split
  · next h => rw [Nat.div_eq_of_lt h, pow_zero, mul_one]
  · rfl

theorem significand_of_lt {code : Nat} (h : code < 2 ^ 52) : significand code = code := if_pos h

theorem significand_of_le {code : Nat} (h : 2 ^ 52 ≤ code) : significand code = 2 ^ 52 + code % 2 ^ 52 :=
  if_neg (Nat.not_lt.2 h)

theorem significand_eq_zero_iff {code : Nat} : significand code = 0 ↔ code = 0 := by
  unfold significand
  split <;> omega

/-- The parts of a pattern with the given sign and code. -/
def parts (sign : Sign) (code : Nat) : UnpackedFloat :=
  if infinityCode < code then .notANumber
  else if code = infinityCode then .infinity sign
  else if h : significand code = 0 then .zero sign
  else .finite sign (significand code) (stepExponent code - 1074) (Nat.pos_of_ne_zero h)

theorem significand_pos {code : Nat} (h : 0 < code) : 0 < significand code :=
  Nat.pos_of_ne_zero (fun hz => by rw [significand_eq_zero_iff] at hz; omega)

theorem parts_notANumber {code : Nat} (h : infinityCode < code) (sign : Sign) : parts sign code = .notANumber :=
  if_pos h

theorem parts_infinity (sign : Sign) : parts sign infinityCode = .infinity sign := by
  unfold parts
  rw [if_neg (Nat.lt_irrefl _), if_pos rfl]

theorem parts_zero (sign : Sign) : parts sign 0 = .zero sign := rfl

theorem parts_finite {code : Nat} (h0 : 0 < code) (h : code < infinityCode) (sign : Sign) :
    parts sign code = .finite sign (significand code) (stepExponent code - 1074) (significand_pos h0) := by
  unfold parts
  rw [if_neg (by omega), if_neg (by omega), dif_neg (Nat.ne_of_gt (significand_pos h0))]

theorem code_cases (code : Nat) :
    code = 0 ∨ (0 < code ∧ code < infinityCode) ∨ code = infinityCode ∨ infinityCode < code := by
  omega

/-- What a sign adds to a code. -/
def signBits : Sign → Nat
  | .positive => 0
  | .negative => signCode

def signOf (bits : Nat) : Sign := if bits < signCode then .positive else .negative

theorem toNat_unpackMantissa (v : BitVec 64) :
    (@unpackMantissa Format.binary64 v).toNat = v.toNat % signCode % 2 ^ 52 := by
  have hfield : (@unpackMantissa Format.binary64 v).toNat = v.toNat % 2 ^ 52 := by
    simp [unpackMantissa, BitVec.extractLsb_toNat]
  rw [hfield, signCode]
  omega

theorem toNat_unpackExponent (v : BitVec 64) :
    (@unpackExponent Format.binary64 v).toNat = v.toNat % signCode / 2 ^ 52 := by
  have hfield : (@unpackExponent Format.binary64 v).toNat = v.toNat / 2 ^ 52 % 2 ^ 11 := by
    simp [unpackExponent, BitVec.extractLsb_toNat, Nat.shiftRight_eq_div_pow]
  rw [hfield, signCode]
  omega

theorem ofBitVec_unpackSign (v : BitVec 64) :
    Sign.ofBitVec (@unpackSign Format.binary64 v) = signOf v.toNat := by
  have hlt := v.isLt
  have hnat : (@unpackSign Format.binary64 v).toNat = v.toNat / 2 ^ 63 := by
    change ((v.extractLsb 63 63).cast _).toNat = _
    simp [BitVec.extractLsb_toNat, Nat.shiftRight_eq_div_pow]
    omega
  unfold Sign.ofBitVec signOf signCode
  by_cases h : v.toNat < 2 ^ 63
  · rw [if_pos h, if_pos]
    exact BitVec.eq_of_toNat_eq (by rw [hnat]; exact Nat.div_eq_of_lt h)
  · rw [if_neg h, if_neg]
    intro hzero
    rw [hzero] at hnat
    simp at hnat
    omega

theorem toNat_leadingBit (v : BitVec 52) : (1#1 ++ v).toNat = 2 ^ 52 + v.toNat := by
  rw [BitVec.toNat_append, ← Nat.shiftLeft_add_eq_or_of_lt v.isLt]
  rfl

theorem finite_congr {sign : Sign} {m m' : Nat} {e e' : Int} {h : 0 < m} {h' : 0 < m'} (hm : m = m') (he : e = e') :
    UnpackedFloat.finite sign m e h = .finite sign m' e' h' := by
  subst hm he
  rfl

theorem unpack_eq (v : BitVec 64) :
    unpack Format.binary64 v = parts (signOf v.toNat) (v.toNat % signCode) := by
  have hm := toNat_unpackMantissa v
  have he := toNat_unpackExponent v
  have hcode : v.toNat % signCode < 2 ^ 63 := Nat.mod_lt _ (by decide)
  unfold UnpackedFloat.unpack parts
  dsimp only
  rw [ofBitVec_unpackSign]
  generalize v.toNat % signCode = code at *
  have hm0 : @unpackMantissa Format.binary64 v = 0#52 ↔ code % 2 ^ 52 = 0 := by
    rw [← BitVec.toNat_inj, hm]
    rfl
  have he0 : @unpackExponent Format.binary64 v = 0#11 ↔ code / 2 ^ 52 = 0 := by
    rw [← BitVec.toNat_inj, he]
    rfl
  have he1 : @unpackExponent Format.binary64 v = -1#11 ↔ code / 2 ^ 52 = 2047 := by
    rw [← BitVec.toNat_inj, he]
    rfl
  by_cases hinf : code / 2 ^ 52 = 2047
  · rw [if_pos (he1.2 hinf)]
    by_cases hman : code % 2 ^ 52 = 0
    · rw [if_pos (hm0.2 hman), if_neg (by unfold infinityCode; omega), if_pos (by unfold infinityCode; omega)]
    · rw [if_neg (mt hm0.1 hman), if_pos (by unfold infinityCode; omega)]
  have hfin : code < infinityCode := by
    unfold infinityCode
    omega
  rw [if_neg (mt he1.1 hinf), if_neg (Nat.lt_asymm hfin), if_neg (Nat.ne_of_lt hfin)]
  by_cases hsub : code / 2 ^ 52 = 0
  -- without the leading bit the mantissa is the whole code, and the exponent that of the first step
  · have hsmall : code < 2 ^ 52 := by omega
    have hmod : code % 2 ^ 52 = code := Nat.mod_eq_of_lt hsmall
    have hsig := significand_of_lt hsmall
    rw [if_pos (he0.2 hsub)]
    by_cases hman : code % 2 ^ 52 = 0
    · rw [dif_pos (hm0.2 hman), dif_pos (by rw [hsig, ← hmod, hman])]
    · rw [dif_neg (mt hm0.1 hman), dif_neg (by rwa [hsig, ← hmod])]
      apply finite_congr
      · rw [hm, hsig, hmod]
      · rw [he, stepExponent, hsub]
        rfl
  · have hsig := significand_of_le (show 2 ^ 52 ≤ code by omega)
    have hbias : ((Format.binary64.exponentBias : Nat) : Int) = 1023 := rfl
    rw [if_neg (mt he0.1 hsub), dif_neg (by rw [hsig]; omega)]
    apply finite_congr
    · rw [toNat_leadingBit, hm, hsig]
    · rw [he, hbias, stepExponent]
      omega

theorem toNat_packComponents (sign : Sign) (e : BitVec 11) (m : BitVec 52) :
    (packComponents Format.binary64 sign e m).toNat =
      signBits sign + e.toNat * 2 ^ 52 + m.toNat := by
  have he := e.isLt
  have hm := m.isLt
  unfold packComponents
  rw [BitVec.toNat_append, ← Nat.shiftLeft_add_eq_or_of_lt hm, BitVec.toNat_append,
    ← Nat.shiftLeft_add_eq_or_of_lt he, Nat.shiftLeft_eq, Nat.shiftLeft_eq]
  cases sign
  · change (1 * 2 ^ 11 + e.toNat) * 2 ^ 52 + m.toNat = 2 ^ 63 + e.toNat * 2 ^ 52 + m.toNat
    omega
  · change (0 * 2 ^ 11 + e.toNat) * 2 ^ 52 + m.toNat = 0 + e.toNat * 2 ^ 52 + m.toNat
    omega

theorem toNat_pack_zero (sign : Sign) : (pack Format.binary64 (.zero sign)).toNat = signBits sign :=
  toNat_packComponents sign 0#11 0#52

theorem toNat_pack_infinity (sign : Sign) :
    (pack Format.binary64 (.infinity sign)).toNat = signBits sign + infinityCode :=
  toNat_packComponents sign (-1#11) 0#52

theorem toNat_pack_finite {code : Nat} (h0 : 0 < code) (h : code < infinityCode) (sign : Sign) :
    (pack Format.binary64 (.finite sign (significand code) (stepExponent code - 1074) (significand_pos h0))).toNat =
      signBits sign + code := by
  unfold infinityCode at h
  have hbiased : ((stepExponent code : Int) - 1074 + (Format.binary64.exponentBias : Nat) +
      (Format.binary64.mantissaBitsWithoutImplicit : Nat)).toNat = stepExponent code + 1 := by
    change ((stepExponent code : Int) - 1074 + 1023 + 52).toNat = _
    omega
  have hsteps : ¬ 2 ^ 11 ≤ stepExponent code + 1 + 1 := by
    unfold stepExponent
    omega
  unfold UnpackedFloat.pack
  dsimp only
  rw [hbiased, if_neg hsteps]
  by_cases hsmall : code < 2 ^ 52
  · have hlog : code.log2 + 1 ≠ Format.binary64.mantissaBits := by
      have := (Nat.log2_lt (Nat.ne_of_gt h0)).2 hsmall
      change code.log2 + 1 ≠ 53
      omega
    rw [significand_of_lt hsmall, if_neg hlog, toNat_packComponents]
    simp only [BitVec.toNat_ofNat]
    omega
  · have hlog : (2 ^ 52 + code % 2 ^ 52).log2 = 52 := (Nat.log2_eq_iff (by omega)).2 ⟨by omega, by omega⟩
    rw [significand_of_le (Nat.le_of_not_lt hsmall), if_pos (by rw [hlog]; rfl), toNat_packComponents]
    unfold stepExponent
    simp only [BitVec.toNat_ofNat]
    omega

/-- The pattern of the parts of a pattern is that pattern; those that are not numbers have one pattern only,
and are left out. -/
theorem toNat_pack {code : Nat} (h : code ≤ infinityCode) (sign : Sign) :
    (pack Format.binary64 (parts sign code)).toNat = signBits sign + code := by
  obtain rfl | ⟨h0, hlt⟩ | rfl | hnan := code_cases code
  · rw [parts_zero, toNat_pack_zero, Nat.add_zero]
  · rw [parts_finite h0 hlt, toNat_pack_finite h0 hlt]
  · rw [parts_infinity, toNat_pack_infinity]
  · omega

/-! ## Doubles -/

theorem signOf_toBits (x : Float) : signOf x.toBits.toNat = if isNegative x then .negative else .positive := by
  unfold signOf isNegative
  by_cases h : x.toBits.toNat < signCode
  · rw [if_pos h, if_neg (by simpa using h)]
  · rw [if_neg h, if_pos (by simpa using h)]

theorem unpack_toModel (x : Float) :
    x.toModel.unpack = parts (if isNegative x then .negative else .positive) (magnitude x) := by
  rw [← signOf_toBits]
  exact unpack_eq x.toModel.toBits.toBitVec

/-- A pattern is a sign and a magnitude. -/
theorem toNat_toBits (x : Float) :
    x.toBits.toNat = (if isNegative x then signCode else 0) + magnitude x := by
  have hlt := x.toBits.toNat_lt
  unfold isNegative magnitude
  by_cases h : signCode ≤ x.toBits.toNat
  · simp only [h, decide_true, if_true]
    unfold signCode at *
    omega
  · simp only [h, decide_false, Bool.false_eq_true, if_false]
    rw [Nat.mod_eq_of_lt (by omega), Nat.zero_add]

theorem float_ext {x y : Float} (h : x.toBits = y.toBits) : x = y := by
  obtain ⟨⟨a, ha⟩⟩ := x
  obtain ⟨⟨b, hb⟩⟩ := y
  obtain rfl : a = b := h
  rfl

/-- Doubles with the same sign and magnitude are the same. -/
theorem float_ext_parts {x y : Float} (hs : isNegative x = isNegative y) (hm : magnitude x = magnitude y) : x = y :=
  float_ext (UInt64.toNat.inj (by rw [toNat_toBits, toNat_toBits, hs, hm]))

theorem isFinite_iff (x : Float) : x.isFinite = true ↔ magnitude x < infinityCode := by
  change x.toModel.unpack.isFinite = true ↔ _
  rw [unpack_toModel]
  obtain h | ⟨h0, hlt⟩ | h | hnan := code_cases (magnitude x)
  · rw [h, parts_zero]
    exact iff_of_true rfl (by decide)
  · rw [parts_finite h0 hlt]
    exact iff_of_true rfl hlt
  · rw [h, parts_infinity]
    exact iff_of_false Bool.false_ne_true (Nat.lt_irrefl _)
  · rw [parts_notANumber hnan]
    exact iff_of_false Bool.false_ne_true (Nat.lt_asymm hnan)

theorem isNaN_iff (x : Float) : x.isNaN = true ↔ infinityCode < magnitude x := by
  change x.toModel.unpack.isNaN = true ↔ _
  rw [unpack_toModel]
  obtain h | ⟨h0, hlt⟩ | h | hnan := code_cases (magnitude x)
  · rw [h, parts_zero]
    exact iff_of_false Bool.false_ne_true (by decide)
  · rw [parts_finite h0 hlt]
    exact iff_of_false Bool.false_ne_true (Nat.lt_asymm hlt)
  · rw [h, parts_infinity]
    exact iff_of_false Bool.false_ne_true (Nat.lt_irrefl _)
  · rw [parts_notANumber hnan]
    exact iff_of_true rfl hnan

theorem magnitude_le_of_isNaN {x : Float} (h : x.isNaN = false) : magnitude x ≤ infinityCode := by
  rw [← Nat.not_lt, ← isNaN_iff, h]
  decide

/-- A pattern of a double comes back from it. -/
theorem toBits_ofBits {b : UInt64} (h : b.toNat % signCode ≤ infinityCode) : (Float.ofBits b).toBits = b := by
  have hlt := b.toNat_lt
  have hbits : (Float.ofBits b).toBits.toNat = (UnpackedFloat.pack Format.binary64
      (UnpackedFloat.unpack Format.binary64 b.toBitVec)).toNat := rfl
  apply UInt64.toNat.inj
  rw [hbits, unpack_eq]
  change (UnpackedFloat.pack _ (parts (signOf b.toNat) (b.toNat % signCode))).toNat = b.toNat
  rw [toNat_pack h]
  unfold signOf
  split <;> simp only [signBits] <;> unfold signCode at * <;> omega

/-! ## Negation -/

theorem neg_parts {code : Nat} (h : code ≤ infinityCode) (sign : Sign) :
    (parts sign code).neg = parts (-sign) code := by
  obtain rfl | ⟨h0, hlt⟩ | rfl | hnan := code_cases code
  · rfl
  · rw [parts_finite h0 hlt, parts_finite h0 hlt]
    rfl
  · rw [parts_infinity, parts_infinity]
    rfl
  · omega

theorem toNat_toBits_neg {x : Float} (h : magnitude x ≤ infinityCode) :
    (-x).toBits.toNat = (if isNegative x then 0 else signCode) + magnitude x := by
  have hbits : (-x).toBits.toNat = (UnpackedFloat.pack Format.binary64 x.toModel.unpack.neg).toNat := rfl
  rw [hbits, unpack_toModel, neg_parts h, toNat_pack h]
  cases isNegative x <;> rfl

theorem magnitude_neg {x : Float} (h : magnitude x ≤ infinityCode) : magnitude (-x) = magnitude x := by
  have hlt : magnitude x < signCode := Nat.mod_lt _ (by decide)
  change (-x).toBits.toNat % signCode = magnitude x
  rw [toNat_toBits_neg h]
  split
  · rw [Nat.zero_add, Nat.mod_eq_of_lt hlt]
  · rw [Nat.add_mod_left, Nat.mod_eq_of_lt hlt]

theorem isNegative_neg {x : Float} (h : magnitude x ≤ infinityCode) : isNegative (-x) = !isNegative x := by
  have hlt : magnitude x < signCode := Nat.mod_lt _ (by decide)
  have hneg : isNegative (-x) = decide (signCode ≤ (-x).toBits.toNat) := rfl
  rw [hneg, toNat_toBits_neg h]
  cases isNegative x
  · simp
  · simp only [if_true, Nat.zero_add, Bool.not_true, decide_eq_false_iff_not]
    omega

/-- Turning the sign round twice leaves a double as it is, unless it is not a number. -/
theorem neg_neg_eq {x : Float} (h : magnitude x ≤ infinityCode) : - -x = x := by
  have hneg : magnitude (-x) ≤ infinityCode := (magnitude_neg h).le.trans h
  apply float_ext_parts
  · rw [isNegative_neg hneg, isNegative_neg h, Bool.not_not]
  · rw [magnitude_neg hneg, magnitude_neg h]

theorem isFinite_neg {x : Float} (h : x.isFinite = true) : (-x).isFinite = true := by
  rw [isFinite_iff] at h ⊢
  rwa [magnitude_neg (Nat.le_of_lt h)]

theorem isNaN_neg {x : Float} (h : x.isNaN = false) : (-x).isNaN = false := by
  have hle := magnitude_le_of_isNaN h
  rw [← Bool.not_eq_true, isNaN_iff, magnitude_neg hle]
  exact Nat.not_lt.2 hle

/-! ## Zero -/

/-- The doubles equal to zero are the zeros of either sign. -/
theorem beq_zero_iff (x : Float) : (x == 0) = true ↔ magnitude x = 0 := by
  have hzero : (0 : Float).toModel.unpack = .zero .positive := rfl
  have hbeq : (x == 0) = (x.toModel.unpack.compare (0 : Float).toModel.unpack == some .eq) := rfl
  rw [hbeq, hzero, unpack_toModel]
  obtain h | ⟨h0, hlt⟩ | h | hnan := code_cases (magnitude x)
  · rw [h, parts_zero]
    exact iff_of_true rfl rfl
  · rw [parts_finite h0 hlt]
    cases isNegative x <;> exact iff_of_false Bool.false_ne_true (Nat.ne_of_gt h0)
  · rw [h, parts_infinity]
    cases isNegative x <;> exact iff_of_false Bool.false_ne_true (by decide)
  · rw [parts_notANumber hnan]
    exact iff_of_false Bool.false_ne_true (Nat.ne_of_gt (Nat.zero_lt_of_lt hnan))

end Calculator.Binary64
