import Calculator.Number.Text
import Calculator.Proofs.Number.Literal
/-!
# What is printed reads back

The decimals between the middles to the two neighbours of a double are rounded to it, the middles themselves too if its
pattern is even. The printer looks for a short decimal in this interval and in the worst case takes the double itself,
so whatever it finds is read as the double again, bit for bit.

Main statements: `nearestCode_shortestDecimal`, and `isNumeral_chars` with `value_of_reads_chars` for the characters printed.
`mem_chars` says which characters these can be.
-/

namespace Calculator.Binary64

open Number

/-! ## Neighbours -/

/-- A pattern counts the steps of its size from where those begin. -/
theorem code_eq (code : Nat) : stepExponent code * 2 ^ 52 + significand code = code := by
  unfold stepExponent significand
  split <;> omega

/-- The next pattern is one step larger. -/
theorem units_succ (code : Nat) : units (code + 1) = units code + 2 ^ stepExponent code := by
  have hcode := code_eq code
  have hlt := significand_lt code
  have hsteps : stepExponent code = 0 ∨ 2 ^ 52 ≤ significand code + 1 := by
    unfold stepExponent significand
    split <;> omega
  have hnext : code + 1 = stepExponent code * 2 ^ 52 + (significand code + 1) := by omega
  conv_lhs => rw [hnext]
  rw [units_shift (by omega) hsteps, units_eq, Nat.add_mul, Nat.one_mul]

theorem units_strictMono : StrictMono units := by
  apply strictMono_nat_of_lt_succ
  intro code
  rw [units_succ]
  exact Nat.lt_add_of_pos_right (Nat.two_pow_pos _)

/-- Both neighbours, and the double between them, are whole steps of the smaller size. -/
theorem dvd_units_of_pos {code : Nat} (h : 0 < code) :
    2 ^ stepExponent (code - 1) ∣ units (code - 1) ∧ 2 ^ stepExponent (code - 1) ∣ units code ∧
      2 ^ stepExponent (code - 1) ∣ units (code + 1) := by
  obtain ⟨below, rfl⟩ := Nat.exists_eq_succ_of_ne_zero (Nat.ne_of_gt h)
  rw [Nat.succ_eq_add_one, Nat.add_sub_cancel]
  have hbelow : 2 ^ stepExponent below ∣ units below := by
    rw [units_eq]
    exact Nat.dvd_mul_left _ _
  have hcode : 2 ^ stepExponent below ∣ units (below + 1) := by
    rw [units_succ]
    exact Nat.dvd_add hbelow (Nat.dvd_refl _)
  have hsteps : stepExponent below ≤ stepExponent (below + 1) := by
    unfold stepExponent
    omega
  refine ⟨hbelow, hcode, ?_⟩
  rw [units_succ]
  exact Nat.dvd_add hcode (Nat.pow_dvd_pow 2 hsteps)

/-! ## Rounding between two middles -/

/-- Beyond the middle of two numbers the nearer one is on the same side. -/
theorem abs_sub_lt_of_middle {u w v : ℚ} (hlt : u < w) (hv : (u + w) / 2 < v) : |w - v| < |u - v| := by
  rw [abs_of_neg (show u - v < 0 by linarith), abs_lt]
  exact ⟨by linarith, by linarith⟩

theorem abs_sub_lt_of_lt_middle {u w v : ℚ} (hlt : u < w) (hv : v < (u + w) / 2) : |u - v| < |w - v| := by
  rw [abs_of_pos (show 0 < w - v by linarith), abs_lt]
  exact ⟨by linarith, by linarith⟩

theorem abs_sub_eq_of_eq_middle {u w v : ℚ} (hv : v = (u + w) / 2) : |w - v| = |u - v| := by
  have hsum : w - v = -(u - v) := by linarith
  rw [hsum, abs_neg]

/-- A number of units between the middles to the neighbours of a pattern, or on one of them if the pattern is even. -/
structure Surrounds (code : Nat) (v : ℚ) : Prop where
  low : (units (code - 1) + units code : ℚ) / 2 ≤ v
  high : v ≤ (units code + units (code + 1) : ℚ) / 2
  even : v = (units (code - 1) + units code : ℚ) / 2 ∨ v = (units code + units (code + 1) : ℚ) / 2 → code % 2 = 0

/-- Every other pattern is further away, or a neighbour as near as the pattern itself, which is even then. -/
theorem Surrounds.nearest {code : Nat} {v : ℚ} (h : Surrounds code v) {other : Nat} (hne : other ≠ code) :
    |(units code : ℚ) - v| < |(units other : ℚ) - v| ∨
      |(units code : ℚ) - v| = |(units other : ℚ) - v| ∧ other % 2 = 1 := by
  obtain ⟨hlow, hhigh, heven⟩ := h
  rcases Nat.lt_or_gt_of_ne hne with hlt | hgt
  · have hle : (units other : ℚ) ≤ units (code - 1) := by exact_mod_cast units_strictMono.monotone (Nat.le_sub_one_of_lt hlt)
    have hcode : (units other : ℚ) < units code := by exact_mod_cast units_strictMono hlt
    rcases lt_or_eq_of_le (show ((units other : ℚ) + units code) / 2 ≤ v by linarith) with hv | hv
    · exact .inl (abs_sub_lt_of_middle hcode hv)
    · have hsame : (units other : ℚ) = units (code - 1) := by linarith
      have hother : other = code - 1 := units_strictMono.injective (by exact_mod_cast hsame)
      have hcode := heven (.inl (by rw [← hsame, hv]))
      exact .inr ⟨abs_sub_eq_of_eq_middle hv.symm, by omega⟩
  · have hle : (units (code + 1) : ℚ) ≤ units other := by exact_mod_cast units_strictMono.monotone hgt
    have hcode : (units code : ℚ) < units other := by exact_mod_cast units_strictMono hgt
    rcases lt_or_eq_of_le (show v ≤ ((units code : ℚ) + units other) / 2 by linarith) with hv | hv
    · exact .inl (abs_sub_lt_of_lt_middle hcode hv)
    · have hsame : (units other : ℚ) = units (code + 1) := by linarith
      have hother : other = code + 1 := units_strictMono.injective (by exact_mod_cast hsame)
      have hcode := heven (.inr (by rw [← hsame, hv]))
      exact .inr ⟨(abs_sub_eq_of_eq_middle hv).symm, by omega⟩

/-- What surrounds a pattern is rounded to it: a neighbour as near would be odd. -/
theorem Surrounds.roundedCode_eq {code num den : Nat} (hden : 0 < den) (h : Surrounds code (num / den)) :
    roundedCode num den = code := by
  obtain ⟨hle, htie⟩ := roundedCode_nearest num hden code
  by_contra hne
  rcases h.nearest hne with hlt | ⟨heq, hodd⟩
  · exact absurd hle (not_le.2 hlt)
  · have hunits : units code ≠ units (roundedCode num den) := fun hsame => hne (units_strictMono.injective hsame).symm
    have heven := htie hunits heq
    omega

/-! ## The interval on its decimal scale -/

/-- A whole number of steps on the decimal scale. -/
theorem scaled_div {step units : Nat} (h : 2 ^ step ∣ units) (unit : Nat) :
    ((units / 2 ^ step * (2 ^ (step - unit) * 5 ^ (unit - step)) : Nat) : ℚ) / 10 ^ (unit - step) = units / 2 ^ unit := by
  obtain ⟨n, rfl⟩ := h
  have hpow : (2 : ℚ) ^ (step - unit) * 2 ^ unit = 2 ^ step * 2 ^ (unit - step) := by
    rw [← pow_add, ← pow_add]
    congr 1
    omega
  have hten : (10 : ℚ) ^ (unit - step) = 2 ^ (unit - step) * 5 ^ (unit - step) := by rw [← mul_pow]; norm_num
  rw [Nat.mul_div_cancel_left n (Nat.two_pow_pos step), div_eq_div_iff (by positivity) (by positivity), hten]
  push_cast
  calc (n * (2 ^ (step - unit) * 5 ^ (unit - step)) * 2 ^ unit : ℚ)
      = n * (2 ^ (step - unit) * 2 ^ unit) * 5 ^ (unit - step) := by ring
    _ = 2 ^ step * n * (2 ^ (unit - step) * 5 ^ (unit - step)) := by rw [hpow]; ring

namespace Interval

variable {i : Interval}

theorem contains_nearestMultiple {grid count : Nat} (h : i.nearestMultiple? grid = some count) :
    i.contains (count * grid) = true := by
  unfold nearestMultiple? at h
  simp only at h
  split at h
  · next hbelow habove =>
    split at h
    · obtain rfl := Option.some.inj h
      exact hbelow
    · obtain rfl := Option.some.inj h
      exact habove
  · next hbelow _ =>
    obtain rfl := Option.some.inj h
    exact hbelow
  · next _ habove =>
    obtain rfl := Option.some.inj h
    exact habove
  · cases h

/-- The search ends in the interval, at the double itself if nowhere earlier. -/
theorem contains_coarsest (h : i.contains i.value = true) (exponent : Nat) :
    i.contains ((i.coarsest exponent).1 * 10 ^ (i.coarsest exponent).2) = true := by
  induction exponent with
  | zero => simpa [coarsest] using h
  | succ exponent ih =>
    rw [coarsest]
    split
    · next count hcount => exact contains_nearestMultiple hcount
    · exact ih

theorem value_shortest (h : i.contains i.value = true) :
    ∃ n, i.contains n = true ∧ i.shortest.value = n / 10 ^ i.places := by
  have hcontains := contains_coarsest h i.exponentBound
  unfold shortest
  generalize i.coarsest i.exponentBound = found at *
  obtain ⟨count, exponent⟩ := found
  refine ⟨_, hcontains, ?_⟩
  unfold Decimal.value
  rw [div_eq_div_iff (by positivity) (by positivity)]
  push_cast
  have hpow : (10 : ℚ) ^ (exponent - i.places) * 10 ^ i.places = 10 ^ exponent * 10 ^ (i.places - exponent) := by
    rw [← pow_add, ← pow_add]
    congr 1
    omega
  rw [mul_assoc, hpow, mul_assoc]

end Interval

theorem contains_value {code : Nat} (h : 0 < code) : (interval code).contains (interval code).value = true := by
  obtain ⟨-, hcode, hnext⟩ := dvd_units_of_pos h
  have hbelow : units (code - 1) < units code := units_strictMono (Nat.sub_one_lt_of_lt h)
  have habove : units code < units (code + 1) := units_strictMono (Nat.lt_succ_self code)
  have hfactor : 0 < 2 ^ (stepExponent (code - 1) - 1075) * 5 ^ (1075 - stepExponent (code - 1)) := by positivity
  have hlow : (interval code).low < (interval code).value := by
    refine Nat.mul_lt_mul_of_pos_right (Nat.div_lt_div_of_lt_of_dvd ?_ ?_) hfactor
    · exact Nat.dvd_mul_left_of_dvd hcode 2
    · omega
  have hhigh : (interval code).value < (interval code).high := by
    refine Nat.mul_lt_mul_of_pos_right (Nat.div_lt_div_of_lt_of_dvd ?_ ?_) hfactor
    · exact Nat.dvd_add hcode hnext
    · omega
  unfold Interval.contains
  split <;> simp <;> omega

/-- A whole number of the scale, counted in units. -/
def Interval.inUnits (i : Interval) (n : Nat) : ℚ := n / 10 ^ i.places * 2 ^ 1074

theorem Interval.inUnits_strictMono (i : Interval) : StrictMono i.inUnits := by
  intro m n hlt
  have hcast : (m : ℚ) < n := by exact_mod_cast hlt
  have hunit : (0 : ℚ) < 2 ^ 1074 := by positivity
  exact mul_lt_mul_of_pos_right (div_lt_div_of_pos_right hcast (by positivity)) hunit

theorem inUnits_scaled {code u : Nat} (h : 2 ^ stepExponent (code - 1) ∣ u) :
    (interval code).inUnits (u / 2 ^ stepExponent (code - 1) *
      (2 ^ (stepExponent (code - 1) - 1075) * 5 ^ (1075 - stepExponent (code - 1)))) = u / 2 := by
  have hhalf (unit : Nat) : (u : ℚ) / 2 ^ (unit + 1) * 2 ^ unit = u / 2 := by
    rw [pow_succ]
    field_simp
  have hscaled := scaled_div h 1075
  unfold Interval.inUnits interval
  rw [hscaled, hhalf 1074]

/-- The decimals of the interval, counted in units, surround the pattern. -/
theorem surrounds_of_contains {code n : Nat} (h : 0 < code) (hn : (interval code).contains n = true) :
    Surrounds code ((interval code).inUnits n) := by
  obtain ⟨hbelow, hcode, hnext⟩ := dvd_units_of_pos h
  have hmono := (interval code).inUnits_strictMono
  have hlow : (interval code).inUnits (interval code).low = _ := inUnits_scaled (Nat.dvd_add hbelow hcode)
  have hhigh : (interval code).inUnits (interval code).high = _ := inUnits_scaled (Nat.dvd_add hcode hnext)
  have hclosed : (interval code).closed = (code % 2 == 0) := rfl
  rw [Nat.cast_add] at hlow hhigh
  unfold Interval.contains at hn
  rw [hclosed] at hn
  split at hn
  · next heven =>
    simp only [Bool.and_eq_true, decide_eq_true_eq] at hn
    exact ⟨hlow ▸ hmono.monotone hn.1, hhigh ▸ hmono.monotone hn.2, fun _ => by simpa using heven⟩
  -- the middles themselves are left out
  · simp only [Bool.and_eq_true, decide_eq_true_eq] at hn
    have hl := hmono hn.1
    have hh := hmono hn.2
    rw [hlow] at hl
    rw [hhigh] at hh
    refine ⟨hl.le, hh.le, ?_⟩
    rintro (heq | heq)
    · exact absurd heq hl.ne'
    · exact absurd heq hh.ne

/-- The decimal a finite double is printed as is rounded to it. -/
theorem nearestCode_shortestDecimal {code : Nat} (h : code < infinityCode) :
    (shortestDecimal code).nearestCode = code := by
  unfold shortestDecimal
  split
  · next hzero =>
    subst hzero
    rw [Decimal.nearestCode_eq, Nat.zero_mul]
    decide
  · next hne =>
    have hpos : 0 < code := Nat.pos_of_ne_zero hne
    obtain ⟨n, hn, hvalue⟩ := Interval.value_shortest (contains_value hpos)
    have hsurrounds := surrounds_of_contains hpos hn
    unfold Interval.inUnits at hsurrounds
    rw [← hvalue, ← Nat.cast_ofNat, ← Nat.cast_pow, ← Decimal.value_mul] at hsurrounds
    rw [Decimal.nearestCode_eq, hsurrounds.roundedCode_eq (by positivity)]
    exact Nat.min_eq_right h.le

end Calculator.Binary64

namespace Calculator

open Binary64 Number

/-! ## The characters of a decimal -/

theorem allDigits_toDigits (n : Nat) : AllDigits (Nat.toDigits 10 n) :=
  fun _ hc => Nat.isDigit_of_mem_toDigits (by decide) (by decide) hc

theorem wholeNumber_eq_ofDigitChars (cs : List Char) : wholeNumber cs = Nat.ofDigitChars 10 cs 0 := by
  induction cs using List.reverseRecOn with
  | nil => rfl
  | append_singleton cs c ih =>
    rw [wholeNumber_concat, ih, Nat.ofDigitChars_append, Nat.ofDigitChars_cons, Nat.ofDigitChars_nil, Nat.mul_comm]

theorem wholeNumber_toDigits (n : Nat) : wholeNumber (Nat.toDigits 10 n) = n := by
  rw [wholeNumber_eq_ofDigitChars, Nat.ofDigitChars_ten_toDigits]

namespace Decimal

theorem wholeNumber_wholeDigits (d : Decimal) : wholeNumber d.wholeDigits = d.coefficient / 10 ^ d.places :=
  wholeNumber_toDigits _

/-- The digits after the point are as many as there are places, and spell what is left below one. -/
theorem fractionDigits_spec {d : Decimal} (h : d.places ≠ 0) : AllDigits d.fractionDigits ∧
    d.fractionDigits.length = d.places ∧ wholeNumber d.fractionDigits = d.coefficient % 10 ^ d.places := by
  have hlength : (Nat.toDigits 10 (d.coefficient % 10 ^ d.places)).length ≤ d.places :=
    (Nat.length_toDigits_le_iff (by decide) (by omega)).2 (Nat.mod_lt _ (by positivity))
  unfold fractionDigits
  rw [if_neg h]
  refine ⟨?_, ?_, ?_⟩
  · refine allDigits_append.2 ⟨?_, allDigits_toDigits _⟩
    intro c hc
    rw [List.eq_of_mem_replicate hc]
    rfl
  · rw [List.length_leftpad]
    omega
  · rw [wholeNumber_eq_ofDigitChars, List.leftpad, Nat.ofDigitChars_append, Nat.ofDigitChars_replicate_zero, Nat.mul_zero,
      Nat.ofDigitChars_ten_toDigits]

/-- The characters of a decimal spell it, digit for digit. -/
theorem mantissa_chars (d : Decimal) : Mantissa d.chars d := by
  have hwhole := wholeNumber_wholeDigits d
  have hdigits : AllDigits d.wholeDigits := allDigits_toDigits _
  have hne : d.wholeDigits ≠ [] := Nat.toDigits_ne_nil
  unfold chars
  by_cases hplaces : d.places = 0
  · have hspelled := Mantissa.whole hne hdigits
    rw [hwhole, hplaces, pow_zero, Nat.div_one] at hspelled
    rw [if_pos hplaces, List.append_nil]
    obtain ⟨coefficient, places⟩ := d
    obtain rfl : places = 0 := hplaces
    exact hspelled
  · obtain ⟨hfraction, hlength, hrest⟩ := fractionDigits_spec hplaces
    have hboth : d.wholeDigits ++ d.fractionDigits ≠ [] := List.append_ne_nil_of_left_ne_nil hne _
    have hspelled := Mantissa.point hboth hdigits hfraction
    rw [wholeNumber_append, hwhole, hrest, hlength, Nat.div_add_mod'] at hspelled
    rwa [if_neg hplaces]

/-- They are a numeral if the decimal stands for a finite double. -/
theorem isNumeral_chars {d : Decimal} (h : d.nearestCode < infinityCode) : IsNumeral d.chars := by
  have hbound := (nearestCode_lt_iff d).1 h
  have hwhole : wholeNumber d.wholeDigits < Numeral.finiteBound := by
    rw [wholeNumber_wholeDigits]
    exact (Nat.div_lt_iff_lt_mul (by positivity)).2 hbound
  have hne : d.wholeDigits ≠ [] := Nat.toDigits_ne_nil
  unfold chars
  split
  · rw [List.append_nil]
    exact ⟨_, .whole hne (allDigits_toDigits _) hwhole⟩
  · next hplaces => exact ⟨_, .point hne (allDigits_toDigits _) hwhole (fractionDigits_spec hplaces).1⟩

end Decimal

/-! ## The characters of a double -/

variable {x : Float}

theorem magnitudeChars_eq (h : x.isFinite = true) :
    magnitudeChars (magnitude x) = (shortestDecimal (magnitude x)).chars :=
  if_pos ((isFinite_iff x).1 h)

/-- A finite double is printed with a sign exactly if its sign bit is set. -/
theorem chars_eq (h : x.isFinite = true) :
    chars x = if isNegative x then '-' :: magnitudeChars (magnitude x) else magnitudeChars (magnitude x) := by
  have hle := ((isFinite_iff x).1 h).le
  simp [chars, hle]

/-- Digits printed for a finite double are a numeral. -/
theorem isNumeral_magnitudeChars (h : x.isFinite = true) : IsNumeral (magnitudeChars (magnitude x)) := by
  rw [magnitudeChars_eq h]
  apply Decimal.isNumeral_chars
  rw [nearestCode_shortestDecimal ((isFinite_iff x).1 h)]
  exact (isFinite_iff x).1 h

/-- What is printed of a double apart from its sign is a numeral or one of two words. -/
theorem magnitudeChars_cases (x : Float) : IsNumeral (magnitudeChars (magnitude x)) ∨
    magnitudeChars (magnitude x) = ['i', 'n', 'f'] ∨ magnitudeChars (magnitude x) = ['N', 'a', 'N'] := by
  by_cases hfinite : x.isFinite = true
  · exact .inl (isNumeral_magnitudeChars hfinite)
  · rw [isFinite_iff] at hfinite
    rw [magnitudeChars, if_neg hfinite]
    split
    · exact .inr (.inl rfl)
    · exact .inr (.inr rfl)

theorem chars_cases (x : Float) :
    chars x = magnitudeChars (magnitude x) ∨ chars x = '-' :: magnitudeChars (magnitude x) := by
  unfold chars
  split
  · exact .inr rfl
  · exact .inl rfl

theorem mem_chars {c : Char} (hc : c ∈ chars x) : c.isDigit = true ∨ c ∈ ['.', '-', 'i', 'n', 'f', 'N', 'a'] := by
  have hmagnitude : c ∈ magnitudeChars (magnitude x) → c.isDigit = true ∨ c ∈ ['.', '-', 'i', 'n', 'f', 'N', 'a'] := by
    intro hc
    rcases magnitudeChars_cases x with hnumeral | hword | hword
    · rcases hnumeral.isDigit_or_point c hc with hdigit | rfl
      · exact .inl hdigit
      · exact .inr (by decide)
    · have hsubset : ['i', 'n', 'f'] ⊆ ['.', '-', 'i', 'n', 'f', 'N', 'a'] := by simp
      exact .inr (hsubset (hword ▸ hc))
    · have hsubset : ['N', 'a', 'N'] ⊆ ['.', '-', 'i', 'n', 'f', 'N', 'a'] := by simp
      exact .inr (hsubset (hword ▸ hc))
  rcases chars_cases x with h | h
  · rw [h] at hc
    exact hmagnitude hc
  · rw [h] at hc
    rcases List.mem_cons.1 hc with rfl | hc
    · exact .inr (by decide)
    · exact hmagnitude hc

theorem chars_ne_nil (x : Float) : chars x ≠ [] := by
  have hmagnitude : magnitudeChars (magnitude x) ≠ [] := by
    rcases magnitudeChars_cases x with hnumeral | hword | hword
    · exact hnumeral.ne_nil
    · simp [hword]
    · simp [hword]
  rcases chars_cases x with h | h
  · rwa [h]
  · simp [h]

/-- A double without a sign is printed, when it is negated, with a sign in front. -/
theorem chars_neg (hnan : x.isNaN = false) (hsign : isNegative x = false) : chars (-x) = '-' :: chars x := by
  have hle := magnitude_le_of_isNaN hnan
  have hneg : isNegative (-x) = true := by rw [isNegative_neg hle, hsign]; rfl
  simp [chars, hneg, hsign, magnitude_neg hle, hle]

/-- The reader makes of the digits printed for a double without a sign that double. -/
theorem value_of_reads_chars {n : Numeral} (h : x.isFinite = true) (hsign : isNegative x = false)
    (hreads : n.Reads (magnitudeChars (magnitude x))) : n.value = x := by
  rw [magnitudeChars_eq h] at hreads
  apply float_ext_parts
  · rw [hsign]
    exact Decimal.isNegative_toFloat _
  · rw [Numeral.value, hreads.decimal_eq (Decimal.mantissa_chars _), Decimal.magnitude_toFloat,
      nearestCode_shortestDecimal ((isFinite_iff x).1 h)]

/-! ## Doubles are told apart -/

theorem not_mem_minus (x : Float) : '-' ∉ magnitudeChars (magnitude x) := by
  intro hmem
  rcases magnitudeChars_cases x with hnumeral | hword | hword
  · rcases hnumeral.isDigit_or_point '-' hmem with hdigit | hpoint
    · cases hdigit
    · revert hpoint
      decide
  · simp [hword] at hmem
  · simp [hword] at hmem

/-- Patterns that are printed alike are the same, up to that of infinity. -/
theorem magnitudeChars_injective {code code' : Nat} (h : code ≤ infinityCode) (h' : code' ≤ infinityCode)
    (hchars : magnitudeChars code = magnitudeChars code') : code = code' := by
  have hword {code : Nat} (hlt : code < infinityCode) : (shortestDecimal code).chars ≠ ['i', 'n', 'f'] := by
    intro hinf
    have hnumeral : IsNumeral (shortestDecimal code).chars :=
      Decimal.isNumeral_chars (by rwa [nearestCode_shortestDecimal hlt])
    rw [hinf] at hnumeral
    have hi := hnumeral.isDigit_or_point 'i' (by simp)
    revert hi
    decide
  unfold magnitudeChars at hchars
  rcases Nat.lt_or_eq_of_le h with hlt | rfl
  · rw [if_pos hlt] at hchars
    rcases Nat.lt_or_eq_of_le h' with hlt' | rfl
    · -- both are decimals, and a decimal is known by its characters
      rw [if_pos hlt'] at hchars
      have hdecimal : shortestDecimal code = shortestDecimal code' :=
        (Decimal.mantissa_chars _).unique (hchars ▸ Decimal.mantissa_chars _)
      rw [← nearestCode_shortestDecimal hlt, hdecimal, nearestCode_shortestDecimal hlt']
    · rw [if_neg (Nat.lt_irrefl _), if_pos rfl] at hchars
      exact absurd hchars (hword hlt)
  · rw [if_neg (Nat.lt_irrefl _), if_pos rfl] at hchars
    rcases Nat.lt_or_eq_of_le h' with hlt' | rfl
    · rw [if_pos hlt'] at hchars
      exact absurd hchars.symm (hword hlt')
    · rfl

/-- Doubles that are printed alike are the same, bit for bit, unless they are not numbers. -/
theorem chars_injective {y : Float} (hx : x.isNaN = false) (hy : y.isNaN = false) (h : chars x = chars y) : x = y := by
  have hle := magnitude_le_of_isNaN hx
  have hle' := magnitude_le_of_isNaN hy
  simp only [chars, hle, hle', decide_true, Bool.and_true] at h
  cases hsign : isNegative x <;> cases hsign' : isNegative y <;> rw [hsign, hsign'] at h <;>
    simp only [if_true, Bool.false_eq_true, if_false] at h
  · exact float_ext_parts (hsign.trans hsign'.symm) (magnitudeChars_injective hle hle' h)
  · exact absurd (h ▸ List.mem_cons_self) (not_mem_minus x)
  · exact absurd (h ▸ List.mem_cons_self) (not_mem_minus y)
  · exact float_ext_parts (hsign.trans hsign'.symm) (magnitudeChars_injective hle hle' (List.cons.inj h).2)

end Calculator
