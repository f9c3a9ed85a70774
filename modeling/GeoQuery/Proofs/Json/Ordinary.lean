import GeoQuery.Proofs.Decimal.Canonical

/-!
The reader of numerals where it rounds correctly. A significand below 2⁵³ and a power of ten up to the
22nd are exact, so the one operation of the reader is one correct rounding.
-/

namespace GeoQuery

open Json (Numeral)

namespace Magnitude

theorem exists_shifted {mantissa : Nat} (positive : 0 < mantissa)
    (high : mantissa < 0x20000000000000) :
    ∃ free, free ≤ 52 ∧ 0x10000000000000 ≤ mantissa * 2 ^ free ∧
      mantissa * 2 ^ free < 0x20000000000000 := by
  obtain ⟨free, hfree⟩ : ∃ free, 52 - Nat.log2 mantissa = free := ⟨_, rfl⟩
  have log : Nat.log2 mantissa < 53 := (Nat.log2_lt positive.ne').2 high
  refine ⟨free, by omega, ?_, ?_⟩
  · calc 0x10000000000000 = 2 ^ Nat.log2 mantissa * 2 ^ free := by
          rw [← Nat.pow_add, show Nat.log2 mantissa + free = 52 by omega]
      _ ≤ mantissa * 2 ^ free := Nat.mul_le_mul_right _ (Nat.log2_self_le positive.ne')
  · calc mantissa * 2 ^ free < 2 ^ (Nat.log2 mantissa + 1) * 2 ^ free :=
          Nat.mul_lt_mul_of_pos_right Nat.lt_log2_self (Nat.pow_pos (by decide))
      _ = 0x20000000000000 := by
          rw [← Nat.pow_add, show Nat.log2 mantissa + 1 + free = 53 by omega]

theorem exists_units_eq {mantissa scale : Nat} (normal : 0x10000000000000 ≤ mantissa)
    (high : mantissa < 0x20000000000000) (small : scale ≤ 1900) :
    ∃ x : Magnitude, x.units = mantissa * 2 ^ scale := by
  obtain ⟨x, rank⟩ : ∃ x : Magnitude, x.rank = scale * 0x10000000000000 + mantissa :=
    ⟨⟨scale * 0x10000000000000 + mantissa, by omega⟩, rfl⟩
  have kept : x.scale = scale ∧ x.mantissa = mantissa := by
    have place := x.rank_eq
    have below := x.mantissa_lt
    have full := x.scale_eq_zero_or_le_mantissa
    omega
  exact ⟨x, by rw [Magnitude.units, kept.1, kept.2, Nat.pow_eq]⟩

theorem ofNat?_of_units_eq {x : Magnitude} {n : Nat} (same : x.units = n * unitsPerOne) :
    ofNat? n = some x ∧ x.value = n := by
  constructor
  · have rounded : rankOfUnits (n * unitsPerOne) 1 = x.rank := by
      rw [← same, rankOfUnits_units]
    simp only [ofNat?, ofRatio?, rounded, x.rank_lt, dite_true]
  · have numerator : x.numerator = n * x.denominator := by
      apply Nat.eq_of_mul_eq_mul_right unitsPerOne_pos
      rw [numerator_mul_unitsPerOne, same]
      ring
    rw [value, numerator, Nat.cast_mul, mul_div_assoc,
      div_self (Nat.cast_ne_zero.2 x.denominator_pos.ne'), mul_one]

theorem exists_ofNat?_eq (mantissa zeros : Nat) (positive : 0 < mantissa)
    (high : mantissa < 0x20000000000000) (few : zeros ≤ 64) :
    ∃ x, ofNat? (mantissa * 2 ^ zeros) = some x ∧ x.value = (mantissa * 2 ^ zeros : Nat) := by
  obtain ⟨places, hplaces, units⟩ := unitsPerOne_eq
  obtain ⟨free, hfree, normal, digits⟩ := exists_shifted positive high
  obtain ⟨scale, hscale⟩ : ∃ scale, places + zeros = scale + free :=
    ⟨places + zeros - free, by omega⟩
  obtain ⟨x, same⟩ := exists_units_eq normal digits (show scale ≤ 1900 by omega)
  refine ⟨x, ofNat?_of_units_eq ?_⟩
  rw [same, units, Nat.pow_eq, Nat.mul_assoc, Nat.mul_assoc, ← Nat.pow_add, ← Nat.pow_add,
    Nat.add_comm zeros, hscale, Nat.add_comm scale]

theorem mul?_of_value_eq {x y : Magnitude} {m n : Nat} (hx : x.value = m) (hy : y.value = n) :
    x.mul? y = ofRatio? (m * n) 1 := by
  rw [mul?, numerator_eq_of_value_eq hx, numerator_eq_of_value_eq hy]
  exact ofRatio?_congr (Nat.mul_pos x.denominator_pos y.denominator_pos) Nat.one_pos (by ring)

theorem div?_of_value_eq {x y : Magnitude} {m n : Nat} (positive : 0 < n) (hx : x.value = m)
    (hy : y.value = n) : x.div? y = ofRatio? m n := by
  rw [div?, numerator_eq_of_value_eq hx, numerator_eq_of_value_eq hy]
  exact ofRatio?_congr
    (Nat.mul_pos x.denominator_pos (Nat.mul_pos positive y.denominator_pos)) positive (by ring)

end Magnitude

namespace Json.Numeral

theorem tenTo_value {k : Nat} (h : k ≤ 22) : (tenTo k).value = (10 ^ k : Nat) := by
  have fives : 5 ^ k < 0x20000000000000 :=
    Nat.lt_of_le_of_lt (Nat.pow_le_pow_right (by decide) h) (by decide)
  obtain ⟨x, exact, value⟩ :=
    Magnitude.exists_ofNat?_eq (5 ^ k) k (Nat.pow_pos (by decide)) fives (show k ≤ 64 by omega)
  rw [← Nat.mul_pow] at exact value
  rw [show 5 * 2 = 10 from rfl] at exact value
  have same := (ofNat?_ten_pow (show k ≤ 308 by omega)).symm.trans exact
  rw [Option.some.inj same, value]

theorem exists_ofNat?_eq {n : Nat} (h : n < 0x20000000000000) :
    ∃ x, Magnitude.ofNat? n = some x ∧ x.value = n := by
  rcases Nat.eq_zero_or_pos n with rfl | positive
  · exact ⟨.zero, Magnitude.ofNat?_zero, by simp⟩
  · simpa using Magnitude.exists_ofNat?_eq n 0 positive h (Nat.zero_le 64)

theorem leading_eq_exact {n : Numeral} (h : n.exact.coefficient < 0x10000000000000000) :
    n.leading = n.exact := by
  have digits : Nat.ofDigitChars 10 n.fraction (Nat.ofDigitChars 10 n.whole 0) =
      digitsValue (n.whole ++ n.fraction) := by
    rw [digitsValue_eq_ofDigitChars, Nat.ofDigitChars_append]
  have both : Nat.ofDigitChars 10 n.fraction (Nat.ofDigitChars 10 n.whole 0) < 0x10000000000000000 :=
    digits ▸ h
  rw [leading, fit_of_lt (Nat.lt_of_le_of_lt (le_ofDigitChars _ _) both)]
  dsimp only
  rw [fit_of_lt both, digits, exact]
  simp only [List.length_nil, Nat.sub_zero, Decimal.mk.injEq, true_and]
  omega

/-- The reader rounds correctly if significand and power of ten are exact. -/
theorem magnitude?_eq_nearest? {n : Numeral} (digits : n.exact.coefficient < 0x20000000000000)
    (exponent : n.exact.exponent.natAbs ≤ 22) : n.magnitude? = n.exact.nearest? := by
  obtain ⟨x, significand, value⟩ := exists_ofNat?_eq digits
  rw [magnitude?, leading_eq_exact (Nat.lt_trans digits (by decide)), Decimal.nearest?_eq_ofRatio?]
  generalize n.exact = d at *
  rw [significand, Option.bind_some, scale?, if_pos (by omega)]
  split
  case isTrue nonneg =>
    rw [Magnitude.mul?_of_value_eq value (tenTo_value exponent),
      Decimal.denominator_of_nonneg nonneg, Decimal.numerator, Nat.pow_eq,
      show d.exponent.natAbs = d.exponent.toNat by omega]
  case isFalse negative =>
    rw [Magnitude.div?_of_value_eq (Nat.pow_pos (by decide)) value (tenTo_value exponent),
      Decimal.numerator_of_neg (lt_of_not_ge negative), Decimal.denominator, Nat.pow_eq,
      show d.exponent.natAbs = (-d.exponent).toNat by omega]

theorem ofInt_of_integer? {n : Numeral} {i : Integer} (h : n.integer? = some i) :
    Binary64.ofInt i.val = n.nearest := by
  rw [integer?] at h
  split at h
  case isFalse => cases h
  case isTrue plain =>
    have exact : n.exact = ⟨digitsValue n.whole, 0⟩ := by
      rw [Decimal.exact_of_exponent_none plain.2, plain.1]
      simp
    have nearest : n.exact.nearest? = Magnitude.ofNat? (digitsValue n.whole) := by
      rw [Decimal.nearest?_eq_ofRatio?, exact]
      simp [Magnitude.ofNat?, Decimal.numerator, Decimal.denominator]
    rw [Numeral.nearest, nearest, Binary64.ofInt]
    split at h
    case isTrue negative =>
      split at h
      case isTrue fits =>
        cases h
        simp [negative, fits.1]
      case isFalse => cases h
    case isFalse positive =>
      split at h
      case isTrue =>
        cases h
        have sign : ¬ (digitsValue n.whole : Int) < 0 := by omega
        simp [Integer.ofNat, positive, sign]
      case isFalse => cases h

theorem exists_value?_eq_nearest {n : Numeral} {x : Magnitude}
    (correct : n.magnitude? = n.exact.nearest?) (reads : n.exact.ReadsAs x) :
    ∃ number, n.value? = some number ∧ number.toBinary64 = .finite ⟨n.negative, x⟩ := by
  rw [value?]
  cases integer : n.integer? with
  | some i =>
      refine ⟨_, rfl, ?_⟩
      rw [Number.toBinary64, ofInt_of_integer? integer]
      exact nearest_of_readsAs rfl reads
  | none =>
      rw [correct, show n.exact.nearest? = some x from reads]
      exact ⟨_, rfl, rfl⟩

def value (n : Numeral) : ℚ := if n.negative then -n.exact.value else n.exact.value

/-- At most fifteen digits, with a net power of ten between the -22nd and the 22nd, and a value below
2⁵³. -/
structure Ordinary (n : Numeral) : Prop where
  digits : digitsValue (n.whole ++ n.fraction) < 10 ^ 15
  exponent : (n.exponentValue - n.fraction.length).natAbs ≤ 22
  below : |n.value| < 0x20000000000000

theorem abs_value (n : Numeral) : |n.value| = n.exact.value :=
  abs_signed n.negative n.exact.value_nonneg

end Json.Numeral

namespace Decimal

theorem value_eq_numerator {d : Decimal} (whole : 0 ≤ d.exponent) : d.value = d.numerator := by
  rw [value_eq_ratio, denominator_of_nonneg whole, Nat.cast_one, div_one]

theorem ReadsAs.value_eq {d : Decimal} {x : Magnitude} (reads : d.ReadsAs x)
    (whole : 0 ≤ d.exponent) (below : d.value < 0x20000000000000) : x.value = d.numerator := by
  rw [value_eq_numerator whole] at below
  obtain ⟨y, exact, value⟩ := Numeral.exists_ofNat?_eq (n := d.numerator) (by exact_mod_cast below)
  rw [ReadsAs, nearest?_eq_ofRatio?, denominator_of_nonneg whole] at reads
  rw [← value, Option.some.inj (reads.symm.trans exact)]

theorem one_le_value_mul {d : Decimal} (positive : 0 < d.coefficient)
    (exponent : d.exponent.natAbs ≤ 22) : 1 ≤ d.value * 10 ^ 22 := by
  have tens : (1 : ℚ) ≤ 10 ^ (d.exponent + 22) := one_le_zpow₀ (by norm_num) (by omega)
  have some : (1 : ℚ) ≤ d.coefficient := by exact_mod_cast positive
  rw [Decimal.value, mul_assoc, ← zpow_natCast (10 : ℚ) 22, ← zpow_add₀ (by norm_num)]
  exact one_le_mul_of_one_le_of_one_le some tens

theorem ReadsAs.whole_le {d : Decimal} {x : Magnitude} (reads : d.ReadsAs x)
    (normal : 0x10000000000000 ≤ x.mantissa) (digits : d.coefficient < 10 ^ 15)
    (fraction : d.exponent < 0) {n : Nat} (whole : x.value = n) : n ≤ 10 ^ 15 := by
  have few : (n : ℚ) ≤ 10 ^ 15 := by
    have tens : (10 : ℚ) ^ (15 + d.exponent) ≤ 10 ^ (14 : ℤ) :=
      zpow_le_zpow_right₀ (by norm_num) (by omega)
    have short := Decimal.value_lt_of_coefficient_lt digits
    have near := reads.le_value
    have wide := Magnitude.mul_gap_le_value normal
    norm_num at tens short wide
    linarith
  exact_mod_cast few

end Decimal

namespace Finite64

variable {x : Finite64} {d : Decimal}

theorem tokenDecimal_value_eq (reads : d.ReadsAs x.magnitude) (digits : d.coefficient < 10 ^ 15)
    (exponent : d.exponent.natAbs ≤ 22) (below : d.value < 0x20000000000000) :
    x.tokenDecimal.value = d.value := by
  rcases Nat.eq_zero_or_pos d.coefficient with zero | positive
  · have vanishing : x.magnitude = .zero :=
      reads.unique (show d.nearest? = some .zero by simp [Decimal.nearest?, zero])
    rw [tokenDecimal_of_zero vanishing]
    simp [Decimal.value, zero]
  have normal := reads.le_mantissa (Decimal.one_le_value_mul positive exponent)
  have shortest := Decimal.shortest_value_eq .up normal reads digits
  rw [tokenDecimal]
  by_cases whole : 0 ≤ d.exponent
  · have value := reads.value_eq whole below
    have exact := Decimal.value_eq_numerator whole
    have small : d.numerator < 0x8000000000000000 := by
      rw [exact] at below
      exact Nat.lt_trans (by exact_mod_cast below) (by decide)
    rw [Magnitude.whole?_eq_some_iff.2 value, decimalOfWhole, if_pos small,
      Decimal.value_eq_numerator (le_refl 0), exact]
    simp [Decimal.numerator]
  · cases text : x.magnitude.whole? with
    | none => exact shortest
    | some n =>
        rw [decimalOfWhole]
        split
        case isFalse => exact shortest
        case isTrue =>
          -- The fraction was rounded off; both decimals have at most fifteen digits.
          have value := Magnitude.whole?_eq_some_iff.1 text
          exact Decimal.value_eq_of_readsAs normal (Magnitude.readsAs_of_whole? text) reads
            (reads.whole_le normal digits (lt_of_not_ge whole) value) digits.le

end Finite64

namespace Json.Numeral

/-- An ordinary numeral is read as a finite number, and the token of the number is the canonical
numeral of the same value. -/
theorem Ordinary.exists_token {n : Numeral} (h : n.Ordinary) :
    ∃ number x, n.value? = some number ∧ number.toBinary64 = .finite x ∧
      ∃ m : Numeral, m.Canonical ∧ m.value = n.value ∧ x.token = String.ofList m.text := by
  have below : n.exact.value < 0x20000000000000 := n.abs_value ▸ h.below
  have correct : n.magnitude? = n.exact.nearest? :=
    magnitude?_eq_nearest? (Nat.lt_trans h.digits (by decide)) h.exponent
  -- 2⁵³ is read as a magnitude, and so is all that is below it.
  obtain ⟨x, reads⟩ : ∃ x, n.exact.ReadsAs x := by
    obtain ⟨top, exact, -⟩ := Magnitude.exists_ofNat?_eq 1 53 (by decide) (by decide) (by decide)
    have limit : Decimal.ReadsAs ⟨0x20000000000000, 0⟩ top := by
      rw [Decimal.ReadsAs, Decimal.nearest?_eq_ofRatio?]
      exact exact
    obtain ⟨x, reads, -⟩ := Decimal.nearest?_mono (d := n.exact)
      (Decimal.atMost_iff_value_le.2 (by simpa [Decimal.value] using below.le)) limit
    exact ⟨x, reads⟩
  obtain ⟨number, value, binary⟩ := exists_value?_eq_nearest correct reads
  obtain ⟨m, canonical, sign, same, text⟩ :=
    Finite64.exists_token_canonical ⟨n.negative, x⟩
  refine ⟨number, _, value, binary, m, canonical, ?_, text⟩
  have magnitudes : m.exact.value = n.exact.value := by
    rw [Decimal.sameValue_iff_value_eq.1 same,
      Finite64.tokenDecimal_value_eq reads h.digits h.exponent below]
  by_cases zero : x = .zero
  · have vanishing : m.exact.value = 0 := by
      rw [Decimal.sameValue_iff_value_eq.1 same, Finite64.tokenDecimal_of_zero zero]
      simp [Decimal.value]
    rw [Numeral.value, Numeral.value, ← magnitudes, vanishing, neg_zero, ite_self, ite_self]
  · rw [Finite64.unsignZero_of_ne_zero zero] at sign
    rw [Numeral.value, Numeral.value, magnitudes, sign]

end Json.Numeral

end GeoQuery
