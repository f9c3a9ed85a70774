import GeoQuery.Proofs.Binary64.Spacing
import GeoQuery.Proofs.Decimal.Value

namespace GeoQuery

namespace Decimal

def value (d : Decimal) : ℚ := d.coefficient * 10 ^ d.exponent

variable {d e f : Decimal} {x : Magnitude}

theorem ten_zpow (exponent : Int) :
    (10 : ℚ) ^ exponent = 10 ^ exponent.toNat / 10 ^ (-exponent).toNat := by
  rw [← zpow_natCast, ← zpow_natCast, ← zpow_sub₀ (by norm_num)]
  congr 1
  omega

theorem ten_zpow_pos (exponent : Int) : (0 : ℚ) < 10 ^ exponent := zpow_pos (by norm_num) _

theorem value_eq_ratio (d : Decimal) : d.value = d.numerator / d.denominator := by
  rw [value, ten_zpow, numerator, denominator, Nat.pow_eq, Nat.pow_eq]
  push_cast
  ring

theorem atMost_iff_value_le : d.AtMost e ↔ d.value ≤ e.value := by
  rw [value_eq_ratio, value_eq_ratio, div_le_div_iff₀ (Nat.cast_pos.2 d.denominator_pos)
    (Nat.cast_pos.2 e.denominator_pos), AtMost]
  norm_cast

theorem sameValue_iff_value_eq : d.SameValue e ↔ d.value = e.value := by
  rw [value_eq_ratio, value_eq_ratio, div_eq_div_iff (Nat.cast_ne_zero.2 d.denominator_pos.ne')
    (Nat.cast_ne_zero.2 e.denominator_pos.ne'), SameValue]
  norm_cast

theorem value_nonneg (d : Decimal) : 0 ≤ d.value :=
  mul_nonneg (Nat.cast_nonneg _) (ten_zpow_pos _).le

theorem value_pos_iff : 0 < d.value ↔ 0 < d.coefficient := by
  rw [value, mul_pos_iff_of_pos_right (ten_zpow_pos _), Nat.cast_pos]

theorem value_one (exponent : Int) : value ⟨1, exponent⟩ = 10 ^ exponent := by
  rw [value, Nat.cast_one, one_mul]

theorem value_lt_of_coefficient_lt {digits : Nat} (h : d.coefficient < 10 ^ digits) :
    d.value < 10 ^ (digits + d.exponent) := by
  rw [value, zpow_add₀ (by norm_num), zpow_natCast]
  exact mul_lt_mul_of_pos_right (by exact_mod_cast h) (ten_zpow_pos _)

theorem value_eq_natCast_mul {exponent : Int} (grid : exponent ≤ d.exponent) :
    d.value = (d.coefficient * 10 ^ (d.exponent - exponent).toNat : Nat) * 10 ^ exponent := by
  obtain ⟨zeros, hzeros⟩ : ∃ zeros : Nat, d.exponent = zeros + exponent :=
    ⟨(d.exponent - exponent).toNat, by omega⟩
  rw [value, hzeros, add_sub_cancel_right, Int.toNat_natCast, zpow_add₀ (by norm_num), zpow_natCast]
  push_cast
  ring

theorem value_exact (x : Magnitude) : (exact x).value = x.value := by
  obtain ⟨places, hplaces⟩ : ∃ places, 1074 - x.scale = places := ⟨_, rfl⟩
  have tens : (10 : ℚ) ^ (-(places : ℤ)) = (5 ^ places)⁻¹ * (2 ^ places)⁻¹ := by
    rw [zpow_neg, zpow_natCast, ← mul_inv, ← mul_pow]
    norm_num
  have fives : (5 : ℚ) ^ places * (5 ^ places)⁻¹ = 1 :=
    mul_inv_cancel₀ (pow_ne_zero _ (by norm_num))
  simp only [value, exact, Magnitude.value, Magnitude.denominator, hplaces, Nat.pow_eq, tens]
  generalize x.numerator = numerator
  push_cast
  rw [div_eq_mul_inv, mul_assoc, ← mul_assoc ((5 : ℚ) ^ places), fives, one_mul]

theorem readsAs_iff_rankOfUnits :
    d.ReadsAs x ↔
      Magnitude.rankOfUnits (d.numerator * Magnitude.unitsPerOne) d.denominator = x.rank := by
  rw [ReadsAs, nearest?_eq_ofRatio?]
  constructor
  · exact Magnitude.rank_of_ofRatio?
  · intro h
    simp only [Magnitude.ofRatio?, h, x.rank_lt, dite_true]

theorem ReadsAs.between (hd : d.ReadsAs x) (hf : f.ReadsAs x) (le : d.value ≤ e.value)
    (le' : e.value ≤ f.value) : e.ReadsAs x := by
  obtain ⟨y, reads, below⟩ := nearest?_mono (atMost_iff_value_le.2 le') hf
  obtain ⟨z, reads', below'⟩ := nearest?_mono (atMost_iff_value_le.2 le) reads
  obtain rfl := reads'.unique hd
  obtain rfl : z = y := by
    cases z
    cases y
    simp only [Magnitude.mk.injEq]
    exact Nat.le_antisymm below' below
  exact reads

/-- A decimal, a magnitude and half of its gap are natural multiples of one unit. -/
theorem exists_common_unit (d : Decimal) (x : Magnitude) :
    ∃ unit : ℚ, 0 < unit ∧
      d.value = unit * (2 * (d.numerator * Magnitude.unitsPerOne) : Nat) ∧
      x.value = unit * (2 * x.mantissa * (d.denominator * 2 ^ x.scale) : Nat) ∧
      x.gap / 2 = unit * (d.denominator * 2 ^ x.scale : Nat) := by
  have denominator : (0 : ℚ) < d.denominator := Nat.cast_pos.2 d.denominator_pos
  have units : (0 : ℚ) < Magnitude.unitsPerOne := Nat.cast_pos.2 Magnitude.unitsPerOne_pos
  refine ⟨(2 * Magnitude.unitsPerOne * d.denominator)⁻¹,
    inv_pos.2 (mul_pos (mul_pos two_pos units) denominator), ?_⟩
  rw [x.value_eq_mantissa_mul_gap, Magnitude.gap, value_eq_ratio]
  push_cast
  generalize (Magnitude.unitsPerOne : ℚ) = units at *
  refine ⟨?_, ?_, ?_⟩ <;> field_simp

theorem ReadsAs.value_le (h : d.ReadsAs x) : d.value ≤ x.value + x.gap / 2 := by
  obtain ⟨unit, positive, decimal, magnitude, half⟩ := exists_common_unit d x
  obtain ⟨-, below⟩ := Magnitude.near_of_rankOfUnits d.denominator_pos (readsAs_iff_rankOfUnits.1 h)
  rw [decimal, magnitude, half, ← mul_add, mul_le_mul_iff_right₀ positive]
  exact_mod_cast below.trans (Nat.succ_mul _ _).le

theorem ReadsAs.le_value (h : d.ReadsAs x) : x.value ≤ d.value + x.gap / 2 := by
  obtain ⟨unit, positive, decimal, magnitude, half⟩ := exists_common_unit d x
  obtain ⟨above, -⟩ := Magnitude.near_of_rankOfUnits d.denominator_pos (readsAs_iff_rankOfUnits.1 h)
  rw [decimal, magnitude, half, ← mul_add, mul_le_mul_iff_right₀ positive]
  exact_mod_cast above

/-- What is less than half of the gap away is read as the magnitude. Below a power of two the gap is
only half as wide; there this holds only for what is not below the magnitude. -/
theorem readsAs_of_near (below : x.value - x.gap / 2 < d.value) (above : d.value < x.value + x.gap / 2)
    (side : x.value ≤ d.value ∨ x.scale = 0 ∨ 0x10000000000000 < x.mantissa) : d.ReadsAs x := by
  obtain ⟨unit, positive, decimal, magnitude, half⟩ := exists_common_unit d x
  rw [sub_lt_iff_lt_add] at below
  rw [decimal, magnitude, half, ← mul_add, mul_lt_mul_iff_right₀ positive] at below above
  rw [decimal, magnitude, mul_le_mul_iff_right₀ positive] at side
  norm_cast at below above side
  rw [readsAs_iff_rankOfUnits, ← x.rank_eq]
  refine Magnitude.rankOfUnits_of_near ?_ x.mantissa_lt below (by linarith)
  by_cases least : x.scale = 0
  · exact .inl least
  · right
    have normal := x.scale_eq_zero_or_le_mantissa.resolve_left least
    rcases side with le | inner
    · have place := Nat.mul_le_mul_right (d.denominator * 2 ^ x.scale) normal
      linarith
    · have place := Nat.mul_le_mul_right (d.denominator * 2 ^ x.scale)
        (Nat.succ_le_of_lt (inner.resolve_left least))
      linarith

/-- What is not tiny is read as a magnitude with all 53 binary digits. -/
theorem ReadsAs.le_mantissa (h : d.ReadsAs x) (large : 1 ≤ d.value * 10 ^ 22) :
    0x10000000000000 ≤ x.mantissa := by
  -- Otherwise the magnitude is below 2⁵² gaps of the finest kind, far less than 10⁻²².
  by_contra few
  have scale := x.scale_eq_zero_or_le_mantissa.resolve_right few
  obtain ⟨places, hplaces, units⟩ := Magnitude.unitsPerOne_eq
  have fine : x.gap * 2 ^ 200 ≤ 1 := by
    have wide : (2 : ℚ) ^ 200 ≤ 2 ^ places := pow_le_pow_right₀ (by norm_num) (by omega)
    rw [Magnitude.gap, scale, units, Nat.pow_eq, Nat.cast_pow, Nat.cast_ofNat, pow_zero,
      one_div_mul_eq_div, div_le_one (by positivity)]
    exact wide
  have small : x.value ≤ 0x10000000000000 * x.gap := by
    rw [x.value_eq_mantissa_mul_gap]
    exact mul_le_mul_of_nonneg_right (by exact_mod_cast (Nat.lt_of_not_le few).le) x.gap_pos.le
  have near := h.value_le
  norm_num at fine large
  linarith

end Decimal

end GeoQuery
