import GeoQuery.Decimal.Basic
import Mathlib.Algebra.Ring.Nat

namespace GeoQuery

namespace Magnitude

theorem unitsPerOne_eq : ∃ places, places = 1074 ∧ unitsPerOne = Nat.pow 2 places :=
  ⟨_, rfl, by unfold unitsPerOne; exact Eq.refl _⟩

theorem rankOfUnits_of_twice_lt {num den : Nat} (h : 2 * num < den) : rankOfUnits num den = 0 := by
  have quotient : num / den = 0 := Nat.div_eq_of_lt (by omega)
  have remainder : num % den = num := Nat.mod_eq_of_lt (by omega)
  have log : Nat.log2 0 = 0 := by decide
  simp [rankOfUnits, roundHalfEven, quotient, remainder, log, h]

theorem le_roundHalfEven (num den : Nat) : num / den ≤ roundHalfEven num den := by
  simp only [roundHalfEven]
  split <;> omega

theorem le_rankOfUnits {num order : Nat} (h : 2 ^ (order + 52) ≤ num) :
    (order + 1) * 0x10000000000000 ≤ rankOfUnits num 1 := by
  have positive : num ≠ 0 := by
    have := Nat.pow_pos (n := order + 52) (show 0 < 2 by decide)
    omega
  have log : order + 52 ≤ Nat.log2 num := (Nat.le_log2 positive).2 h
  obtain ⟨dropped, top⟩ := Nat.exists_eq_add_of_le (Nat.le_trans (Nat.le_add_left 52 order) log)
  have kept : 0x10000000000000 ≤ num / 2 ^ dropped := by
    rw [Nat.le_div_iff_mul_le (Nat.pow_pos (show 0 < 2 by decide)),
      show 0x10000000000000 = 2 ^ 52 by decide, ← Nat.pow_add, ← top]
    exact Nat.log2_self_le positive
  have rounded := le_roundHalfEven num (2 ^ dropped)
  have scale : order * 0x10000000000000 ≤ dropped * 0x10000000000000 :=
    Nat.mul_le_mul_right _ (by omega)
  simp only [rankOfUnits, Nat.div_one, Nat.one_mul, Nat.pow_eq, top, Nat.add_sub_cancel_left]
  calc (order + 1) * 0x10000000000000 = order * 0x10000000000000 + 0x10000000000000 :=
        Nat.succ_mul _ _
    _ ≤ _ := Nat.add_le_add scale (Nat.le_trans kept rounded)

end Magnitude

namespace Decimal

theorem two_pow_le_ten_pow (k : Nat) : 2 ^ (3 * k) ≤ 10 ^ k := by
  rw [Nat.pow_mul]
  exact Nat.pow_le_pow_left (by decide) k

theorem le_units {coefficient exponent places order : Nat} (zero : coefficient ≠ 0)
    (h : order ≤ Nat.log2 coefficient + 3 * exponent + places) :
    2 ^ order ≤ coefficient * 10 ^ exponent * 2 ^ places := by
  refine Nat.le_trans (Nat.pow_le_pow_right (by decide) h) ?_
  rw [Nat.pow_add, Nat.pow_add]
  exact Nat.mul_le_mul_right _
    (Nat.mul_le_mul (Nat.log2_self_le zero) (two_pow_le_ten_pow exponent))

theorem twice_units_lt {coefficient exponent places : Nat}
    (h : Nat.log2 coefficient + 1 + (places + 1) ≤ 3 * exponent) :
    2 * (coefficient * 2 ^ places) < 10 ^ exponent := by
  refine Nat.lt_of_lt_of_le ?_ (two_pow_le_ten_pow exponent)
  refine Nat.lt_of_lt_of_le ?_ (Nat.pow_le_pow_right (by decide) h)
  rw [Nat.mul_left_comm, Nat.mul_comm 2, ← Nat.pow_succ, Nat.pow_add]
  exact Nat.mul_lt_mul_of_pos_right Nat.lt_log2_self (Nat.pow_pos (by decide))

theorem denominator_of_nonneg {d : Decimal} (h : 0 ≤ d.exponent) : d.denominator = 1 := by
  simp [denominator, Int.toNat_of_nonpos (show -d.exponent ≤ 0 by omega)]

theorem numerator_of_neg {d : Decimal} (h : d.exponent < 0) : d.numerator = d.coefficient := by
  simp [numerator, Int.toNat_of_nonpos (show d.exponent ≤ 0 by omega)]

theorem ofRatio?_of_coefficient_eq_zero {d : Decimal} (h : d.coefficient = 0) :
    Magnitude.ofRatio? d.numerator d.denominator = some .zero := by
  have vanishing : 2 * (d.numerator * Magnitude.unitsPerOne) < d.denominator := by
    simp only [numerator, denominator, h, Nat.zero_mul, Nat.mul_zero, Nat.pow_eq]
    exact Nat.pow_pos (by decide)
  simp only [Magnitude.ofRatio?, Magnitude.rankOfUnits_of_twice_lt vanishing]
  rfl

theorem ofRatio?_of_le_binaryOrder {d : Decimal} (zero : d.coefficient ≠ 0)
    (whole : 0 ≤ d.exponent) (large : 1024 ≤ d.binaryOrder) :
    Magnitude.ofRatio? d.numerator d.denominator = none := by
  obtain ⟨places, one, units⟩ := Magnitude.unitsPerOne_eq
  obtain ⟨order, top⟩ : ∃ order, order = 2046 := ⟨_, rfl⟩
  have rank : (order + 1) * 0x10000000000000 ≤
      Magnitude.rankOfUnits (d.numerator * Magnitude.unitsPerOne) 1 :=
    units ▸ Magnitude.le_rankOfUnits (le_units zero (by rw [binaryOrder] at large; omega))
  rw [Magnitude.ofRatio?, denominator_of_nonneg whole]
  exact dif_neg (by omega)

theorem ofRatio?_of_binaryOrder_lt {d : Decimal} (fraction : d.exponent < 0)
    (small : d.binaryOrder < -1075) :
    Magnitude.ofRatio? d.numerator d.denominator = some .zero := by
  have vanishing : 2 * (d.numerator * Magnitude.unitsPerOne) < d.denominator := by
    obtain ⟨places, one, units⟩ := Magnitude.unitsPerOne_eq
    rw [numerator_of_neg fraction, units]
    exact twice_units_lt (by rw [binaryOrder] at small; omega)
  simp only [Magnitude.ofRatio?, Magnitude.rankOfUnits_of_twice_lt vanishing]
  rfl

/-- No case of `nearest?` is a special one: it is always the ratio correctly rounded. -/
theorem nearest?_eq_ofRatio? (d : Decimal) :
    d.nearest? = Magnitude.ofRatio? d.numerator d.denominator := by
  rw [nearest?]
  split
  case isTrue zero => exact (ofRatio?_of_coefficient_eq_zero zero).symm
  case isFalse zero =>
    split
    case isTrue large => exact (ofRatio?_of_le_binaryOrder zero large.1 large.2).symm
    case isFalse =>
      split
      case isTrue small => exact (ofRatio?_of_binaryOrder_lt small.1 small.2).symm
      case isFalse => rfl

end Decimal

end GeoQuery
