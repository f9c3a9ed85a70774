import GeoQuery.Proofs.Binary64.Rounding
import Mathlib

/-!
Magnitudes as rational numbers. What rounds to a magnitude is at most half of the gap to its neighbour
away from it, and what is less than half of the gap away rounds to it, except below a power of two,
where the gap is only half as wide.
-/

namespace GeoQuery

section

variable {num den n : Nat}

theorem roundHalfEven_of_near (above : 2 * n * den < 2 * num + den)
    (below : 2 * num < (2 * n + 1) * den) : roundHalfEven num den = n := by
  have parts := Nat.div_add_mod num den
  have positive : 0 < den := by
    apply Nat.pos_of_ne_zero
    rintro rfl
    omega
  have remainder := Nat.mod_lt num positive
  simp only [roundHalfEven]
  generalize num / den = quotient at *
  generalize num % den = rest at *
  subst parts
  have le : quotient ≤ n := by
    by_contra far
    have := Nat.mul_le_mul_left den (show n + 1 ≤ quotient by omega)
    linarith
  have le_succ : n ≤ quotient + 1 := by
    by_contra far
    have := Nat.mul_le_mul_left den (show quotient + 2 ≤ n by omega)
    linarith
  obtain rfl | rfl : n = quotient ∨ n = quotient + 1 := by omega
  · rw [if_pos (.inl (by linarith))]
  · rw [if_neg]
    rintro (low | ⟨half, -⟩) <;> linarith

theorem roundHalfEven_near (num : Nat) (positive : 0 < den) :
    2 * roundHalfEven num den * den ≤ 2 * num + den ∧
      2 * num ≤ (2 * roundHalfEven num den + 1) * den := by
  have parts := Nat.div_add_mod num den
  have remainder := Nat.mod_lt num positive
  simp only [roundHalfEven]
  generalize num / den = quotient at *
  generalize num % den = rest at *
  subst parts
  split
  case isTrue low =>
    have : 2 * rest ≤ den := by omega
    constructor <;> linarith
  case isFalse high =>
    have : den ≤ 2 * rest := by omega
    constructor <;> linarith

end

namespace Magnitude

theorem mantissa_lt (x : Magnitude) : x.mantissa < 0x20000000000000 := by
  simp only [mantissa, scale]
  omega

theorem scale_eq_zero_or_le_mantissa (x : Magnitude) :
    x.scale = 0 ∨ 0x10000000000000 ≤ x.mantissa := by
  simp only [mantissa, scale]
  omega

theorem rank_eq (x : Magnitude) : x.scale * 0x10000000000000 + x.mantissa = x.rank := by
  simp only [mantissa, scale]
  omega

theorem rankOfUnits_of_near {num den mantissa scale : Nat}
    (low : scale = 0 ∨ 0x10000000000000 * 2 ^ scale * den ≤ num)
    (high : mantissa < 0x20000000000000)
    (above : 2 * mantissa * (den * 2 ^ scale) < 2 * num + den * 2 ^ scale)
    (below : 2 * num < (2 * mantissa + 1) * (den * 2 ^ scale)) :
    rankOfUnits num den = scale * 0x10000000000000 + mantissa := by
  have positive : 0 < den := by
    apply Nat.pos_of_ne_zero
    rintro rfl
    simp at below
  have quotient : num / den < 2 ^ (53 + scale) := by
    rw [Nat.div_lt_iff_lt_mul positive, Nat.pow_add]
    have := Nat.mul_le_mul_right (den * 2 ^ scale)
      (show 2 * mantissa + 1 ≤ 2 * 0x20000000000000 by omega)
    nlinarith
  -- The bounds fix the binary length of the quotient, and the length fixes the dropped digits.
  have dropped : Nat.log2 (num / den) - 52 = scale := by
    rcases low with rfl | low
    · by_cases zero : num / den = 0
      · simp [zero]
      · have := (Nat.log2_lt zero).2 quotient
        omega
    · have kept : 2 ^ (52 + scale) ≤ num / den := by
        rw [Nat.le_div_iff_mul_le positive, Nat.pow_add]
        exact low
      have nonzero : num / den ≠ 0 := by
        have := Nat.pow_pos (n := 52 + scale) (show 0 < 2 by decide)
        omega
      have log : Nat.log2 (num / den) = 52 + scale := by
        rw [Nat.log2_eq_iff nonzero]
        exact ⟨kept, by rwa [show 52 + scale + 1 = 53 + scale by omega]⟩
      omega
  simp only [rankOfUnits, Nat.pow_eq, dropped, roundHalfEven_of_near above below]

/-- A ratio is at most half of the gap behind a magnitude away from the magnitude that it rounds
to. -/
theorem near_of_rankOfUnits {num den : Nat} (positive : 0 < den) {x : Magnitude}
    (h : rankOfUnits num den = x.rank) :
    2 * x.mantissa * (den * 2 ^ x.scale) ≤ 2 * num + den * 2 ^ x.scale ∧
      2 * num ≤ (2 * x.mantissa + 1) * (den * 2 ^ x.scale) := by
  obtain ⟨dropped, hdropped⟩ : ∃ dropped, Nat.log2 (num / den) - 52 = dropped := ⟨_, rfl⟩
  obtain ⟨kept, hkept⟩ : ∃ kept, roundHalfEven num (den * 2 ^ dropped) = kept := ⟨_, rfl⟩
  have rank : dropped * 0x10000000000000 + kept = x.rank := by
    rw [← h]
    simp only [rankOfUnits, Nat.pow_eq, hdropped, hkept]
  have most := rankOfUnits_le num den
  have least : dropped = 0 ∨ 0x10000000000000 ≤ kept := by
    rcases Nat.eq_zero_or_pos dropped with zero | some
    · exact .inl zero
    · have := le_rankOfUnits_of_dropped
        (show Nat.log2 (num / den) = (dropped - 1) + 53 by omega)
      right
      omega
  rw [hdropped] at most
  obtain ⟨above, below⟩ := roundHalfEven_near num
    (Nat.mul_pos positive (Nat.pow_pos (n := dropped) (show 0 < 2 by decide)))
  rw [hkept] at above below
  have place := x.rank_eq
  have high := x.mantissa_lt
  have normal := x.scale_eq_zero_or_le_mantissa
  -- A carry out of the kept digits lands on the first magnitude of the next scale.
  by_cases carry : kept = 0x20000000000000
  · obtain ⟨scale, mantissa⟩ : x.scale = dropped + 1 ∧ x.mantissa = 0x10000000000000 := by omega
    subst carry
    rw [scale, mantissa, Nat.pow_succ]
    constructor <;> linarith
  · obtain ⟨scale, mantissa⟩ : x.scale = dropped ∧ x.mantissa = kept := by omega
    rw [scale, mantissa]
    exact ⟨above, below⟩

/-- The value as a rational number. -/
def value (x : Magnitude) : ℚ := x.numerator / x.denominator

/-- The distance to the next larger magnitude. -/
def gap (x : Magnitude) : ℚ := 2 ^ x.scale / unitsPerOne

variable (x : Magnitude)

theorem gap_pos : 0 < x.gap :=
  div_pos (pow_pos two_pos _) (Nat.cast_pos.2 unitsPerOne_pos)

theorem value_eq_mantissa_mul_gap : x.value = x.mantissa * x.gap := by
  have units : (x.numerator : ℚ) * unitsPerOne = x.mantissa * 2 ^ x.scale * x.denominator := by
    have same := x.numerator_mul_unitsPerOne
    rw [Magnitude.units, Nat.pow_eq] at same
    exact_mod_cast same
  have denominator : (x.denominator : ℚ) ≠ 0 := Nat.cast_ne_zero.2 x.denominator_pos.ne'
  have unit : (unitsPerOne : ℚ) ≠ 0 := Nat.cast_ne_zero.2 unitsPerOne_pos.ne'
  rw [value, gap, mul_div_assoc', div_eq_div_iff denominator unit, units]

@[simp] theorem value_zero : zero.value = 0 := by
  rw [value_eq_mantissa_mul_gap, show zero.mantissa = 0 from rfl, Nat.cast_zero, zero_mul]

theorem numerator_eq_of_value_eq {x : Magnitude} {n : Nat} (h : x.value = n) :
    x.numerator = n * x.denominator := by
  rw [value, div_eq_iff (Nat.cast_ne_zero.2 x.denominator_pos.ne')] at h
  exact_mod_cast h

theorem value_nonneg : 0 ≤ x.value := by
  rw [value_eq_mantissa_mul_gap]
  exact mul_nonneg (Nat.cast_nonneg _) x.gap_pos.le

theorem value_lt_mul_gap : x.value < 0x20000000000000 * x.gap := by
  rw [value_eq_mantissa_mul_gap]
  exact mul_lt_mul_of_pos_right (by exact_mod_cast x.mantissa_lt) x.gap_pos

theorem mul_gap_le_value {x : Magnitude} {n : Nat} (h : n ≤ x.mantissa) : n * x.gap ≤ x.value := by
  rw [value_eq_mantissa_mul_gap]
  exact mul_le_mul_of_nonneg_right (Nat.cast_le.2 h) x.gap_pos.le

theorem value_pos {x : Magnitude} (h : x ≠ .zero) : 0 < x.value := by
  refine lt_of_le_of_ne x.value_nonneg fun zero => h ?_
  rw [value_eq_mantissa_mul_gap, eq_comm, mul_eq_zero, or_iff_left x.gap_pos.ne',
    Nat.cast_eq_zero] at zero
  have place := x.rank_eq
  have normal := x.scale_eq_zero_or_le_mantissa
  cases x
  simp only [Magnitude.zero, default, mk.injEq]
  simp only at place
  omega

end Magnitude

end GeoQuery
