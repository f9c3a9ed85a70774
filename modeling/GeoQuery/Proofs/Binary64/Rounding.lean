import GeoQuery.Decimal.Nearest
import Mathlib.Data.Nat.Log

/-!
Laws of rounding: it depends on a ratio and not on its terms, it keeps order, and it leaves every
magnitude of the format as it is.
-/

namespace GeoQuery

theorem roundHalfEven_mul_left {k : Nat} (hk : 0 < k) (num den : Nat) :
    roundHalfEven (k * num) (k * den) = roundHalfEven num den := by
  have twice : 2 * (k * (num % den)) = k * (2 * (num % den)) := Nat.mul_left_comm _ _ _
  simp only [roundHalfEven, Nat.mul_div_mul_left _ _ hk, Nat.mul_mod_mul_left, twice,
    Nat.mul_lt_mul_left hk, Nat.mul_right_inj (Nat.ne_of_gt hk)]

theorem roundHalfEven_le_succ (num den : Nat) : roundHalfEven num den ≤ num / den + 1 := by
  simp only [roundHalfEven]
  split <;> omega

theorem roundHalfEven_mono {num num' : Nat} (den : Nat) (h : num ≤ num') :
    roundHalfEven num den ≤ roundHalfEven num' den := by
  rcases Nat.lt_or_eq_of_le (Nat.div_le_div_right (c := den) h) with smaller | same
  · exact Nat.le_trans (roundHalfEven_le_succ num den)
      (Nat.le_trans smaller (Magnitude.le_roundHalfEven num' den))
  · have remainder : num % den ≤ num' % den := by
      have hnum := Nat.div_add_mod num den
      have hnum' := Nat.div_add_mod num' den
      rw [← same] at hnum'
      omega
    simp only [roundHalfEven, same]
    split
    · split <;> omega
    · split <;> omega

@[simp] theorem roundHalfEven_self_mul {den : Nat} (hden : 0 < den) (n : Nat) :
    roundHalfEven (n * den) den = n := by
  have remainder : n * den % den = 0 := Nat.mul_mod_left n den
  simp [roundHalfEven, Nat.mul_div_cancel n hden, remainder, hden]

namespace Magnitude

theorem rankOfUnits_mul_left {k : Nat} (hk : 0 < k) (num den : Nat) :
    rankOfUnits (k * num) (k * den) = rankOfUnits num den := by
  simp only [rankOfUnits, Nat.mul_div_mul_left _ _ hk, Nat.mul_assoc,
    roundHalfEven_mul_left hk]

theorem rankOfUnits_le (num den : Nat) :
    rankOfUnits num den ≤ (Nat.log2 (num / den) - 52 + 2) * 0x10000000000000 := by
  obtain ⟨dropped, hdropped⟩ : ∃ dropped, Nat.log2 (num / den) - 52 = dropped := ⟨_, rfl⟩
  have quotient : num / den < 2 ^ (dropped + 53) :=
    Nat.lt_of_lt_of_le Nat.lt_log2_self (Nat.pow_le_pow_right (by decide) (by omega))
  have kept : num / (den * 2 ^ dropped) < 2 ^ 53 := by
    rw [← Nat.div_div_eq_div_mul, Nat.div_lt_iff_lt_mul (Nat.pow_pos (by decide)),
      ← Nat.pow_add, Nat.add_comm 53]
    exact quotient
  have rounded := roundHalfEven_le_succ num (den * 2 ^ dropped)
  simp only [rankOfUnits, Nat.pow_eq, hdropped]
  omega

theorem le_rankOfUnits_of_dropped {num den dropped : Nat}
    (hdropped : Nat.log2 (num / den) = dropped + 53) :
    (dropped + 2) * 0x10000000000000 ≤ rankOfUnits num den := by
  have positive : num / den ≠ 0 := by
    intro hzero
    rw [hzero, Nat.log2_zero] at hdropped
    omega
  have kept : 2 ^ 52 ≤ num / (den * 2 ^ (dropped + 1)) := by
    rw [← Nat.div_div_eq_div_mul, Nat.le_div_iff_mul_le (Nat.pow_pos (by decide)),
      ← Nat.pow_add, show 52 + (dropped + 1) = dropped + 53 by omega, ← hdropped]
    exact Nat.log2_self_le positive
  have rounded := le_roundHalfEven num (den * 2 ^ (dropped + 1))
  have digits : Nat.log2 (num / den) - 52 = dropped + 1 := by omega
  simp only [rankOfUnits, Nat.pow_eq, digits]
  omega

theorem rankOfUnits_mono {num num' : Nat} (den : Nat) (h : num ≤ num') :
    rankOfUnits num den ≤ rankOfUnits num' den := by
  have quotients : num / den ≤ num' / den := Nat.div_le_div_right h
  have logs : Nat.log2 (num / den) ≤ Nat.log2 (num' / den) := by
    rw [Nat.log2_eq_log_two, Nat.log2_eq_log_two]
    exact Nat.log_mono_right quotients
  by_cases same : Nat.log2 (num / den) - 52 = Nat.log2 (num' / den) - 52
  · simp only [rankOfUnits, same]
    exact Nat.add_le_add_left (roundHalfEven_mono _ h) _
  · obtain ⟨dropped, hdropped⟩ :=
      Nat.exists_eq_add_of_le (show 53 ≤ Nat.log2 (num' / den) by omega)
    have upper := rankOfUnits_le num den
    have lower := le_rankOfUnits_of_dropped (hdropped.trans (Nat.add_comm 53 dropped))
    refine Nat.le_trans upper (Nat.le_trans (Nat.mul_le_mul_right _ ?_) lower)
    omega

theorem rankOfUnits_le_of_ratio_le {num den num' den' : Nat} (hden : 0 < den) (hden' : 0 < den')
    (h : num * den' ≤ num' * den) : rankOfUnits num den ≤ rankOfUnits num' den' := by
  calc rankOfUnits num den
      = rankOfUnits (num * den') (den * den') := by
        rw [Nat.mul_comm num, Nat.mul_comm den, rankOfUnits_mul_left hden']
    _ ≤ rankOfUnits (num' * den) (den * den') := rankOfUnits_mono _ h
    _ = rankOfUnits num' den' := by
        rw [Nat.mul_comm num', rankOfUnits_mul_left hden]

theorem rankOfUnits_mantissa {mantissa scale : Nat} (hlow : scale = 0 ∨ 0x10000000000000 ≤ mantissa)
    (hhigh : mantissa < 0x20000000000000) :
    rankOfUnits (mantissa * 2 ^ scale) 1 = scale * 0x10000000000000 + mantissa := by
  have dropped : Nat.log2 (mantissa * 2 ^ scale) - 52 = scale := by
    rcases hlow with rfl | hlow
    · have small : Nat.log2 mantissa < 53 ∨ mantissa = 0 := by
        by_cases hzero : mantissa = 0
        · exact .inr hzero
        · exact .inl ((Nat.log2_lt hzero).2 hhigh)
      rcases small with small | rfl
      · rw [Nat.pow_zero, Nat.mul_one]
        omega
      · simp
    · have positive : mantissa * 2 ^ scale ≠ 0 :=
        Nat.mul_ne_zero (by omega) (Nat.ne_of_gt (Nat.pow_pos (by decide)))
      have log : Nat.log2 (mantissa * 2 ^ scale) = 52 + scale := by
        rw [Nat.log2_eq_iff positive, Nat.pow_add, show 52 + scale + 1 = 53 + scale by omega,
          Nat.pow_add]
        exact ⟨Nat.mul_le_mul_right _ hlow,
          Nat.mul_lt_mul_of_pos_right hhigh (Nat.pow_pos (by decide))⟩
      omega
  simp only [rankOfUnits, Nat.div_one, Nat.one_mul, Nat.pow_eq, dropped,
    roundHalfEven_self_mul (Nat.pow_pos (show 0 < 2 by decide))]

theorem rankOfUnits_units (x : Magnitude) : rankOfUnits x.units 1 = x.rank := by
  have place : x.scale * 0x10000000000000 + x.mantissa = x.rank := by
    simp only [mantissa, scale]
    omega
  have low : x.scale = 0 ∨ 0x10000000000000 ≤ x.mantissa := by
    simp only [mantissa, scale]
    omega
  have high : x.mantissa < 0x20000000000000 := by
    simp only [mantissa, scale]
    omega
  rw [units, Nat.pow_eq, rankOfUnits_mantissa low high, place]

theorem denominator_pos (x : Magnitude) : 0 < x.denominator := by
  rw [denominator, Nat.pow_eq]
  exact Nat.pow_pos (by decide)

theorem unitsPerOne_pos : 0 < unitsPerOne := by
  obtain ⟨places, -, units⟩ := unitsPerOne_eq
  rw [units, Nat.pow_eq]
  exact Nat.pow_pos (by decide)

theorem numerator_mul_unitsPerOne (x : Magnitude) :
    x.numerator * unitsPerOne = x.units * x.denominator := by
  obtain ⟨places, hplaces, hunits⟩ := unitsPerOne_eq
  rw [hunits, units, numerator, denominator, ← hplaces]
  have exponents : x.scale - places + places = x.scale + (places - x.scale) := by omega
  simp only [Nat.pow_eq, Nat.mul_assoc, ← Nat.pow_add, exponents]

theorem ofRatio?_self (x : Magnitude) : ofRatio? x.numerator x.denominator = some x := by
  have rank : rankOfUnits (x.numerator * unitsPerOne) x.denominator = x.rank := by
    rw [numerator_mul_unitsPerOne, ← rankOfUnits_units, Nat.mul_comm]
    simpa using rankOfUnits_mul_left x.denominator_pos x.units 1
  simp only [ofRatio?, rank, x.rank_lt, dite_true]

theorem rank_of_ofRatio? {num den : Nat} {x : Magnitude} (h : ofRatio? num den = some x) :
    rankOfUnits (num * unitsPerOne) den = x.rank := by
  simp only [ofRatio?] at h
  split at h
  · cases h; rfl
  · cases h

/-- A ratio below one that is in range is in range, and rounds to no larger magnitude. -/
theorem ofRatio?_mono {num den num' den' : Nat} {y : Magnitude} (hden : 0 < den)
    (hden' : 0 < den') (h : num * den' ≤ num' * den) (hy : ofRatio? num' den' = some y) :
    ∃ x, ofRatio? num den = some x ∧ x.rank ≤ y.rank := by
  have ranks : rankOfUnits (num * unitsPerOne) den ≤ rankOfUnits (num' * unitsPerOne) den' := by
    apply rankOfUnits_le_of_ratio_le hden hden'
    calc num * unitsPerOne * den' = num * den' * unitsPerOne := Nat.mul_right_comm _ _ _
      _ ≤ num' * den * unitsPerOne := Nat.mul_le_mul_right _ h
      _ = num' * unitsPerOne * den := Nat.mul_right_comm _ _ _
  rw [rank_of_ofRatio? hy] at ranks
  have bound := y.rank_lt
  refine ⟨⟨rankOfUnits (num * unitsPerOne) den, by omega⟩, ?_, ranks⟩
  simp only [ofRatio?]
  exact dif_pos (by omega)

theorem ofRatio?_congr {num den num' den' : Nat} (hden : 0 < den) (hden' : 0 < den')
    (h : num * den' = num' * den) : ofRatio? num den = ofRatio? num' den' := by
  have scaled : ∀ k, 0 < k → ∀ n d, ofRatio? (k * n) (k * d) = ofRatio? n d := by
    intro k hk n d
    simp only [ofRatio?, Nat.mul_assoc, rankOfUnits_mul_left hk]
  rw [← scaled den' hden' num den, ← scaled den hden num' den', Nat.mul_comm den', h,
    Nat.mul_comm num', Nat.mul_comm den' den]

theorem units_mono {x y : Magnitude} (h : x.rank ≤ y.rank) : x.units ≤ y.units := by
  apply Nat.le_of_not_lt
  intro less
  have ranks := rankOfUnits_mono 1 (Nat.le_of_lt less)
  rw [rankOfUnits_units, rankOfUnits_units] at ranks
  have same : x = y := by
    cases x; cases y
    simp only [mk.injEq]
    exact Nat.le_antisymm h ranks
  subst same
  exact Nat.lt_irrefl _ less

theorem value_mono {x y : Magnitude} (h : x.rank ≤ y.rank) :
    x.numerator * y.denominator ≤ y.numerator * x.denominator := by
  apply Nat.le_of_mul_le_mul_right _ unitsPerOne_pos
  calc x.numerator * y.denominator * unitsPerOne
      = x.units * x.denominator * y.denominator := by
        rw [Nat.mul_right_comm, numerator_mul_unitsPerOne]
    _ ≤ y.units * x.denominator * y.denominator :=
        Nat.mul_le_mul_right _ (Nat.mul_le_mul_right _ (units_mono h))
    _ = y.numerator * x.denominator * unitsPerOne := by
        rw [Nat.mul_right_comm y.units, ← numerator_mul_unitsPerOne, Nat.mul_right_comm]

end Magnitude

end GeoQuery
