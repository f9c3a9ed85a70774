import GeoQuery.Proofs.Decimal.Shortest

/-!
The shortest decimal of a magnitude is the best one. No decimal of fewer digits is read as the magnitude,
and none of as many digits that is read as it is nearer to it: on each side of the magnitude its
neighbour in the grid is the nearest, and the search takes the nearer one of the two.
-/

namespace GeoQuery.Decimal

section

variable {num den : Nat} {exponent : Int}

/-- Where a ratio lies in its bracket: as far above the lower end as the remainder says, where the
divisor is the width. -/
theorem exists_bracket_offset (num : Nat) (exponent : Int) (positive : 0 < den) :
    ∃ (rest width : Nat) (unit : ℚ), 0 < unit ∧
      (bracket num den exponent).side = compare (2 * rest) width ∧
      (num : ℚ) / den = (bracket num den exponent).lower.value + rest * unit ∧
      (bracket num den exponent).upper.value =
        (bracket num den exponent).lower.value + width * unit := by
  obtain ⟨scaled, hscaled⟩ : ∃ scaled, scaled = num * 10 ^ (-exponent).toNat := ⟨_, rfl⟩
  obtain ⟨width, hwidth⟩ : ∃ width, width = den * 10 ^ exponent.toNat := ⟨_, rfl⟩
  have denominator : (0 : ℚ) < den := Nat.cast_pos.2 positive
  have wide : (0 : ℚ) < width := by
    rw [hwidth]
    exact Nat.cast_pos.2 (Nat.mul_pos positive (Nat.pow_pos (by decide)))
  have ratio : (num : ℚ) / den = scaled / width * 10 ^ exponent := by
    rw [ten_zpow, hscaled, hwidth]
    push_cast
    field_simp
  have parts : (width : ℚ) * (scaled / width : Nat) + (scaled % width : Nat) = scaled := by
    exact_mod_cast Nat.div_add_mod scaled width
  refine ⟨scaled % width, width, 10 ^ exponent / width, div_pos (ten_zpow_pos _) wide, ?_, ?_, ?_⟩
  · simp only [bracket, Nat.pow_eq, hscaled, hwidth]
  · simp only [bracket, value, Nat.pow_eq, ← hscaled, ← hwidth]
    rw [ratio, ← parts]
    field_simp
  · rw [bracket_width]
    field_simp

theorem bracket_nearer_le (positive : 0 < den) (tie : Tie) {d : Decimal}
    (isEnd : d = (bracket num den exponent).lower ∨ d = (bracket num den exponent).upper) :
    |((bracket num den exponent).nearer tie).value - num / den| ≤ |d.value - num / den| := by
  obtain ⟨rest, width, unit, wide, side, ratio, upper⟩ := exists_bracket_offset num exponent positive
  have below : (bracket num den exponent).lower.value ≤ num / den := bracket_lower_le positive
  have above : num / den ≤ (bracket num den exponent).upper.value := (lt_bracket_upper positive).le
  generalize bracket num den exponent = b at *
  have fromLower : |b.lower.value - num / den| = num / den - b.lower.value := by
    rw [abs_sub_comm, abs_of_nonneg (sub_nonneg.2 below)]
  have fromUpper : |b.upper.value - num / den| = b.upper.value - num / den :=
    abs_of_nonneg (sub_nonneg.2 above)
  obtain ⟨taken, low⟩ | ⟨taken, high⟩ := b.nearer_cases tie
  · have half : 2 * rest ≤ width := by
      rwa [side, ne_eq, Nat.compare_eq_gt, not_lt] at low
    have scaled : (2 * rest : ℚ) * unit ≤ width * unit :=
      mul_le_mul_of_nonneg_right (by exact_mod_cast half) wide.le
    rcases isEnd with rfl | rfl
    · rw [taken]
    · rw [taken, fromLower, fromUpper]
      linarith
  · have half : width ≤ 2 * rest := by
      rwa [side, ne_eq, Nat.compare_eq_lt, not_lt] at high
    have scaled : (width : ℚ) * unit ≤ 2 * rest * unit :=
      mul_le_mul_of_nonneg_right (by exact_mod_cast half) wide.le
    rcases isEnd with rfl | rfl
    · rw [taken, fromLower, fromUpper]
      linarith
    · rw [taken]

end

variable {x : Magnitude} {d e : Decimal}

theorem denoting?_nearest {tie : Tie} {digits : Nat}
    (denoting : (around x digits).denoting? tie x = some d)
    (isEnd : e = (around x digits).lower ∨ e = (around x digits).upper) (reads : e.ReadsAs x) :
    |d.value - x.value| ≤ |e.value - x.value| := by
  obtain ⟨rfl, -⟩ | ⟨rfl, -, other⟩ | ⟨rfl, other, -⟩ := Bracket.denoting?_cases denoting
  · exact bracket_nearer_le x.denominator_pos tie isEnd
  · obtain rfl | rfl := isEnd
    · exact le_rfl
    · exact absurd reads other
  · obtain rfl | rfl := isEnd
    · exact absurd reads other
    · exact le_rfl

theorem denoting?_le (h : x ≠ .zero) {tie : Tie} {digits : Nat} (some : 0 < digits)
    (denoting : (around x digits).denoting? tie x = .some d) (reads : e.ReadsAs x)
    (few : e.coefficient < 10 ^ digits) : |d.value - x.value| ≤ |e.value - x.value| := by
  by_cases side : e.value ≤ x.value
  · have below := le_around_lower h some few side
    have above : (around x digits).lower.value ≤ x.value := bracket_lower_le x.denominator_pos
    calc |d.value - x.value| ≤ |(around x digits).lower.value - x.value| :=
          denoting?_nearest denoting (.inl rfl) (around_lower_readsAs h some reads few side)
      _ = x.value - (around x digits).lower.value := by
          rw [abs_sub_comm, abs_of_nonneg (sub_nonneg.2 above)]
      _ ≤ x.value - e.value := sub_le_sub_left below _
      _ = |e.value - x.value| := by rw [abs_sub_comm, abs_of_nonneg (sub_nonneg.2 side)]
  · have side : x.value < e.value := lt_of_not_ge side
    have above := around_upper_le h few side
    have below : x.value < (around x digits).upper.value := lt_bracket_upper x.denominator_pos
    calc |d.value - x.value| ≤ |(around x digits).upper.value - x.value| :=
          denoting?_nearest denoting (.inr rfl) (around_upper_readsAs h reads few side)
      _ = (around x digits).upper.value - x.value := abs_of_pos (sub_pos.2 below)
      _ ≤ e.value - x.value := sub_le_sub_right above _
      _ = |e.value - x.value| := (abs_of_pos (sub_pos.2 side)).symm

/-- The value is that of a decimal of at most so many digits. -/
def Fits (d : Decimal) (digits : Nat) : Prop :=
  ∃ e : Decimal, e.coefficient < 10 ^ digits ∧ e.value = d.value

/-- Without a zero at the end the coefficient of a decimal is the least one for its value. -/
theorem coefficient_le_of_value_eq (needed : d.coefficient % 10 ≠ 0)
    (same : d.value = e.value) : d.coefficient ≤ e.coefficient := by
  by_cases coarser : e.exponent ≤ d.exponent
  · have multiple := value_eq_natCast_mul coarser
    rw [same, value, mul_left_inj' (ten_zpow_pos _).ne', Nat.cast_inj] at multiple
    rw [multiple]
    exact Nat.le_mul_of_pos_right _ (Nat.pow_pos (by decide))
  · obtain ⟨zeros, hzeros⟩ : ∃ zeros, (e.exponent - d.exponent).toNat = zeros + 1 :=
      Nat.exists_eq_add_of_le' (by omega)
    have multiple := value_eq_natCast_mul (lt_of_not_ge coarser).le
    rw [← same, value, mul_left_inj' (ten_zpow_pos _).ne', Nat.cast_inj, hzeros, Nat.pow_succ,
      ← Nat.mul_assoc] at multiple
    exact absurd (multiple ▸ Nat.mul_mod_left _ 10) needed

/-- The decimal has at most so many digits and is read as the magnitude. No decimal of fewer digits is,
and none of as many digits that is read as it is nearer to it. -/
structure IsShortest (d : Decimal) (x : Magnitude) (digits : Nat) : Prop where
  fits : d.Fits digits
  reads : d.ReadsAs x
  fewest : ∀ {e : Decimal} {count : Nat}, e.ReadsAs x → e.Fits count → digits ≤ count
  nearest : ∀ {e : Decimal}, e.ReadsAs x → e.Fits digits → |d.value - x.value| ≤ |e.value - x.value|

theorem IsShortest.of_sameValue {digits : Nat} (h : d.IsShortest x digits) (same : e.SameValue d) :
    e.IsShortest x digits := by
  have value := sameValue_iff_value_eq.1 same
  refine ⟨?_, (same.readsAs_iff x).2 h.reads, h.fewest, ?_⟩
  · rw [Fits, value]
    exact h.fits
  · rw [value]
    exact h.nearest

theorem denoting?_fits (h : x ≠ .zero) {tie : Tie} {digits : Nat} (some : 0 < digits)
    (denoting : (around x digits).denoting? tie x = .some d) : d.Fits digits := by
  obtain less | power := Nat.lt_or_eq_of_le (denoting?_coefficient_le h denoting)
  · exact ⟨d, less, rfl⟩
  · -- The upper neighbour may be the next power of ten, which has one digit.
    refine ⟨⟨1, d.exponent + digits⟩, Nat.one_lt_pow some.ne' (by decide), ?_⟩
    have shifted := sameValue_iff_value_eq.1 (sameValue_shift 1 digits d.exponent)
    rw [one_mul, ← power] at shifted
    exact shifted.symm

/-- The search ends with the shortest decimal. -/
theorem shortest_isShortest (tie : Tie) (h : x ≠ .zero) :
    ∃ digits, (shortest tie x).IsShortest x digits := by
  obtain ⟨digits, d, some, -, denoting, first, result⟩ := exists_shortest tie h
  have found : d.IsShortest x digits := by
    refine ⟨denoting?_fits h some denoting, Bracket.denoting?_readsAs denoting, ?_, ?_⟩
    · intro e count reads ⟨f, few, same⟩
      have reads : f.ReadsAs x := ((sameValue_iff_value_eq.2 same).readsAs_iff x).2 reads
      have positive : 0 < count := by
        apply Nat.pos_of_ne_zero
        rintro rfl
        exact Nat.ne_of_gt (coefficient_pos_of_readsAs reads h) (Nat.lt_one_iff.1 few)
      -- A smaller count would have ended the search sooner.
      by_contra fewer
      obtain ⟨g, sooner⟩ := denoting?_of_readsAs tie h positive reads few
      rw [first count positive (lt_of_not_ge fewer)] at sooner
      cases sooner
    · intro e reads ⟨f, few, same⟩
      have reads : f.ReadsAs x := ((sameValue_iff_value_eq.2 same).readsAs_iff x).2 reads
      rw [← same]
      exact denoting?_le h some denoting reads few
  exact ⟨digits, found.of_sameValue (result ▸ trim_sameValue 20 d)⟩

end GeoQuery.Decimal
