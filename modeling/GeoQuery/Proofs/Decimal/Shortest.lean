import GeoQuery.Proofs.Decimal.Rational
import GeoQuery.Proofs.Decimal.Token

/-!
The search for the shortest decimal. The order of a magnitude is the power of ten above it, so the two
points that are tried for a digit count are its neighbours among the decimals of that many digits. If
any such decimal is read as the magnitude then one of its neighbours is, and among the decimals of
seventeen digits there always is one.
-/

namespace GeoQuery.Decimal

section

variable {num den : Nat}

theorem leadingZeros_spec (fuel : Nat) (below : num < den) (enough : den ≤ num * 10 ^ fuel) :
    num * 10 ^ leadingZeros num den fuel < den ∧
      den ≤ num * 10 ^ (leadingZeros num den fuel + 1) := by
  induction fuel generalizing num with
  | zero => omega
  | succ fuel ih =>
      rw [leadingZeros]
      split
      case isTrue reached => omega
      case isFalse small =>
        obtain ⟨above, top⟩ := @ih (10 * num) (by omega)
          (by rw [Nat.pow_succ] at enough; linarith)
        rw [Nat.pow_succ] at top ⊢
        rw [Nat.pow_succ, Nat.pow_succ]
        constructor <;> linarith

theorem order_spec (positive : 0 < den) (enough : den ≤ num * 10 ^ 400) :
    (10 : ℚ) ^ (order num den - 1) ≤ num / den ∧ (num : ℚ) / den < 10 ^ order num den := by
  have denominator : (0 : ℚ) < den := Nat.cast_pos.2 positive
  rw [order]
  split
  case isTrue le =>
    obtain ⟨digits, length⟩ : ∃ digits, (Nat.toDigits 10 (num / den)).length = digits + 1 :=
      Nat.exists_eq_add_of_le' Nat.length_toDigits_pos
    have below : num / den < 10 ^ (digits + 1) :=
      (Nat.length_toDigits_le_iff (by decide) digits.succ_pos).1 length.le
    have above : 10 ^ digits ≤ num / den := by
      rcases Nat.eq_zero_or_pos digits with rfl | some
      · exact Nat.div_pos le positive
      · by_contra short
        have := (Nat.length_toDigits_le_iff (by decide) some).2 (Nat.lt_of_not_le short)
        omega
    rw [Nat.le_div_iff_mul_le positive] at above
    rw [Nat.div_lt_iff_lt_mul positive] at below
    rw [length, Nat.cast_succ, add_sub_cancel_right, ← Nat.cast_succ, zpow_natCast, zpow_natCast,
      le_div_iff₀ denominator, div_lt_iff₀ denominator]
    exact_mod_cast And.intro above below
  case isFalse lt =>
    obtain ⟨above, below⟩ := leadingZeros_spec 400 (Nat.lt_of_not_le lt) enough
    generalize leadingZeros num den 400 = zeros at *
    rw [← neg_add', ← Nat.cast_succ, zpow_neg, zpow_neg, zpow_natCast, zpow_natCast,
      le_div_iff₀ denominator, div_lt_iff₀ denominator, inv_mul_le_iff₀ (by positivity),
      lt_inv_mul_iff₀ (by positivity), mul_comm, mul_comm (10 ^ zeros : ℚ)]
    exact_mod_cast And.intro below above

end

section

variable {num den : Nat} {exponent : Int} {d : Decimal}

theorem natCast_mul_le_iff (positive : 0 < den) (k : Nat) :
    k * (10 : ℚ) ^ exponent ≤ num / den ↔ k ≤ (bracket num den exponent).lower.coefficient := by
  have denominator : (0 : ℚ) < den := Nat.cast_pos.2 positive
  have tens (n : Nat) : 0 < 10 ^ n := Nat.pow_pos (by decide)
  simp only [bracket, Nat.pow_eq]
  rw [ten_zpow, Nat.le_div_iff_mul_le (Nat.mul_pos positive (tens _)), mul_div_assoc',
    div_le_div_iff₀ (by positivity) denominator, ← Nat.cast_le (α := ℚ)]
  push_cast
  constructor <;> intro h <;> linarith

theorem bracket_lower_le (positive : 0 < den) : (bracket num den exponent).lower.value ≤ num / den :=
  (natCast_mul_le_iff positive _).2 le_rfl

theorem lt_bracket_upper (positive : 0 < den) : num / den < (bracket num den exponent).upper.value :=
  lt_of_not_ge fun h => Nat.not_succ_le_self _ ((natCast_mul_le_iff positive _).1 h)

theorem le_bracket_lower (positive : 0 < den) (grid : exponent ≤ d.exponent)
    (h : d.value ≤ num / den) : d.value ≤ (bracket num den exponent).lower.value := by
  rw [value_eq_natCast_mul grid] at h ⊢
  exact mul_le_mul_of_nonneg_right
    (Nat.cast_le.2 ((natCast_mul_le_iff positive _).1 h)) (ten_zpow_pos _).le

theorem bracket_upper_le (positive : 0 < den) (grid : exponent ≤ d.exponent)
    (h : num / den < d.value) : (bracket num den exponent).upper.value ≤ d.value := by
  rw [value_eq_natCast_mul grid] at h ⊢
  refine mul_le_mul_of_nonneg_right (Nat.cast_le.2 ?_) (ten_zpow_pos _).le
  exact Nat.lt_of_not_le fun le => absurd ((natCast_mul_le_iff positive _).2 le) (not_le.2 h)

theorem bracket_width :
    (bracket num den exponent).upper.value = (bracket num den exponent).lower.value + 10 ^ exponent := by
  simp only [bracket, value]
  push_cast
  ring

end

theorem Bracket.exists_denoting?_iff {tie : Tie} {x : Magnitude} {b : Bracket} :
    (∃ d, b.denoting? tie x = some d) ↔ b.lower.ReadsAs x ∨ b.upper.ReadsAs x := by
  rw [denoting?]
  split
  case isTrue lower => split <;> simp [lower]
  case isFalse => split <;> simp [*]

variable {x : Magnitude} {d : Decimal}

def orderOf (x : Magnitude) : Int := order x.numerator x.denominator

/-- The two decimals of so many digits around a magnitude. -/
def around (x : Magnitude) (digits : Nat) : Bracket :=
  bracket x.numerator x.denominator (orderOf x - digits)

theorem orderOf_spec (h : x ≠ .zero) :
    (10 : ℚ) ^ (orderOf x - 1) ≤ x.value ∧ x.value < 10 ^ orderOf x := by
  have numerator : 0 < x.numerator := by
    have positive := Magnitude.value_pos h
    rw [Magnitude.value, div_pos_iff_of_pos_right (Nat.cast_pos.2 x.denominator_pos)] at positive
    exact_mod_cast positive
  obtain ⟨zeros, hzeros⟩ : ∃ zeros, zeros = 400 := ⟨_, rfl⟩
  refine order_spec x.denominator_pos ?_
  calc x.denominator ≤ 2 ^ (3 * zeros) := by
        rw [Magnitude.denominator, Nat.pow_eq]
        exact Nat.pow_le_pow_right (by decide) (by omega)
    _ ≤ 10 ^ zeros := two_pow_le_ten_pow zeros
    _ ≤ x.numerator * 10 ^ 400 := hzeros ▸ Nat.le_mul_of_pos_left _ numerator

theorem around_lower_coefficient_lt (h : x ≠ .zero) (digits : Nat) :
    (around x digits).lower.coefficient < 10 ^ digits := by
  have below := (orderOf_spec h).2
  apply Nat.lt_of_not_le
  intro many
  have := (natCast_mul_le_iff x.denominator_pos _).2 many
  rw [← Magnitude.value, Nat.cast_pow, ← zpow_natCast, Nat.cast_ofNat, ← zpow_add₀ (by norm_num),
    add_sub_cancel] at this
  linarith

theorem value_le_of_finer {digits : Nat} (few : d.coefficient < 10 ^ digits)
    (finer : d.exponent < orderOf x - digits) : d.value ≤ (⟨1, orderOf x - 1⟩ : Decimal).value := by
  rw [value_one]
  exact (value_lt_of_coefficient_lt few).le.trans (zpow_le_zpow_right₀ (by norm_num) (by omega))

theorem le_around_lower (h : x ≠ .zero) {digits : Nat} (some : 0 < digits)
    (few : d.coefficient < 10 ^ digits) (side : d.value ≤ x.value) :
    d.value ≤ (around x digits).lower.value := by
  by_cases grid : orderOf x - digits ≤ d.exponent
  · exact le_bracket_lower x.denominator_pos grid side
  · have least : (⟨1, orderOf x - 1⟩ : Decimal).value ≤ x.value := by
      rw [value_one]
      exact (orderOf_spec h).1
    calc d.value ≤ (⟨1, orderOf x - 1⟩ : Decimal).value := value_le_of_finer few (lt_of_not_ge grid)
      _ ≤ (around x digits).lower.value :=
          le_bracket_lower x.denominator_pos (by dsimp only; omega) least

theorem around_upper_le (h : x ≠ .zero) {digits : Nat} (few : d.coefficient < 10 ^ digits)
    (side : x.value < d.value) : (around x digits).upper.value ≤ d.value := by
  apply bracket_upper_le x.denominator_pos _ side
  by_contra finer
  have least := (orderOf_spec h).1
  have below := value_le_of_finer few (lt_of_not_ge finer)
  rw [value_one] at below
  linarith

/-- If a decimal of so many digits is read as the magnitude, then so is the neighbour on its side, which
is at least as near. -/
theorem around_lower_readsAs (h : x ≠ .zero) {digits : Nat} (some : 0 < digits) (hd : d.ReadsAs x)
    (few : d.coefficient < 10 ^ digits) (side : d.value ≤ x.value) :
    (around x digits).lower.ReadsAs x :=
  hd.between (exact_readsAs x) (le_around_lower h some few side)
    ((bracket_lower_le x.denominator_pos).trans_eq (value_exact x).symm)

theorem around_upper_readsAs (h : x ≠ .zero) {digits : Nat} (hd : d.ReadsAs x)
    (few : d.coefficient < 10 ^ digits) (side : x.value < d.value) :
    (around x digits).upper.ReadsAs x :=
  (exact_readsAs x).between hd
    ((value_exact x).trans_lt (lt_bracket_upper x.denominator_pos)).le (around_upper_le h few side)

theorem around_readsAs (h : x ≠ .zero) {digits : Nat} (some : 0 < digits) (hd : d.ReadsAs x)
    (few : d.coefficient < 10 ^ digits) :
    (around x digits).lower.ReadsAs x ∨ (around x digits).upper.ReadsAs x := by
  by_cases side : d.value ≤ x.value
  · exact .inl (around_lower_readsAs h some hd few side)
  · exact .inr (around_upper_readsAs h hd few (lt_of_not_ge side))

/-- Seventeen digits are enough: the neighbours are less than a gap apart, and less than half of one
behind a power of two. -/
theorem around_seventeen_readsAs (h : x ≠ .zero) :
    (around x 17).lower.ReadsAs x ∨ (around x 17).upper.ReadsAs x := by
  have lower : (around x 17).lower.value ≤ x.value := bracket_lower_le x.denominator_pos
  have upper : x.value < (around x 17).upper.value := lt_bracket_upper x.denominator_pos
  have width : (around x 17).upper.value = (around x 17).lower.value + 10 ^ (orderOf x - 17) :=
    bracket_width
  have fine : 10 ^ (orderOf x - 17) * 10 ^ 16 ≤ x.value := by
    rw [← zpow_natCast (10 : ℚ) 16, ← zpow_add₀ (by norm_num)]
    convert (orderOf_spec h).1 using 2
    omega
  generalize (10 : ℚ) ^ (orderOf x - 17) = step at width fine
  have gap := x.gap_pos
  have coarse := x.value_lt_mul_gap
  -- The step is less than the gap. If the upper neighbour is half of the gap away, then the lower one
  -- is nearer than that; at a power of two the step is too fine for the upper one to be so far.
  by_cases side : (around x 17).upper.value < x.value + x.gap / 2
  · exact .inr (readsAs_of_near (by linarith) side (.inl upper.le))
  · refine .inl (readsAs_of_near (by linarith) (by linarith) (.inr ?_))
    by_contra power
    obtain ⟨scale, small⟩ := not_or.1 power
    have mantissa : x.mantissa = 0x10000000000000 :=
      Nat.le_antisymm (Nat.le_of_not_lt small) (x.scale_eq_zero_or_le_mantissa.resolve_left scale)
    have value := x.value_eq_mantissa_mul_gap
    rw [mantissa, Nat.cast_ofNat] at value
    linarith

theorem denoting?_of_readsAs (tie : Tie) (h : x ≠ .zero) {digits : Nat} (some : 0 < digits)
    (hd : d.ReadsAs x) (few : d.coefficient < 10 ^ digits) :
    ∃ e, (around x digits).denoting? tie x = .some e :=
  Bracket.exists_denoting?_iff.2 (around_readsAs h some hd few)

theorem exists_shortest (tie : Tie) (h : x ≠ .zero) :
    ∃ digits d, 0 < digits ∧ digits ≤ 17 ∧ (around x digits).denoting? tie x = some d ∧
      (∀ fewer, 0 < fewer → fewer < digits → (around x fewer).denoting? tie x = none) ∧
      shortest tie x = trim 20 d := by
  obtain ⟨e, last⟩ : ∃ e, (around x 17).denoting? tie x = some e :=
    Bracket.exists_denoting?_iff.2 (around_seventeen_readsAs h)
  obtain ⟨d, found⟩ : ∃ d,
      (List.range' 1 17).findSome? (fun digits => (around x digits).denoting? tie x) = some d := by
    rw [← Option.isSome_iff_exists, List.findSome?_isSome_iff]
    exact ⟨17, by decide, by simp [last]⟩
  have result : shortest tie x = trim 20 d := by
    have : shortest tie x = trim 20 (((List.range' 1 17).findSome? fun digits =>
      (around x digits).denoting? tie x).getD (exact x)) := rfl
    rw [this, found, Option.getD_some]
  obtain ⟨before, digits, after, split, denoting, none⟩ := List.findSome?_eq_some_iff.1 found
  obtain ⟨count, le, rfl, rest⟩ := List.range'_eq_append_iff.1 split
  obtain ⟨rfl, more, -⟩ := List.range'_eq_cons_iff.1 rest.symm
  refine ⟨_, d, by omega, by omega, denoting, ?_, result⟩
  intro fewer some below
  exact none fewer (List.mem_range'_1.2 (by omega))

theorem trim_coefficient {fuel : Nat} (positive : 0 < d.coefficient)
    (few : d.coefficient < 10 ^ fuel) : (trim fuel d).coefficient % 10 ≠ 0 := by
  induction fuel generalizing d with
  | zero => omega
  | succ fuel ih =>
      rw [trim]
      split
      case isTrue zero =>
        rw [Nat.pow_succ] at few
        exact ih (by dsimp only; omega) (by dsimp only; omega)
      case isFalse nonzero => exact nonzero

theorem denoting?_coefficient_le {tie : Tie} (h : x ≠ .zero) {digits : Nat}
    (denoting : (around x digits).denoting? tie x = some d) : d.coefficient ≤ 10 ^ digits := by
  have lower := around_lower_coefficient_lt h digits
  have next : (around x digits).upper.coefficient = (around x digits).lower.coefficient + 1 := rfl
  rcases Bracket.denoting?_mem denoting with rfl | rfl <;> omega

theorem shortest_coefficient (tie : Tie) (h : x ≠ .zero) :
    (shortest tie x).coefficient % 10 ≠ 0 := by
  obtain ⟨digits, d, -, le, denoting, -, result⟩ := exists_shortest tie h
  rw [result]
  apply trim_coefficient
  · exact coefficient_pos_of_readsAs (Bracket.denoting?_readsAs denoting) h
  · calc d.coefficient ≤ 10 ^ digits := denoting?_coefficient_le h denoting
      _ ≤ 10 ^ 17 := Nat.pow_le_pow_right (by decide) le
      _ < 10 ^ 20 := by decide

/-- Two decimals of at most fifteen digits that are read as the same magnitude have the same value,
except where magnitudes have fewer than 53 binary digits. -/
theorem value_eq_of_readsAs {e : Decimal} (normal : 0x10000000000000 ≤ x.mantissa)
    (hd : d.ReadsAs x) (he : e.ReadsAs x) (fewD : d.coefficient ≤ 10 ^ 15)
    (fewE : e.coefficient ≤ 10 ^ 15) : d.value = e.value := by
  wlog finer : d.exponent ≤ e.exponent generalizing d e
  · exact (this he hd fewE fewD (le_of_not_ge finer)).symm
  have gap := x.gap_pos
  have wide := Magnitude.mul_gap_le_value normal
  have step := ten_zpow_pos d.exponent
  have few : d.value ≤ 10 ^ 15 * 10 ^ d.exponent :=
    mul_le_mul_of_nonneg_right (by exact_mod_cast fewD) step.le
  have aboveD := hd.le_value
  have belowD := hd.value_le
  have aboveE := he.le_value
  have belowE := he.value_le
  have multiple := value_eq_natCast_mul finer
  have own := value_eq_natCast_mul (le_refl d.exponent)
  generalize e.coefficient * 10 ^ (e.exponent - d.exponent).toNat = m at multiple
  generalize d.coefficient * 10 ^ (d.exponent - d.exponent).toNat = n at own
  generalize (10 : ℚ) ^ d.exponent = unit at *
  push_cast at wide
  -- Different multiples of a unit are a unit apart, and the unit is wider than the gap.
  rcases Nat.lt_trichotomy n m with less | rfl | more
  · have apart : ((n + 1 : Nat) : ℚ) * unit ≤ m * unit :=
      mul_le_mul_of_nonneg_right (Nat.cast_le.2 less) step.le
    push_cast at apart
    linarith
  · rw [own, multiple]
  · have apart : ((m + 1 : Nat) : ℚ) * unit ≤ n * unit :=
      mul_le_mul_of_nonneg_right (Nat.cast_le.2 more) step.le
    push_cast at apart
    linarith

theorem shortest_value_eq (tie : Tie) (normal : 0x10000000000000 ≤ x.mantissa) (hd : d.ReadsAs x)
    (few : d.coefficient < 10 ^ 15) : (shortest tie x).value = d.value := by
  have nonzero : x ≠ .zero := by
    rintro rfl
    exact absurd normal (by decide)
  obtain ⟨digits, e, -, -, denoting, first, result⟩ := exists_shortest tie nonzero
  -- The search has passed fifteen digits, where the given decimal would have ended it.
  have le : digits ≤ 15 := by
    by_contra more
    obtain ⟨f, sooner⟩ := denoting?_of_readsAs tie nonzero (show 0 < 15 by decide) hd few
    rw [first 15 (by decide) (by omega)] at sooner
    cases sooner
  have short : e.coefficient ≤ 10 ^ 15 :=
    (denoting?_coefficient_le nonzero denoting).trans (Nat.pow_le_pow_right (by decide) le)
  rw [result, sameValue_iff_value_eq.1 (trim_sameValue 20 e)]
  exact value_eq_of_readsAs normal (Bracket.denoting?_readsAs denoting) hd short few.le

end GeoQuery.Decimal
