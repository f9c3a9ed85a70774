import GeoQuery.Proofs.Decimal.Minimal
import GeoQuery.Proofs.Json.Canonical

/-!
Significant digits. A numeral has as many as the shortest decimal of its value has digits. The token of
a number that is not a whole one below 2⁶³ has the fewest significant digits of all numerals that are
read as the number with correct rounding, and of those with as many none is nearer to the number.
-/

namespace GeoQuery

open Json (Numeral)

namespace Json.Numeral

/-- The digits of a numeral without the zeros in front of them and behind them. -/
def significant (n : Numeral) : List Char :=
  ((n.whole ++ n.fraction).dropWhile (· = '0')).rdropWhile (· = '0')

theorem exists_eq_zeros {digits : List Char} (h : ∀ c ∈ digits, decide (c = '0') = true) :
    ∃ count, digits = Decimal.zeros count :=
  ⟨_, List.eq_replicate_of_mem fun c member => of_decide_eq_true (h c member)⟩

variable {n : Numeral}

theorem exists_zeros_around (n : Numeral) : ∃ front back,
    n.whole ++ n.fraction = Decimal.zeros front ++ (n.significant ++ Decimal.zeros back) := by
  obtain ⟨front, leading⟩ : ∃ front,
      (n.whole ++ n.fraction).takeWhile (· = '0') = Decimal.zeros front :=
    exists_eq_zeros fun _ => List.mem_takeWhile_imp
  obtain ⟨back, trailing⟩ : ∃ back,
      ((n.whole ++ n.fraction).dropWhile (· = '0')).rtakeWhile (· = '0') = Decimal.zeros back :=
    exists_eq_zeros fun _ => List.mem_rtakeWhile_imp
  refine ⟨front, back, ?_⟩
  rw [significant, ← leading, ← trailing, List.rdropWhile_append_rtakeWhile,
    List.takeWhile_append_dropWhile]

/-- The value of a numeral is its significant digits, moved. -/
theorem exists_value_significant (n : Numeral) : ∃ exponent,
    n.exact.value = (⟨digitsValue n.significant, exponent⟩ : Decimal).value := by
  obtain ⟨front, back, row⟩ := n.exists_zeros_around
  have coefficient : n.exact.coefficient = digitsValue n.significant * 10 ^ back := by
    rw [exact, row, digitsValue_zeros, digitsValue_append_zeros]
  have shifted := Decimal.sameValue_shift (digitsValue n.significant) back n.exact.exponent
  rw [← coefficient] at shifted
  exact ⟨_, Decimal.sameValue_iff_value_eq.1 shifted⟩

theorem isDigit_of_mem_significant (h : n.WellFormed) : ∀ c ∈ n.significant, c.isDigit := by
  intro c member
  have inside : c ∈ n.whole ++ n.fraction :=
    (List.dropWhile_sublist _).subset ((List.rdropWhile_prefix _ _).subset member)
  exact (List.mem_append.1 inside).elim (h.whole_digits c) (h.fraction_digits c)

theorem significant_head {first : Char} {rest : List Char} (h : n.significant = first :: rest) :
    first ≠ '0' := by
  obtain ⟨back, split⟩ := List.rdropWhile_prefix (· = '0') ((n.whole ++ n.fraction).dropWhile (· = '0'))
  have head := List.head?_dropWhile_not (· = '0') (n.whole ++ n.fraction)
  rw [← split, show List.rdropWhile _ _ = first :: rest from h] at head
  simpa using head

theorem significant_last (nonempty : n.significant ≠ []) : n.significant.getLast? ≠ some '0' := by
  have last := List.rdropWhile_last_not (· = '0') _ nonempty
  rw [List.getLast?_eq_some_getLast nonempty]
  exact fun zero => last (decide_eq_true (Option.some.inj zero))

/-- A numeral has at most so many significant digits exactly if its value is that of a decimal of at
most so many digits. -/
theorem significant_length_le_iff (h : n.WellFormed) {digits : Nat} :
    n.significant.length ≤ digits ↔ n.exact.Fits digits := by
  have row := isDigit_of_mem_significant h
  obtain ⟨exponent, value⟩ := n.exists_value_significant
  constructor
  · intro few
    refine ⟨_, ?_, value.symm⟩
    exact Nat.lt_of_lt_of_le (digitsValue_lt row) (Nat.pow_le_pow_right (by decide) few)
  · rintro ⟨d, few, same⟩
    cases digits' : n.significant with
    | nil => exact Nat.zero_le _
    | cons first rest =>
        have nonempty : n.significant ≠ [] := by simp [digits']
        have needed : digitsValue ([] ++ n.significant) % 10 ≠ 0 := fun zero =>
          significant_last nonempty (last_of_digitsValue_mod row nonempty zero)
        have least : digitsValue n.significant ≤ d.coefficient :=
          Decimal.coefficient_le_of_value_eq needed (value.symm.trans same.symm)
        rw [digits'] at row least
        have leading := pow_le_digitsValue rest (row first List.mem_cons_self) (significant_head digits')
        have power : 10 ^ rest.length < 10 ^ digits := by omega
        exact (Nat.pow_lt_pow_iff_right (by decide)).1 power

variable {x : Finite64}

theorem abs_value_sub (sign : n.negative = x.negative) :
    |n.value - x.value| = |n.exact.value - x.magnitude.value| := by
  rw [value, Finite64.value, sign]
  split
  · rw [← abs_neg, neg_sub, neg_sub_neg, abs_sub_comm]
  · rfl

end Json.Numeral

/-- The token of a finite number that is not whole, or not below 2⁶³, is read as the number with correct
rounding. Every numeral that is read as the number has at least as many significant digits, and if it
has no more it is no nearer to the number. -/
theorem formatNumber_shortest (clause : String) {x : Finite64}
    (rough : (∀ i : ℤ, x.value ≠ i) ∨ 2 ^ 63 ≤ |x.value|) :
    ∃ n : Numeral, n.Canonical ∧ formatNumber clause (.finite x) = .ok (String.ofList n.text) ∧
      n.nearest = .finite x ∧
      ∀ m : Numeral, m.WellFormed → m.nearest = .finite x →
        n.significant.length ≤ m.significant.length ∧
          (m.significant.length = n.significant.length → |n.value - x.value| ≤ |m.value - x.value|) := by
  have nonzero : x.magnitude ≠ .zero := by
    intro zero
    have value : |x.value| = 0 := by rw [x.abs_value, zero, Magnitude.value_zero]
    obtain fraction | large := rough
    · exact fraction 0 (by simpa using value)
    · norm_num [value] at large
  obtain ⟨n, canonical, sign, same, text⟩ := x.exists_token_canonical
  obtain ⟨digits, shortest⟩ := Decimal.shortest_isShortest .up nonzero
  rw [Finite64.tokenDecimal_eq_shortest rough] at same
  rw [Finite64.unsignZero_of_ne_zero nonzero] at sign
  have own := shortest.of_sameValue same
  have few := (Numeral.significant_length_le_iff canonical.wellFormed).2 own.fits
  refine ⟨n, canonical, by rw [formatNumber, text], ?_, ?_⟩
  · exact Numeral.nearest_eq_finite_iff.2 ⟨sign, own.reads⟩
  · intro m wellFormed read
    obtain ⟨sign', reads⟩ := Numeral.nearest_eq_finite_iff.1 read
    have fits (count : Nat) : m.significant.length ≤ count ↔ m.exact.Fits count :=
      Numeral.significant_length_le_iff wellFormed
    have fewest : digits ≤ m.significant.length := own.fewest reads ((fits _).1 le_rfl)
    refine ⟨few.trans fewest, ?_⟩
    intro long
    rw [Numeral.abs_value_sub sign, Numeral.abs_value_sub sign']
    exact own.nearest reads ((fits _).1 (long.le.trans few))

/-- 2⁻²⁵, which is halfway between two decimals of 17 digits. -/
def halfway : Finite64 := ⟨false, ⟨0x3e60000000000000, by decide⟩⟩

def halfwayNumeral : Numeral := ⟨false, ['0'], "000000029802322387695313".toList, none⟩

theorem formatNumber_shortest_halfway :
    formatNumber "POINT" (.finite halfway) = .ok "0.000000029802322387695313" ∧
      ∀ m : Numeral, m.WellFormed → m.nearest = .finite halfway →
        17 ≤ m.significant.length ∧ (m.significant.length = 17 →
          |halfwayNumeral.value - halfway.value| ≤ |m.value - halfway.value|) := by
  have fraction : ∀ i : ℤ, halfway.value ≠ i := by
    have none : halfway.magnitude.whole? = none := by decide +kernel
    intro i whole
    obtain ⟨n, some⟩ := Finite64.exists_value_eq_iff.1 ⟨i, whole⟩
    rw [none] at some
    cases some
  have formatted : formatNumber "POINT" (.finite halfway) = .ok "0.000000029802322387695313" := by
    rw [formatNumber, show halfway.token = "0.000000029802322387695313" by decide +kernel]
  obtain ⟨n, canonical, text, -, best⟩ := formatNumber_shortest "POINT" (.inl fraction)
  have wellFormed : halfwayNumeral.WellFormed := by
    constructor <;> simp [halfwayNumeral]
  obtain rfl : n = halfwayNumeral := by
    apply Numeral.eq_of_signed_render canonical.wellFormed wellFormed
    rw [formatted, Except.ok.injEq] at text
    calc n.text = (String.ofList n.text).toList := String.toList_ofList.symm
      _ = "0.000000029802322387695313".toList := by rw [text]
      _ = halfwayNumeral.text := rfl
  exact ⟨formatted, best⟩

end GeoQuery
