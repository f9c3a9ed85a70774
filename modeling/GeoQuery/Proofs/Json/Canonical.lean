import GeoQuery.Proofs.Json.Ordinary

namespace GeoQuery.Json.Numeral

theorem digitsValue_append_digit (digits : List Char) (c : Char) :
    digitsValue (digits ++ [c]) = 10 * digitsValue digits + (c.toNat - '0'.toNat) := by
  simp [digitsValue]

theorem digits_eq_of_value_eq {a b : List Char} (digits : ∀ c ∈ a, c.isDigit)
    (digits' : ∀ c ∈ b, c.isDigit) (long : a.length = b.length)
    (same : digitsValue a = digitsValue b) : a = b := by
  induction a using List.reverseRecOn generalizing b with
  | nil => exact (List.length_eq_zero_iff.1 long.symm).symm
  | append_singleton a c ih =>
      obtain rfl | ⟨b, d, rfl⟩ := List.eq_nil_or_concat b
      · simp at long
      rw [List.concat_eq_append] at *
      -- the last digit is what is left of the value modulo ten
      obtain ⟨front, last⟩ := List.forall_mem_append.1 digits
      obtain ⟨front', last'⟩ := List.forall_mem_append.1 digits'
      have digit := Char.isDigit_iff_toNat.1 (last c List.mem_cons_self)
      have digit' := Char.isDigit_iff_toNat.1 (last' d List.mem_cons_self)
      rw [digitsValue_append_digit, digitsValue_append_digit] at same
      have nine : '9'.toNat = '0'.toNat + 9 := rfl
      have lasts : c.toNat = d.toNat := by omega
      have fronts : digitsValue a = digitsValue b := by omega
      rw [ih front front' (by simpa using long) fronts, Char.toNat_inj.1 lasts]

theorem digitsValue_lt {digits : List Char} (h : ∀ c ∈ digits, c.isDigit) :
    digitsValue digits < 10 ^ digits.length := by
  rw [digitsValue_eq_ofDigitChars]
  simpa using ofDigitChars_lt h 0

theorem pow_le_digitsValue {first : Char} (rest : List Char) (digit : first.isDigit)
    (nonzero : first ≠ '0') : 10 ^ rest.length ≤ digitsValue (first :: rest) := by
  have one : 1 ≤ 10 * 0 + (first.toNat - '0'.toNat) := by
    have low := (Char.isDigit_iff_toNat.1 digit).1
    have apart : first.toNat ≠ '0'.toNat := fun same => nonzero (Char.toNat_inj.1 same)
    omega
  rw [digitsValue_eq_ofDigitChars, Nat.ofDigitChars_cons, Nat.ofDigitChars_eq_ofDigitChars_zero]
  have leading := Nat.mul_le_mul_left (10 ^ rest.length) one
  omega

theorem WellFormed.whole_length_le {m n : Numeral} (hm : m.WellFormed) (hn : n.WellFormed)
    (le : digitsValue m.whole ≤ digitsValue n.whole) : m.whole.length ≤ n.whole.length := by
  have digits := hm.whole_digits
  have high := digitsValue_lt hn.whole_digits
  rcases hm.whole_head with zero | ⟨first, rest, whole, nonzero⟩
  · have nonempty : n.whole ≠ [] := by
      rcases hn.whole_head with zero | ⟨first, rest, whole, -⟩ <;> simp [*]
    rw [zero]
    exact List.length_pos_iff.2 nonempty
  · rw [whole] at digits le ⊢
    have low := pow_le_digitsValue rest (digits first List.mem_cons_self) nonzero
    exact (Nat.pow_lt_pow_iff_right (by decide)).1 (Nat.lt_of_le_of_lt (Nat.le_trans low le) high)

theorem WellFormed.whole_eq {m n : Numeral} (hm : m.WellFormed) (hn : n.WellFormed)
    (same : digitsValue m.whole = digitsValue n.whole) : m.whole = n.whole :=
  digits_eq_of_value_eq hm.whole_digits hn.whole_digits
    (Nat.le_antisymm (hm.whole_length_le hn same.le) (hn.whole_length_le hm same.ge)) same

theorem digitsValue_append {front back : List Char} :
    digitsValue (front ++ back) = digitsValue front * 10 ^ back.length + digitsValue back := by
  rw [digitsValue_eq_ofDigitChars, Nat.ofDigitChars_append, Nat.ofDigitChars_eq_ofDigitChars_zero,
    Nat.mul_comm]
  rfl

theorem last_of_digitsValue_mod {whole fraction : List Char} (digits : ∀ c ∈ fraction, c.isDigit)
    (nonempty : fraction ≠ []) (h : digitsValue (whole ++ fraction) % 10 = 0) :
    fraction.getLast? = some '0' := by
  obtain rfl | ⟨front, c, rfl⟩ := List.eq_nil_or_concat fraction
  · exact absurd rfl nonempty
  rw [List.concat_eq_append] at *
  have digit := Char.isDigit_iff_toNat.1 (digits c (by simp))
  rw [← List.append_assoc, digitsValue_append_digit] at h
  have nine : '9'.toNat = '0'.toNat + 9 := rfl
  have zero : c.toNat = '0'.toNat := by omega
  rw [List.getLast?_concat, Char.toNat_inj.1 zero]

theorem Canonical.fraction_length_le {m n : Numeral} (hm : m.Canonical)
    (same : digitsValue (m.whole ++ m.fraction) * 10 ^ n.fraction.length =
      digitsValue (n.whole ++ n.fraction) * 10 ^ m.fraction.length) :
    m.fraction.length ≤ n.fraction.length := by
  by_contra longer
  obtain ⟨more, split⟩ : ∃ more, m.fraction.length = n.fraction.length + more + 1 :=
    ⟨m.fraction.length - n.fraction.length - 1, by omega⟩
  have tens : digitsValue (m.whole ++ m.fraction) =
      digitsValue (n.whole ++ n.fraction) * 10 ^ more * 10 := by
    apply Nat.eq_of_mul_eq_mul_right (Nat.pow_pos (n := n.fraction.length) (show 0 < 10 by decide))
    rw [same, split]
    ring
  refine hm.fraction_last (last_of_digitsValue_mod hm.wellFormed.fraction_digits ?_
    (by rw [tens, Nat.mul_mod_left]))
  intro none
  simp [none] at split

theorem Canonical.eq_of_sameValue {m n : Numeral} (hm : m.Canonical) (hn : n.Canonical)
    (sign : m.negative = n.negative) (same : m.exact.SameValue n.exact) : m = n := by
  have cross : digitsValue (m.whole ++ m.fraction) * 10 ^ n.fraction.length =
      digitsValue (n.whole ++ n.fraction) * 10 ^ m.fraction.length := by
    rw [Decimal.exact_of_exponent_none hm.plain, Decimal.exact_of_exponent_none hn.plain] at same
    simpa [Decimal.SameValue, Decimal.numerator, Decimal.denominator] using same
  have long := Nat.le_antisymm (hm.fraction_length_le cross) (hn.fraction_length_le cross.symm)
  rw [long] at cross
  have values := Nat.eq_of_mul_eq_mul_right (Nat.pow_pos (by decide)) cross
  rw [digitsValue_append, digitsValue_append, long] at values
  have positive : 0 < 10 ^ n.fraction.length := Nat.pow_pos (by decide)
  have low := digitsValue_lt hm.wellFormed.fraction_digits
  have low' := digitsValue_lt hn.wellFormed.fraction_digits
  rw [long] at low
  have wholes : digitsValue m.whole = digitsValue n.whole := by
    have quotients := congrArg (· / 10 ^ n.fraction.length) values
    simpa [Nat.mul_add_div, Nat.mul_comm _ (10 ^ n.fraction.length), positive,
      Nat.div_eq_of_lt low, Nat.div_eq_of_lt low'] using quotients
  have fractions : digitsValue m.fraction = digitsValue n.fraction := by
    rw [wholes] at values
    exact Nat.add_left_cancel values
  have whole := hm.wellFormed.whole_eq hn.wellFormed wholes
  have fraction := digits_eq_of_value_eq hm.wellFormed.fraction_digits hn.wellFormed.fraction_digits
    long fractions
  have exponent := hm.plain.trans hn.plain.symm
  cases m
  cases n
  cases sign
  cases whole
  cases fraction
  cases exponent
  rfl

theorem Canonical.eq_of_value_eq {m n : Numeral} (hm : m.Canonical) (hn : n.Canonical)
    (same : m.value = n.value) : m = n := by
  have magnitudes : m.exact.value = n.exact.value := by
    rw [← m.abs_value, ← n.abs_value, same]
  refine hm.eq_of_sameValue hn ?_ (Decimal.sameValue_iff_value_eq.2 magnitudes)
  rcases Nat.eq_zero_or_pos m.exact.coefficient with zero | positive
  · have zero' : n.exact.coefficient = 0 := by
      have positives := (Decimal.value_pos_iff (d := m.exact)).symm.trans
        (magnitudes ▸ Decimal.value_pos_iff (d := n.exact))
      omega
    rw [hm.zero_unsigned zero, hn.zero_unsigned zero']
  · have positive := Decimal.value_pos_iff.2 positive
    rw [value, value, ← magnitudes] at same
    split at same
    case isTrue minus =>
      split at same
      case isTrue minus' => rw [minus, minus']
      case isFalse => linarith
    case isFalse plus =>
      split at same
      case isTrue => linarith
      case isFalse plus' => rw [Bool.eq_false_iff.2 plus, Bool.eq_false_iff.2 plus']

/-- The first numeral is the one canonical numeral of the second one's value. -/
structure IsCanonicalOf (m n : Numeral) : Prop where
  canonical : m.Canonical
  value : m.value = n.value
  unique : ∀ other : Numeral, other.Canonical → other.value = n.value → other = m

theorem Canonical.isCanonicalOf {m n : Numeral} (canonical : m.Canonical)
    (value : m.value = n.value) : m.IsCanonicalOf n :=
  ⟨canonical, value, fun _ own same => own.eq_of_value_eq canonical (same.trans value.symm)⟩

end GeoQuery.Json.Numeral
