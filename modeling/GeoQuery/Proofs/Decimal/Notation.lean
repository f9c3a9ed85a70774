import GeoQuery.Decimal.Layout
import GeoQuery.Proofs.Decimal.Value
import GeoQuery.Proofs.Json.Numeral

/-!
Each notation of a decimal is the text of a numeral with the value of the decimal. Plain notation has
no exponent, and the two notations inside JSON always have a fraction or an exponent.
-/

namespace GeoQuery

theorem digitsValue_eq_ofDigitChars (digits : List Char) :
    digitsValue digits = Nat.ofDigitChars 10 digits 0 := rfl

theorem digitsValue_append_zeros (digits : List Char) (n : Nat) :
    digitsValue (digits ++ Decimal.zeros n) = digitsValue digits * 10 ^ n := by
  rw [digitsValue_eq_ofDigitChars, Nat.ofDigitChars_append, Decimal.zeros,
    Nat.ofDigitChars_replicate_zero, Nat.mul_comm, digitsValue_eq_ofDigitChars]

theorem digitsValue_zeros (n : Nat) (digits : List Char) :
    digitsValue (Decimal.zeros n ++ digits) = digitsValue digits := by
  rw [digitsValue_eq_ofDigitChars, Nat.ofDigitChars_append, Decimal.zeros,
    Nat.ofDigitChars_replicate_zero, Nat.mul_zero, digitsValue_eq_ofDigitChars]

theorem digitsValue_zeros_append (digits : List Char) (n : Nat) :
    digitsValue ('0' :: (Decimal.zeros n ++ digits)) = digitsValue digits :=
  digitsValue_zeros (n + 1) digits

theorem head_toDigits_ne_zero {n : Nat} (h : 0 < n) :
    ∃ first rest, Nat.toDigits 10 n = first :: rest ∧ first ≠ '0' := by
  induction n using Nat.base_induction 10 (by decide) with
  | single n hn =>
      rw [Nat.toDigits_of_lt_base hn]
      exact ⟨_, _, rfl, by simpa using Nat.ne_of_gt h⟩
  | digit n digit hdigit hn ih =>
      obtain ⟨first, rest, heq, nonzero⟩ := ih hn
      rw [← Nat.toDigits_append_toDigits (by decide) hn hdigit, heq]
      exact ⟨first, _, rfl, nonzero⟩

namespace Decimal

open Json (Numeral Exponent)

/-- The numeral has this text behind its sign and the value of the decimal. -/
structure WrittenAs (d : Decimal) (text : List Char) (n : Numeral) : Prop where
  wellFormed : n.WellFormed
  render : n.render = text
  value : n.exact.SameValue d

theorem isDigit_of_mem_digits {d : Decimal} {c : Char} (h : c ∈ d.digits) : c.isDigit :=
  Nat.isDigit_of_mem_toDigits (by decide) (by decide) h

theorem isDigit_of_mem_zeros {n : Nat} {c : Char} (h : c ∈ zeros n) : c.isDigit := by
  rw [List.eq_of_mem_replicate h]
  decide

@[simp] theorem digitsValue_digits (d : Decimal) : digitsValue d.digits = d.coefficient :=
  Nat.ofDigitChars_ten_toDigits

@[simp] theorem length_zeros (n : Nat) : (zeros n).length = n := List.length_replicate

def places (d : Decimal) : Nat := (-d.exponent).toNat

def plainNumeral (negative : Bool) (d : Decimal) : Numeral :=
  if d.places = 0 then ⟨negative, d.digits ++ zeros d.exponent.toNat, [], none⟩
  else if d.places < d.digits.length then
    ⟨negative, d.digits.take (d.digits.length - d.places),
      d.digits.drop (d.digits.length - d.places), none⟩
  else ⟨negative, ['0'], zeros (d.places - d.digits.length) ++ d.digits, none⟩

theorem plainNumeral_negative (negative : Bool) (d : Decimal) :
    (plainNumeral negative d).negative = negative := by
  rw [plainNumeral]
  split
  · rfl
  · split <;> rfl

def pointedNumeral (negative : Bool) (d : Decimal) : Numeral :=
  if 0 ≤ d.exponent then ⟨negative, d.digits ++ zeros d.exponent.toNat, ['0'], none⟩
  else plainNumeral negative d

def scientificNumeral (negative : Bool) (d : Decimal) : Numeral :=
  ⟨negative, d.digits.take 1, d.digits.drop 1,
    some ⟨decide (d.magnitudeOrder < 0), Nat.toDigits 10 d.magnitudeOrder.natAbs⟩⟩

def generalNumeral (negative : Bool) (d : Decimal) : Numeral :=
  if -5 ≤ d.magnitudeOrder ∧ d.magnitudeOrder < 16 then pointedNumeral negative d
  else scientificNumeral negative d

theorem render_of_fraction_ne_nil {n : Numeral} (hfraction : n.fraction ≠ [])
    (hexponent : n.exponent = none) : n.render = n.whole ++ '.' :: n.fraction := by
  obtain ⟨negative, whole, fraction, exponent⟩ := n
  cases fraction with
  | nil => exact absurd rfl hfraction
  | cons digit digits =>
      cases hexponent
      simp [Numeral.render, Numeral.renderFraction]

theorem exact_of_exponent_none {n : Numeral} (hexponent : n.exponent = none) :
    n.exact = ⟨digitsValue (n.whole ++ n.fraction), -(n.fraction.length : Int)⟩ := by
  simp [Numeral.exact, Numeral.exponentValue, hexponent]

variable {d : Decimal} (negative : Bool)

theorem neg_places (h : d.places ≠ 0) : -(d.places : Int) = d.exponent := by
  rw [places] at h ⊢
  omega

theorem whole_head_append (h : 0 < d.coefficient) (tail : List Char) :
    ∃ first rest, d.digits ++ tail = first :: rest ∧ first ≠ '0' := by
  obtain ⟨first, rest, digits, nonzero⟩ := head_toDigits_ne_zero h
  exact ⟨first, rest ++ tail, by rw [Decimal.digits, digits, List.cons_append], nonzero⟩

theorem whole_head_take (h : 0 < d.coefficient) (n : Nat) :
    ∃ first rest, d.digits.take (n + 1) = first :: rest ∧ first ≠ '0' := by
  obtain ⟨first, rest, digits, nonzero⟩ := head_toDigits_ne_zero h
  exact ⟨first, rest.take n, by rw [Decimal.digits, digits, List.take_succ_cons], nonzero⟩

theorem whole_writtenAs (h : 0 < d.coefficient) (hexponent : 0 ≤ d.exponent) (behind : Nat) :
    d.WrittenAs (d.digits ++ zeros d.exponent.toNat ++ Numeral.renderFraction (zeros behind))
      ⟨negative, d.digits ++ zeros d.exponent.toNat, zeros behind, none⟩ := by
  refine ⟨⟨?_, .inr (whole_head_append h _), fun c hc => isDigit_of_mem_zeros hc, by simp⟩,
    by simp [Numeral.render], ?_⟩
  · intro c hc
    rcases List.mem_append.1 hc with hc | hc
    · exact isDigit_of_mem_digits hc
    · exact isDigit_of_mem_zeros hc
  · have exponent : -(behind : Int) + (d.exponent.toNat + behind : Nat) = d.exponent := by omega
    have shifted := sameValue_shift d.coefficient (d.exponent.toNat + behind) (-behind)
    rw [exponent, Nat.pow_add, ← Nat.mul_assoc] at shifted
    rw [exact_of_exponent_none rfl]
    simpa only [digitsValue_append_zeros, digitsValue_digits, length_zeros] using shifted

theorem split_writtenAs (h : 0 < d.coefficient) (hplaces : d.places ≠ 0)
    (hlength : d.places < d.digits.length) :
    d.WrittenAs (d.digits.take (d.digits.length - d.places) ++
        '.' :: d.digits.drop (d.digits.length - d.places))
      ⟨negative, d.digits.take (d.digits.length - d.places),
        d.digits.drop (d.digits.length - d.places), none⟩ := by
  have fraction : d.digits.drop (d.digits.length - d.places) ≠ [] := by
    rw [ne_eq, List.drop_eq_nil_iff]
    omega
  refine ⟨⟨?_, .inr ?_, ?_, by simp⟩, render_of_fraction_ne_nil fraction rfl, ?_⟩
  · exact fun c hc => isDigit_of_mem_digits (List.mem_of_mem_take hc)
  · obtain ⟨n, hn⟩ := Nat.exists_eq_succ_of_ne_zero
      (show d.digits.length - d.places ≠ 0 by omega)
    rw [hn]
    exact whole_head_take h n
  · exact fun c hc => isDigit_of_mem_digits (List.mem_of_mem_drop hc)
  · have length : d.digits.length - (d.digits.length - d.places) = d.places := by omega
    rw [exact_of_exponent_none rfl]
    simp only [List.take_append_drop, digitsValue_digits, List.length_drop, length,
      neg_places hplaces]
    exact SameValue.refl d

theorem small_writtenAs (hplaces : d.places ≠ 0) (hlength : ¬ d.places < d.digits.length) :
    d.WrittenAs ('0' :: '.' :: zeros (d.places - d.digits.length) ++ d.digits)
      ⟨negative, ['0'], zeros (d.places - d.digits.length) ++ d.digits, none⟩ := by
  have fraction : zeros (d.places - d.digits.length) ++ d.digits ≠ [] := by
    simp [Decimal.digits]
  refine ⟨⟨by simp, .inl rfl, ?_, by simp⟩, render_of_fraction_ne_nil fraction rfl, ?_⟩
  · intro c hc
    rcases List.mem_append.1 hc with hc | hc
    · exact isDigit_of_mem_zeros hc
    · exact isDigit_of_mem_digits hc
  · have length : d.places - d.digits.length + d.digits.length = d.places := by omega
    rw [exact_of_exponent_none rfl]
    simp only [List.singleton_append, digitsValue_zeros_append, digitsValue_digits,
      List.length_append, length_zeros, length, neg_places hplaces]
    exact SameValue.refl d

theorem plain_eq (d : Decimal) : d.plain =
    if d.places = 0 then d.digits ++ zeros d.exponent.toNat
    else if d.places < d.digits.length then
      d.digits.take (d.digits.length - d.places) ++ '.' :: d.digits.drop (d.digits.length - d.places)
    else '0' :: '.' :: zeros (d.places - d.digits.length) ++ d.digits := rfl

theorem plain_writtenAs (h : 0 < d.coefficient) :
    d.WrittenAs d.plain (plainNumeral negative d) := by
  rw [plain_eq, plainNumeral]
  split
  case isTrue hplaces =>
    have exponent : 0 ≤ d.exponent := by
      rw [places] at hplaces
      omega
    simpa [Numeral.renderFraction, zeros] using whole_writtenAs negative h exponent 0
  case isFalse hplaces =>
    split
    case isTrue hlength => exact split_writtenAs negative h hplaces hlength
    case isFalse hlength => exact small_writtenAs negative hplaces hlength

theorem pointed_writtenAs (h : 0 < d.coefficient) :
    d.WrittenAs d.pointed (pointedNumeral negative d) := by
  rw [pointed, pointedNumeral]
  split
  case isTrue hexponent =>
    have whole : d.plain = d.digits ++ zeros d.exponent.toNat := by
      rw [plain_eq, if_pos (by rw [places]; omega)]
    rw [whole]
    exact whole_writtenAs negative h hexponent 1
  case isFalse => exact plain_writtenAs negative h

theorem scientific_writtenAs (h : 0 < d.coefficient) :
    d.WrittenAs d.scientific (scientificNumeral negative d) := by
  obtain ⟨first, rest, digits, nonzero⟩ := head_toDigits_ne_zero h
  have digits : d.digits = first :: rest := digits
  have isDigit : ∀ c ∈ first :: rest, c.isDigit := fun c hc =>
    isDigit_of_mem_digits (digits ▸ hc)
  have sign : (if d.magnitudeOrder < 0 then '-' else '+') =
      if 0 ≤ d.magnitudeOrder then '+' else '-' := by
    split <;> split <;> first | rfl | omega
  refine ⟨⟨?_, .inr ⟨first, [], by simp [scientificNumeral, digits], nonzero⟩, ?_, ?_⟩, ?_, ?_⟩
  · intro c hc
    exact isDigit c (digits ▸ List.mem_of_mem_take hc)
  · intro c hc
    exact isDigit c (digits ▸ List.mem_of_mem_drop hc)
  · rintro e ⟨⟩
    exact ⟨by simp, fun c hc => Nat.isDigit_of_mem_toDigits (by decide) (by decide) hc⟩
  · cases rest with
    | nil =>
        simp [Numeral.render, Numeral.renderFraction, scientificNumeral, scientific, digits,
          Exponent.render, sign]
    | cons second rest =>
        simp [Numeral.render, Numeral.renderFraction, scientificNumeral, scientific, digits,
          Exponent.render, sign]
  · have order : (if d.magnitudeOrder < 0 then -(d.magnitudeOrder.natAbs : Int)
        else d.magnitudeOrder.natAbs) = d.magnitudeOrder := by
      split <;> omega
    have length : d.magnitudeOrder - rest.length = d.exponent := by
      simp only [magnitudeOrder, digits, List.length_cons]
      omega
    have exact : (scientificNumeral negative d).exact = d := by
      simp only [Numeral.exact, scientificNumeral, Numeral.exponentValue, Option.elim_some,
        Exponent.value, decide_eq_true_eq, digitsValue_eq_ofDigitChars,
        Nat.ofDigitChars_ten_toDigits, order, List.take_append_drop]
      rw [← digitsValue_eq_ofDigitChars, digitsValue_digits, digits]
      simp only [List.drop_succ_cons, List.drop_zero, length]
    rw [exact]

theorem general_writtenAs (h : 0 < d.coefficient) :
    d.WrittenAs d.general (generalNumeral negative d) := by
  rw [general, generalNumeral]
  split
  · exact pointed_writtenAs negative h
  · exact scientific_writtenAs negative h

end Decimal

end GeoQuery
