import GeoQuery.Proofs.Decimal.Shortest
import GeoQuery.Proofs.Json.Render

/-!
The token of a finite number is canonical. It is plain notation without a digit that could be left
out, it denotes the number, and it is the integer itself for an integer below 2⁶³. One number has one
token, with the two zeros counted as one.
-/

namespace GeoQuery

open Json (Numeral)

namespace Json.Numeral

/-- Plain notation without a digit that could be left out, and without a sign on zero. -/
structure Canonical (n : Numeral) : Prop where
  wellFormed : n.WellFormed
  plain : n.exponent = none
  fraction_last : n.fraction.getLast? ≠ some '0'
  zero_unsigned : n.exact.coefficient = 0 → n.negative = false

theorem digitsValue_mod_of_last (whole : List Char) {fraction : List Char}
    (h : fraction.getLast? = some '0') :
    digitsValue (whole ++ fraction) % 10 = 0 := by
  obtain ⟨front, rfl⟩ := List.getLast?_eq_some_iff.1 h
  have shifted := digitsValue_append_zeros (whole ++ front) 1
  rw [← List.append_assoc, show ['0'] = Decimal.zeros 1 from rfl, shifted]
  omega

end Json.Numeral

namespace Decimal

/-- The plain notation of a decimal is canonical if its last digit is needed, behind the point or
before it. -/
theorem plainNumeral_canonical (negative : Bool) {d : Decimal} (positive : 0 < d.coefficient)
    (needed : d.coefficient % 10 ≠ 0 ∨ 0 ≤ d.exponent) : (plainNumeral negative d).Canonical := by
  have written := plain_writtenAs negative positive
  have nonzero : (plainNumeral negative d).exact.coefficient ≠ 0 := by
    rw [← Nat.pos_iff_ne_zero, ← value_pos_iff, sameValue_iff_value_eq.1 written.value,
      value_pos_iff]
    exact positive
  refine ⟨written.wellFormed, ?_, ?_, fun zero => absurd zero nonzero⟩
  · rw [plainNumeral]
    split
    · rfl
    · split <;> rfl
  · rw [plainNumeral]
    split
    case isTrue =>
      intro none
      cases none
    case isFalse fraction =>
      have last : d.coefficient % 10 ≠ 0 :=
        needed.resolve_right (by rw [places] at fraction; omega)
      split
      case isTrue =>
        intro zero
        apply last
        have := Numeral.digitsValue_mod_of_last (d.digits.take (d.digits.length - d.places)) zero
        rwa [List.take_append_drop, digitsValue_digits] at this
      case isFalse =>
        intro zero
        apply last
        have := Numeral.digitsValue_mod_of_last ['0'] zero
        rwa [List.singleton_append, digitsValue_zeros_append, digitsValue_digits] at this

end Decimal

namespace Magnitude

theorem whole?_eq_some_iff {x : Magnitude} {n : Nat} : x.whole? = some n ↔ x.value = n := by
  constructor
  · intro h
    rw [whole?] at h
    split at h
    case isTrue whole =>
      cases h
      have exact := Nat.div_mul_cancel (Nat.dvd_of_mod_eq_zero whole)
      rw [value, div_eq_iff (Nat.cast_ne_zero.2 x.denominator_pos.ne')]
      exact_mod_cast exact.symm
    case isFalse => cases h
  · intro h
    simp [whole?, numerator_eq_of_value_eq h, Nat.mul_div_cancel n x.denominator_pos]

end Magnitude

theorem abs_signed (negative : Bool) {v : ℚ} (h : 0 ≤ v) : |if negative then -v else v| = v := by
  split
  · rw [abs_neg, abs_of_nonneg h]
  · rw [abs_of_nonneg h]

namespace Finite64

def value (x : Finite64) : ℚ := if x.negative then -x.magnitude.value else x.magnitude.value

theorem abs_value (x : Finite64) : |x.value| = x.magnitude.value :=
  abs_signed x.negative x.magnitude.value_nonneg

theorem exists_value_eq_iff {x : Finite64} : (∃ i : ℤ, x.value = i) ↔ ∃ n, x.magnitude.whole? = some n := by
  constructor
  · rintro ⟨i, whole⟩
    refine ⟨i.natAbs, Magnitude.whole?_eq_some_iff.2 ?_⟩
    rw [← abs_value, whole, ← Int.cast_abs, Int.abs_eq_natAbs, Int.cast_natCast]
  · rintro ⟨n, whole⟩
    have magnitude := Magnitude.whole?_eq_some_iff.1 whole
    rw [value, magnitude]
    split
    · exact ⟨-n, by push_cast; rfl⟩
    · exact ⟨n, by push_cast; rfl⟩

theorem tokenDecimal_eq_shortest {x : Finite64}
    (rough : (∀ i : ℤ, x.value ≠ i) ∨ 2 ^ 63 ≤ |x.value|) :
    x.tokenDecimal = Decimal.shortest .up x.magnitude := by
  rw [tokenDecimal]
  cases whole : x.magnitude.whole? with
  | none => rfl
  | some n =>
      obtain ⟨i, integer⟩ := exists_value_eq_iff.2 ⟨n, whole⟩
      have large := rough.resolve_left fun fraction => fraction i integer
      rw [abs_value, Magnitude.whole?_eq_some_iff.1 whole] at large
      have large : 0x8000000000000000 ≤ n := by exact_mod_cast large
      rw [decimalOfWhole, if_neg (Nat.not_lt.2 large)]

theorem tokenDecimal_needed {x : Finite64} (h : x.magnitude ≠ .zero) :
    x.tokenDecimal.coefficient % 10 ≠ 0 ∨ 0 ≤ x.tokenDecimal.exponent := by
  have shortest := Decimal.shortest_coefficient .up h
  rw [tokenDecimal]
  cases x.magnitude.whole? with
  | none => exact .inl shortest
  | some n =>
      rw [decimalOfWhole]
      split
      · exact .inr le_rfl
      · exact .inl shortest

theorem tokenDecimal_of_zero {x : Finite64} (h : x.magnitude = .zero) : x.tokenDecimal = ⟨0, 0⟩ := by
  rw [tokenDecimal, h, Magnitude.whole?_zero]
  rfl

@[simp] theorem unsignZero_magnitude (x : Finite64) : x.unsignZero.magnitude = x.magnitude := by
  by_cases h : x.magnitude = .zero
  · rw [unsignZero_of_zero h, h]
    rfl
  · rw [unsignZero_of_ne_zero h]

/-- The token of a number is canonical, and it has the sign of the number and the value of its
decimal. -/
theorem exists_token_canonical (x : Finite64) : ∃ n : Numeral, n.Canonical ∧
    n.negative = x.unsignZero.negative ∧ n.exact.SameValue x.tokenDecimal ∧
    x.token = String.ofList n.text := by
  by_cases h : x.magnitude = .zero
  · refine ⟨⟨false, ['0'], [], none⟩, ⟨⟨by simp, .inl rfl, by simp, by simp⟩, rfl, nofun,
      fun _ => rfl⟩, ?_, ?_, ?_⟩
    · rw [unsignZero_of_zero h]
      rfl
    · rw [tokenDecimal_of_zero h]
      rfl
    · rw [token_of_zero h]
      rfl
  · have positive := Decimal.coefficient_pos_of_readsAs x.tokenDecimal_readsAs h
    have written := Decimal.plain_writtenAs x.negative positive
    refine ⟨_, Decimal.plainNumeral_canonical x.negative positive (tokenDecimal_needed h), ?_,
      written.value, ?_⟩
    · rw [Decimal.plainNumeral_negative, unsignZero_of_ne_zero h]
    · rw [token_of_ne_zero h, Numeral.text, Decimal.plainNumeral_negative, written.render,
        ← toList_signed, String.ofList_toList]

theorem value_unsignZero (x : Finite64) : x.unsignZero.value = x.value := by
  by_cases h : x.magnitude = .zero
  · rw [unsignZero_of_zero h]
    simp [value, h, zero]
  · rw [unsignZero_of_ne_zero h]

theorem token_of_integer {x : Finite64} {i : ℤ} (integer : x.value = i)
    (fits : |i| < 0x8000000000000000) : x.token = toString i := by
  have size : x.unsignZero.magnitude.value = (i.natAbs : Nat) := by
    rw [← abs_value, value_unsignZero, integer, ← Int.cast_abs, Int.abs_eq_natAbs, Int.cast_natCast]
  have below : i.natAbs < 0x8000000000000000 := by
    rw [Int.abs_eq_natAbs] at fits
    exact_mod_cast fits
  generalize i.natAbs = n at size below
  have whole := Magnitude.whole?_eq_some_iff.2 size
  have same : x.unsignZero.toInt64.toInt = i := by
    rw [toInt_toInt64 whole below]
    rw [← value_unsignZero, value, size] at integer
    split
    case isTrue negative =>
      rw [if_pos negative] at integer
      exact_mod_cast integer
    case isFalse positive =>
      rw [if_neg positive] at integer
      exact_mod_cast integer
  rw [token_of_below whole below]
  change toString x.unsignZero.toInt64.toInt = _
  rw [same]

end Finite64

theorem Binary64.ofNumeral?_text {n : Numeral} (h : n.WellFormed) :
    Binary64.ofNumeral? (String.ofList n.text) = some n.nearest := by
  have scanned := Numeral.scan_render (.unfinished .value) h Json.ends_nil
  rw [List.append_nil] at scanned
  obtain ⟨first, rest, render, digit⟩ := Numeral.head_render h
  rw [ofNumeral?, String.toList_ofList, Numeral.text]
  cases sign : n.negative with
  | true =>
      rw [sign] at scanned
      simp [scanned]
  | false =>
      rw [sign] at scanned
      have minus : first ≠ '-' := by
        rintro rfl
        exact absurd digit (by decide)
      rw [render] at scanned ⊢
      simp [minus, scanned]

theorem Json.Numeral.nearest_of_readsAs {n : Numeral} {x : Finite64}
    (sign : n.negative = x.negative) (reads : n.exact.ReadsAs x.magnitude) :
    n.nearest = .finite x := by
  rw [Numeral.nearest, sign, show n.exact.nearest? = some x.magnitude from reads]
  rfl

theorem Json.Numeral.nearest_eq_finite_iff {n : Numeral} {x : Finite64} :
    n.nearest = .finite x ↔ n.negative = x.negative ∧ n.exact.ReadsAs x.magnitude := by
  constructor
  · intro h
    rw [Numeral.nearest] at h
    cases reads : n.exact.nearest? with
    | none => simp [reads, Binary64.ofMagnitude?] at h
    | some m =>
        rw [reads] at h
        cases h
        exact ⟨rfl, reads⟩
  · intro h
    exact Numeral.nearest_of_readsAs h.1 h.2

/-- The token of a finite number is a canonical text: it is read back as the number with correct
rounding, it is the integer itself for an integer below 2⁶³, and numerically equal numbers, and no
others, share it. -/
theorem formatNumber_canonical (clause : String) (x : Finite64) :
    ∃ n : Numeral, n.Canonical ∧ formatNumber clause (.finite x) = .ok (String.ofList n.text) ∧
      Binary64.ofNumeral? (String.ofList n.text) = some (.finite x.unsignZero) ∧
      (∀ i : ℤ, x.value = i → |i| < 0x8000000000000000 → String.ofList n.text = toString i) ∧
      ∀ (other : String) (y : Finite64),
        formatNumber clause (.finite x) = formatNumber other (.finite y) ↔ x.equals y = true := by
  obtain ⟨n, canonical, sign, same, text⟩ := x.exists_token_canonical
  have reads : n.exact.ReadsAs x.unsignZero.magnitude := by
    rw [same.readsAs_iff, Finite64.unsignZero_magnitude]
    exact x.tokenDecimal_readsAs
  refine ⟨n, canonical, ?_, ?_, ?_, ?_⟩
  · rw [formatNumber, text]
  · rw [Binary64.ofNumeral?_text canonical.wellFormed, Numeral.nearest_of_readsAs sign reads]
  · intro i whole fits
    rw [← text]
    exact Finite64.token_of_integer whole fits
  · intro other y
    rw [formatNumber, formatNumber, Except.ok.injEq, Finite64.token_inj,
      Finite64.equals_iff_unsignZero]

end GeoQuery
