import GeoQuery.Argument
import GeoQuery.Proofs.Decimal.Notation

/-!
The token of a finite number is a numeral that is read back as the number, so numbers with one token
are numerically equal. No token of a number is a keyword.
-/

namespace GeoQuery

open Json (Numeral)

namespace Magnitude

theorem isZero_iff {x : Magnitude} : x.isZero = true ↔ x = .zero := by
  cases x
  simp [isZero, zero, default]

theorem readsAs_of_whole? {x : Magnitude} {n : Nat} (h : x.whole? = some n) :
    Decimal.ReadsAs ⟨n, 0⟩ x := by
  simp only [whole?] at h
  split at h
  case isTrue hmod =>
    cases h
    have whole : x.numerator / x.denominator * x.denominator = x.numerator :=
      Nat.div_mul_cancel (Nat.dvd_of_mod_eq_zero hmod)
    rw [Decimal.ReadsAs, Decimal.nearest?_eq_ofRatio?, ← ofRatio?_self x]
    apply ofRatio?_congr (Decimal.denominator_pos _) x.denominator_pos
    simp [Decimal.numerator, Decimal.denominator, whole]
  case isFalse => cases h

theorem div_eq_of_whole? {x : Magnitude} {n : Nat} (h : x.whole? = some n) :
    x.numerator / x.denominator = n := by
  simp only [whole?] at h
  split at h
  case isTrue => exact Option.some.inj h
  case isFalse => cases h

theorem rank_of_whole? {x : Magnitude} {n : Nat} (h : x.whole? = some n) :
    rankOfUnits (n * unitsPerOne) 1 = x.rank := by
  have reads := readsAs_of_whole? h
  rw [Decimal.ReadsAs, Decimal.nearest?_eq_ofRatio?] at reads
  simpa [Decimal.numerator, Decimal.denominator] using rank_of_ofRatio? reads

def twoPow63 : Magnitude := ⟨0x43e0000000000000, by decide⟩

theorem whole?_twoPow63 : twoPow63.whole? = some 0x8000000000000000 := by decide +kernel

/-- The largest 64-bit integer is no number of the format. It is rounded up. -/
theorem largestInt64_eq : Finite64.largestInt64 = .finite ⟨false, twoPow63⟩ := by decide +kernel

theorem isBelow_largestInt64_iff {x : Magnitude} {n : Nat} (h : x.whole? = some n) :
    x.isBelow Finite64.largestInt64 = true ↔ n < 0x8000000000000000 := by
  have below : x.isBelow Finite64.largestInt64 = true ↔ x.rank < twoPow63.rank := by
    simp [largestInt64_eq, isBelow]
  rw [below, ← rank_of_whole? h, ← rank_of_whole? whole?_twoPow63]
  constructor
  · intro less
    by_contra large
    have le := Nat.mul_le_mul_right unitsPerOne (Nat.le_of_not_lt large)
    exact absurd less (Nat.not_lt.2 (rankOfUnits_mono 1 le))
  · intro less
    have le := rankOfUnits_mono 1 (Nat.mul_le_mul_right unitsPerOne less.le)
    apply Nat.lt_of_le_of_ne le
    -- Equal ranks make equal magnitudes, which are no two whole numbers.
    rw [rank_of_whole? h, rank_of_whole? whole?_twoPow63]
    intro same
    have equal : x = twoPow63 := by
      cases x
      simpa [twoPow63] using same
    rw [equal, whole?_twoPow63] at h
    exact absurd (Option.some.inj h) (Nat.ne_of_gt less)

theorem whole?_zero : zero.whole? = some 0 := by
  have numerator : zero.numerator = 0 := by
    rw [Magnitude.numerator, show zero.mantissa = 0 from rfl, Nat.zero_mul]
  simp [whole?, numerator]

end Magnitude

namespace Decimal

theorem coefficient_pos_of_readsAs {d : Decimal} {x : Magnitude} (h : d.ReadsAs x)
    (hx : x ≠ .zero) : 0 < d.coefficient := by
  apply Nat.pos_of_ne_zero
  intro hzero
  have zero : d.nearest? = some .zero := by simp [nearest?, hzero]
  exact hx (ReadsAs.unique h zero)

end Decimal

namespace Finite64

theorem unsignZero_of_zero {x : Finite64} (h : x.magnitude = .zero) : x.unsignZero = zero :=
  if_pos (Magnitude.isZero_iff.2 h)

theorem unsignZero_of_ne_zero {x : Finite64} (h : x.magnitude ≠ .zero) : x.unsignZero = x :=
  if_neg (by rwa [Magnitude.isZero_iff])

theorem equals_iff_unsignZero {x y : Finite64} :
    x.equals y = true ↔ x.unsignZero = y.unsignZero := by
  have magnitudes : ∀ z : Finite64, z.unsignZero.magnitude = z.magnitude := by
    intro z
    by_cases hz : z.magnitude = .zero
    · rw [unsignZero_of_zero hz, hz]
      rfl
    · rw [unsignZero_of_ne_zero hz]
  by_cases same : x.magnitude = y.magnitude
  · by_cases hx : x.magnitude = .zero
    · have hy : y.magnitude = .zero := same ▸ hx
      rw [unsignZero_of_zero hx, unsignZero_of_zero hy]
      simp [equals, hx, hy, Magnitude.isZero_iff]
    · have hy : y.magnitude ≠ .zero := same ▸ hx
      rw [unsignZero_of_ne_zero hx, unsignZero_of_ne_zero hy]
      obtain ⟨s, m⟩ := x
      obtain ⟨t, n⟩ := y
      cases same
      have nonzero : ¬ m.isZero = true := by rwa [Magnitude.isZero_iff]
      simp [equals, nonzero]
  · have different : x.unsignZero ≠ y.unsignZero := by
      intro heq
      exact same (by rw [← magnitudes x, heq, magnitudes y])
    simp [equals, same, different]

/-- The text of a number that is whole with these digits, or not whole: all digits of a whole number
below 2⁶³, the shortest digits of any other number. -/
def tokenOfWhole (x : Finite64) : Option Nat → String
  | some n => if n < 0x8000000000000000 then x.signed (Nat.toDigits 10 n) else x.display
  | none => x.display

theorem toInt_toInt64 {x : Finite64} {n : Nat} (whole : x.magnitude.whole? = some n)
    (below : n < 0x8000000000000000) : x.toInt64.toInt = if x.negative then -(n : Int) else n := by
  have least : Int64.minValue.toInt = -0x8000000000000000 := by decide
  have largest : Int64.maxValue.toInt = 0x7fffffffffffffff := by decide
  rw [toInt64, Magnitude.div_eq_of_whole? whole]
  apply Int64.toInt_ofIntClamp
  · rw [least]
    split <;> omega
  · rw [largest]
    split <;> omega

theorem toString_toInt64 {x : Finite64} {n : Nat} (whole : x.magnitude.whole? = some n)
    (below : n < 0x8000000000000000) (unsigned : n = 0 → x.negative = false) :
    toString x.toInt64 = x.signed (Nat.toDigits 10 n) := by
  change toString x.toInt64.toInt = _
  rw [toInt_toInt64 whole below, signed]
  cases negative : x.negative with
  | false => rfl
  | true =>
      -- The text of a negative integer is that of its magnitude behind a sign.
      have positive : n ≠ 0 := by
        intro zero
        rw [unsigned zero] at negative
        cases negative
      obtain ⟨k, rfl⟩ := Nat.exists_eq_succ_of_ne_zero positive
      change "-" ++ Nat.repr (k + 1) = _
      simp [Nat.repr]

theorem unsignZero_negative_of_whole?_zero {x : Finite64}
    (whole : x.unsignZero.magnitude.whole? = some 0) : x.unsignZero.negative = false := by
  by_cases h : x.magnitude = .zero
  · rw [unsignZero_of_zero h]
    rfl
  · rw [unsignZero_of_ne_zero h] at whole
    have zero := Decimal.coefficient_pos_of_readsAs (Magnitude.readsAs_of_whole? whole) h
    exact absurd zero (Nat.lt_irrefl 0)

theorem token_of_below {x : Finite64} {n : Nat} (whole : x.unsignZero.magnitude.whole? = some n)
    (below : n < 0x8000000000000000) : x.token = toString x.unsignZero.toInt64 := by
  have guard := (Magnitude.isBelow_largestInt64_iff whole).2 below
  rw [token, whole, guard]
  rfl

/-- Where a token is that of an integer, the integer is the number: none is out of range. -/
theorem token_eq (x : Finite64) :
    x.token = x.unsignZero.tokenOfWhole x.unsignZero.magnitude.whole? := by
  cases whole : x.unsignZero.magnitude.whole? with
  | none =>
      rw [token, whole]
      rfl
  | some n =>
      rw [tokenOfWhole]
      by_cases below : n < 0x8000000000000000
      · rw [if_pos below, token_of_below whole below]
        apply toString_toInt64 whole below
        rintro rfl
        exact unsignZero_negative_of_whole?_zero whole
      · have guard : x.unsignZero.magnitude.isBelow largestInt64 = false := by
          rw [Bool.eq_false_iff, ne_eq, Magnitude.isBelow_largestInt64_iff whole]
          exact below
        rw [if_neg below, token, whole, guard]
        rfl

/-- The decimal whose digits are the text of a number that is whole or not. -/
def decimalOfWhole (x : Finite64) : Option Nat → Decimal
  | some n => if n < 0x8000000000000000 then ⟨n, 0⟩ else Decimal.shortest .up x.magnitude
  | none => Decimal.shortest .up x.magnitude

def tokenDecimal (x : Finite64) : Decimal := x.decimalOfWhole x.magnitude.whole?

theorem tokenDecimal_readsAs (x : Finite64) : x.tokenDecimal.ReadsAs x.magnitude := by
  rw [tokenDecimal]
  cases hwhole : x.magnitude.whole? with
  | none => exact Decimal.shortest_readsAs _ _
  | some n =>
      rw [decimalOfWhole]
      split
      · exact Magnitude.readsAs_of_whole? hwhole
      · exact Decimal.shortest_readsAs _ _

theorem token_of_zero {x : Finite64} (h : x.magnitude = .zero) : x.token = "0" := by
  have whole : zero.magnitude.whole? = some 0 := Magnitude.whole?_zero
  rw [token_eq, unsignZero_of_zero h, whole]
  rfl

theorem plain_of_whole (n : Nat) : Decimal.plain ⟨n, 0⟩ = Nat.toDigits 10 n := by
  simp [Decimal.plain_eq, Decimal.places, Decimal.zeros, Decimal.digits]

theorem token_of_ne_zero {x : Finite64} (h : x.magnitude ≠ .zero) :
    x.token = x.signed x.tokenDecimal.plain := by
  have nonzero : x.magnitude.isZero = false := by
    rw [Bool.eq_false_iff, ne_eq, Magnitude.isZero_iff]
    exact h
  have display : x.display = x.signed (Decimal.shortest .up x.magnitude).plain := by
    simp [display, nonzero]
  rw [token_eq, unsignZero_of_ne_zero h, tokenDecimal]
  cases x.magnitude.whole? with
  | none => exact display
  | some n =>
      rw [tokenOfWhole, decimalOfWhole]
      split
      · rw [plain_of_whole]
      · exact display

theorem toList_signed (x : Finite64) (digits : List Char) :
    (x.signed digits).toList = (if x.negative then ['-'] else []) ++ digits := by
  cases hsign : x.negative <;> simp [signed, hsign]

/-- A token is a numeral with the sign and the value of the number. -/
theorem exists_token_numeral (x : Finite64) : ∃ n : Numeral, n.WellFormed ∧
    n.negative = x.unsignZero.negative ∧ n.exact.ReadsAs x.unsignZero.magnitude ∧
    x.token.toList = (if n.negative then ['-'] else []) ++ n.render := by
  by_cases h : x.magnitude = .zero
  · refine ⟨⟨false, ['0'], [], none⟩, ⟨by simp, .inl rfl, by simp, by simp⟩, ?_, ?_, ?_⟩
    · rw [unsignZero_of_zero h]
      rfl
    · rw [unsignZero_of_zero h]
      rfl
    · rw [token_of_zero h]
      rfl
  · have written := Decimal.plain_writtenAs x.negative
      (Decimal.coefficient_pos_of_readsAs x.tokenDecimal_readsAs h)
    refine ⟨_, written.wellFormed, ?_, ?_, ?_⟩
    · rw [Decimal.plainNumeral_negative, unsignZero_of_ne_zero h]
    · rw [written.value.readsAs_iff, unsignZero_of_ne_zero h]
      exact x.tokenDecimal_readsAs
    · rw [token_of_ne_zero h, Decimal.plainNumeral_negative, written.render, toList_signed]

end Finite64

namespace Json.Numeral

theorem head_render {n : Numeral} (h : n.WellFormed) :
    ∃ first rest, n.render = first :: rest ∧ first.isDigit := by
  rcases h.whole_head with zero | ⟨first, rest, whole, -⟩
  · exact ⟨'0', _, by rw [render, zero]; rfl, by decide⟩
  · exact ⟨first, _, by rw [render, whole]; rfl, h.whole_digits first (by simp [whole])⟩

theorem eq_of_signed_render {n m : Numeral} (hn : n.WellFormed) (hm : m.WellFormed)
    (h : (if n.negative then ['-'] else []) ++ n.render =
      (if m.negative then ['-'] else []) ++ m.render) : n = m := by
  obtain ⟨first, rest, render, digit⟩ := head_render hn
  obtain ⟨first', rest', render', digit'⟩ := head_render hm
  have noMinus : ∀ c : Char, c.isDigit → '-' ≠ c := by
    rintro c hc rfl
    exact absurd hc (by decide)
  cases hsign : n.negative <;> cases hsign' : m.negative <;>
    simp only [hsign, hsign', render, render'] at h
  case false.true => exact absurd (List.cons.inj h).1.symm (noMinus first digit)
  case true.false => exact absurd (List.cons.inj h).1 (noMinus first' digit')
  case false.false =>
    exact render_injective hn hm (hsign.trans hsign'.symm) (render.trans (h.trans render'.symm))
  case true.true =>
    have behind : first :: rest = first' :: rest' := (List.cons.inj h).2
    exact render_injective hn hm (hsign.trans hsign'.symm) (render.trans (behind.trans render'.symm))

end Json.Numeral

namespace Finite64

theorem head_token (x : Finite64) :
    ∃ first rest, x.token.toList = first :: rest ∧ (first = '-' ∨ first.isDigit) := by
  obtain ⟨n, wellFormed, -, -, text⟩ := x.exists_token_numeral
  obtain ⟨first, rest, render, digit⟩ := Numeral.head_render wellFormed
  rw [text, render]
  cases n.negative with
  | true => exact ⟨'-', first :: rest, rfl, .inl rfl⟩
  | false => exact ⟨first, rest, rfl, .inr digit⟩

theorem token_unsignZero (x : Finite64) : x.unsignZero.token = x.token := by
  by_cases h : x.magnitude = .zero
  · rw [unsignZero_of_zero h, token_of_zero h, token_of_zero rfl]
  · rw [unsignZero_of_ne_zero h]

theorem unsignZero_eq_of_token_eq {x y : Finite64} (h : x.token = y.token) :
    x.unsignZero = y.unsignZero := by
  obtain ⟨n, wellFormedN, signN, valueN, textN⟩ := x.exists_token_numeral
  obtain ⟨m, wellFormedM, signM, valueM, textM⟩ := y.exists_token_numeral
  have numerals : n = m := Numeral.eq_of_signed_render wellFormedN wellFormedM (by
    rw [← textN, ← textM, h])
  have magnitudes : x.unsignZero.magnitude = y.unsignZero.magnitude :=
    Decimal.ReadsAs.unique valueN (numerals ▸ valueM)
  have signs : x.unsignZero.negative = y.unsignZero.negative := by
    rw [← signN, ← signM, numerals]
  cases hx : x.unsignZero
  cases hy : y.unsignZero
  simp_all

theorem token_inj {x y : Finite64} : x.token = y.token ↔ x.unsignZero = y.unsignZero := by
  constructor
  · exact unsignZero_eq_of_token_eq
  · intro h
    rw [← token_unsignZero x, h, token_unsignZero y]

end Finite64

end GeoQuery
