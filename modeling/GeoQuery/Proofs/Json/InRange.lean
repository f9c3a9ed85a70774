import GeoQuery.Proofs.Decimal.Notation
import GeoQuery.Proofs.Decimal.Token

/-!
A number inside JSON is never out of range for the reader of numerals, although the reader scales a
rounded significand by a rounded power of ten. The reader never looks at more than the leading digits,
so it starts from a decimal no larger than the number. Below the largest number the two roundings
cannot pass the range, and the largest number is looked at by itself.
-/

namespace GeoQuery

open Json (Numeral)

namespace Magnitude

def topRank : Nat := 0x7fefffffffffffff

def one : Magnitude := ⟨0x3ff0000000000000, by decide⟩

theorem one_numerator : one.numerator = one.denominator := by
  simp [one, numerator, denominator, mantissa, scale]

theorem ofNat?_zero : ofNat? 0 = some .zero := by
  simp [ofNat?, ofRatio?, rankOfUnits, roundHalfEven, zero]
  rfl

theorem ofNat?_mono {m n : Nat} {y : Magnitude} (h : m ≤ n) (hn : ofNat? n = some y) :
    ∃ x, ofNat? m = some x ∧ x.rank ≤ y.rank :=
  ofRatio?_mono Nat.one_pos Nat.one_pos (Nat.mul_le_mul_right 1 h) hn

theorem mul?_mono {x x' y y' z : Magnitude} (hx : x.rank ≤ x'.rank) (hy : y.rank ≤ y'.rank)
    (h : x'.mul? y' = some z) : ∃ w, x.mul? y = some w := by
  have products : x.numerator * y.numerator * (x'.denominator * y'.denominator) ≤
      x'.numerator * y'.numerator * (x.denominator * y.denominator) := by
    calc x.numerator * y.numerator * (x'.denominator * y'.denominator)
        = x.numerator * x'.denominator * (y.numerator * y'.denominator) :=
          Nat.mul_mul_mul_comm _ _ _ _
      _ ≤ x'.numerator * x.denominator * (y'.numerator * y.denominator) :=
          Nat.mul_le_mul (value_mono hx) (value_mono hy)
      _ = x'.numerator * y'.numerator * (x.denominator * y.denominator) :=
          Nat.mul_mul_mul_comm _ _ _ _
  obtain ⟨w, product, -⟩ := ofRatio?_mono (Nat.mul_pos x.denominator_pos y.denominator_pos)
    (Nat.mul_pos x'.denominator_pos y'.denominator_pos) products h
  exact ⟨w, product⟩

theorem div?_of_one_le (x : Magnitude) {y : Magnitude} (h : y.denominator ≤ y.numerator) :
    ∃ z, x.div? y = some z := by
  have positive : 0 < y.numerator := Nat.lt_of_lt_of_le y.denominator_pos h
  have smaller : x.numerator * y.denominator * x.denominator ≤
      x.numerator * (x.denominator * y.numerator) := by
    rw [Nat.mul_assoc, Nat.mul_comm y.denominator]
    exact Nat.mul_le_mul_left _ (Nat.mul_le_mul_left _ h)
  obtain ⟨z, quotient, -⟩ := ofRatio?_mono (Nat.mul_pos x.denominator_pos positive)
    x.denominator_pos smaller (ofRatio?_self x)
  exact ⟨z, quotient⟩

end Magnitude

theorem Decimal.natural_atMost {m s k : Nat} :
    Decimal.AtMost ⟨m, 0⟩ ⟨s, k⟩ ↔ m ≤ s * 10 ^ k := by
  have decimals := Decimal.atMost_iff_inPlaces (d := ⟨m, 0⟩) (e := ⟨s, k⟩) 0 (Int.le_refl 0)
    (by dsimp only; omega)
  simpa [Decimal.inPlaces] using decimals

open Magnitude (topRank)

namespace Json.Numeral

theorem ofNat?_ten_pow_top :
    ∃ top, top = 308 ∧ (Magnitude.ofNat? (Nat.pow 10 top)).isSome = true :=
  ⟨308, rfl, by decide +kernel⟩

theorem ten_pow_mono {j k : Nat} (h : j ≤ k) : Nat.pow 10 j ≤ Nat.pow 10 k :=
  Nat.pow_le_pow_right (by decide) h

theorem ofNat?_ten_pow {k : Nat} (h : k ≤ 308) :
    Magnitude.ofNat? (Nat.pow 10 k) = some (tenTo k) := by
  obtain ⟨top, htop, inRange⟩ := ofNat?_ten_pow_top
  obtain ⟨y, hy⟩ := Option.isSome_iff_exists.1 inRange
  obtain ⟨x, hx, -⟩ := Magnitude.ofNat?_mono (ten_pow_mono (htop ▸ h)) hy
  rw [tenTo, hx, Option.getD_some]

theorem tenTo_mono {j k : Nat} (h : j ≤ k) (hk : k ≤ 308) : (tenTo j).rank ≤ (tenTo k).rank := by
  obtain ⟨x, hx, le⟩ := Magnitude.ofNat?_mono (ten_pow_mono h) (ofNat?_ten_pow hk)
  have same := hx.symm.trans (ofNat?_ten_pow (Nat.le_trans h hk))
  rwa [Option.some.inj same] at le

theorem one_le_tenTo {k : Nat} (h : k ≤ 308) : (tenTo k).denominator ≤ (tenTo k).numerator := by
  have ratio : Magnitude.one.numerator * 1 ≤ Nat.pow 10 k * Magnitude.one.denominator := by
    rw [Magnitude.one_numerator, Nat.mul_comm]
    exact Nat.mul_le_mul_right _ (Nat.one_le_pow k 10 (by decide))
  obtain ⟨x, hx, le⟩ := Magnitude.ofRatio?_mono Magnitude.one.denominator_pos Nat.one_pos ratio
    (ofNat?_ten_pow h)
  rw [Magnitude.ofRatio?_self] at hx
  have values := Magnitude.value_mono le
  rw [← Option.some.inj hx, Magnitude.one_numerator, Nat.mul_comm (tenTo k).numerator] at values
  exact Nat.le_of_mul_le_mul_left values Magnitude.one.denominator_pos

theorem scale?_of_neg (x : Magnitude) {exponent : Int} (h : exponent < 0) :
    ∃ y, scale? x exponent = some y := by
  fun_induction scale? x exponent with
  | case1 x exponent near nonneg => omega
  | case2 x exponent near negative => exact x.div?_of_one_le (one_le_tenTo near)
  | case3 x exponent far zero => exact ⟨x, rfl⟩
  | case4 x exponent far zero nonneg => omega
  | case5 x exponent far zero negative ih =>
      obtain ⟨y, quotient⟩ := x.div?_of_one_le (one_le_tenTo (Nat.le_refl 308))
      rw [quotient, Option.bind_some]
      exact ih y (by omega)

theorem scale?_natCast (x : Magnitude) {k : Nat} (h : k ≤ 308) :
    scale? x k = x.mul? (tenTo k) := by
  rw [scale?, if_pos (by omega), if_pos (by omega), Int.natAbs_natCast]

@[irreducible] def belowTop : Nat := (2 ^ 54 - 3) * 2 ^ 970

theorem nearest?_above_belowTop :
    Decimal.ReadsAs ⟨belowTop + 1, 0⟩ ⟨topRank, by decide⟩ := by decide +kernel

theorem le_belowTop {s k : Nat} {y : Magnitude} (reads : Decimal.ReadsAs ⟨s, k⟩ y)
    (below : y.rank < topRank) : s * 10 ^ k ≤ belowTop := by
  apply Nat.le_of_not_lt
  intro above
  have atMost := Decimal.natural_atMost.2 (Nat.succ_le_of_lt above)
  obtain ⟨x, top, le⟩ := Decimal.nearest?_mono atMost reads
  rw [← nearest?_above_belowTop.unique top] at le
  exact Nat.not_le_of_gt below le

/-- Significands and powers of ten so large that every other pair of concern is below one of them.
From the 289th power on the range ends before 64 bits do. -/
def corners : List (Nat × Nat) :=
  (0xffffffffffffffff, 288) :: (17976931348623157, 292) ::
    (List.range' 289 20).map fun k => (belowTop / 10 ^ k, k)

theorem corners_mul : ∀ c ∈ corners,
    ((Magnitude.ofNat? c.1).bind fun x => x.mul? (tenTo c.2)).isSome = true := by decide +kernel

theorem mul?_of_le_corner {s k S K : Nat} (corner : (S, K) ∈ corners) (hs : s ≤ S) (hk : k ≤ K)
    (hK : K ≤ 308) : ∃ x z, Magnitude.ofNat? s = some x ∧ x.mul? (tenTo k) = some z := by
  obtain ⟨z, hz⟩ := Option.isSome_iff_exists.1 (corners_mul _ corner)
  obtain ⟨x', hx', hz⟩ := Option.bind_eq_some_iff.1 hz
  obtain ⟨x, hx, le⟩ := Magnitude.ofNat?_mono hs hx'
  obtain ⟨w, hw⟩ := Magnitude.mul?_mono le (tenTo_mono hk hK) hz
  exact ⟨x, w, hx, hw⟩

theorem mul?_tenTo {s k : Nat} (fits : s < 0x10000000000000000) (hk : k ≤ 308)
    (below : s * 10 ^ k ≤ belowTop) :
    ∃ x z, Magnitude.ofNat? s = some x ∧ x.mul? (tenTo k) = some z := by
  -- A power up to the 288th takes all of 64 bits; behind it each power has a corner of its own.
  by_cases early : k ≤ 288
  · exact mul?_of_le_corner (List.mem_cons_self ..) (Nat.le_of_lt_succ fits) early (by decide)
  · have inTable : k ∈ List.range' 289 20 := by
      rw [List.mem_range'_1]
      omega
    have corner : (belowTop / 10 ^ k, k) ∈ corners := by
      apply List.mem_cons_of_mem
      apply List.mem_cons_of_mem
      exact List.mem_map_of_mem inTable
    have positive : 0 < 10 ^ k := Nat.pow_pos (by decide)
    have under : s ≤ belowTop / 10 ^ k := (Nat.le_div_iff_mul_le positive).2 below
    exact mul?_of_le_corner corner under (Nat.le_refl k) hk

theorem ofNat?_of_fits {s : Nat} (fits : s < 0x10000000000000000) :
    ∃ x, Magnitude.ofNat? s = some x := by
  obtain ⟨x, -, hx, -⟩ := mul?_of_le_corner (k := 0) (List.mem_cons_self ..)
    (Nat.le_of_lt_succ fits) (Nat.zero_le 288) (by decide)
  exact ⟨x, hx⟩

theorem belowTop_lt : ∃ places, places = 309 ∧ belowTop < 10 ^ places :=
  ⟨309, rfl, by decide +kernel⟩

theorem power_le_of_le_belowTop {s k : Nat} (nonzero : s ≠ 0) (below : s * 10 ^ k ≤ belowTop) :
    k ≤ 308 := by
  apply Nat.le_of_not_gt
  intro far
  obtain ⟨places, hplaces, past⟩ := belowTop_lt
  have power : 10 ^ places ≤ s * 10 ^ k :=
    calc 10 ^ places ≤ 10 ^ k := Nat.pow_le_pow_right (by decide) (hplaces ▸ far)
      _ ≤ s * 10 ^ k := Nat.le_mul_of_pos_left _ (Nat.pos_of_ne_zero nonzero)
  exact Nat.not_le_of_gt past (Nat.le_trans power below)

/-- The reader computes a magnitude from a significand of 64 bits with any power of ten, if the exact
product is read as a magnitude below the largest one. -/
theorem scale?_of_readsAs {s : Nat} {exponent : Int} {y : Magnitude}
    (fits : s < 0x10000000000000000) (reads : Decimal.ReadsAs ⟨s, exponent⟩ y)
    (below : y.rank < topRank) :
    ∃ z, (Magnitude.ofNat? s).bind (scale? · exponent) = some z := by
  by_cases negative : exponent < 0
  · obtain ⟨x, hx⟩ := ofNat?_of_fits fits
    obtain ⟨z, hz⟩ := scale?_of_neg x negative
    exact ⟨z, by rw [hx, Option.bind_some, hz]⟩
  · obtain ⟨k, rfl⟩ := Int.eq_ofNat_of_zero_le (show 0 ≤ exponent by omega)
    have middle := le_belowTop reads below
    by_cases near : k ≤ 308
    · obtain ⟨x, z, hx, hz⟩ := mul?_tenTo fits near middle
      exact ⟨z, by rw [hx, Option.bind_some, scale?_natCast x near, hz]⟩
    · have zero : s = 0 := by
        apply Decidable.byContradiction
        intro nonzero
        exact near (power_le_of_le_belowTop nonzero middle)
      refine ⟨.zero, ?_⟩
      rw [zero, Magnitude.ofNat?_zero, Option.bind_some, scale?, if_neg (by omega)]
      exact if_pos rfl

theorem le_ofDigitChars (significand : Nat) (digits : List Char) :
    significand ≤ Nat.ofDigitChars 10 digits significand := by
  rw [Nat.ofDigitChars_eq_ofDigitChars_zero]
  have := Nat.mul_le_mul_right significand (Nat.one_le_pow digits.length 10 (by decide))
  omega

theorem fit_of_lt {significand : Nat} {digits : List Char}
    (h : Nat.ofDigitChars 10 digits significand < 0x10000000000000000) :
    fit significand digits = (Nat.ofDigitChars 10 digits significand, []) := by
  induction digits generalizing significand with
  | nil => rfl
  | cons d rest ih =>
      rw [Nat.ofDigitChars_cons] at h ⊢
      rw [fit, if_pos (Nat.lt_of_le_of_lt (le_ofDigitChars _ rest) h), ih h]

theorem fit_eq {significand : Nat} (fits : significand < 0x10000000000000000)
    (digits : List Char) : ∃ taken left, digits = taken ++ left ∧
      fit significand digits = (Nat.ofDigitChars 10 taken significand, left) ∧
      Nat.ofDigitChars 10 taken significand < 0x10000000000000000 := by
  induction digits generalizing significand with
  | nil => exact ⟨[], [], rfl, rfl, fits⟩
  | cons d rest ih =>
      rw [fit]
      by_cases next : 10 * significand + (d.toNat - '0'.toNat) < 0x10000000000000000
      · obtain ⟨taken, left, split, result, bound⟩ := ih next
        rw [if_pos next]
        exact ⟨d :: taken, left, by rw [split, List.cons_append],
          by rw [result, Nat.ofDigitChars_cons], by rwa [Nat.ofDigitChars_cons]⟩
      · rw [if_neg next]
        exact ⟨[], d :: rest, rfl, rfl, fits⟩

/-- The reader starts from a decimal that is not larger than the numeral. -/
theorem leading_atMost_exact {n : Numeral} (whole : digitsValue n.whole < 0x10000000000000000) :
    n.leading.coefficient < 0x10000000000000000 ∧ n.leading.AtMost n.exact := by
  obtain ⟨taken, left, split, result, bound⟩ := fit_eq whole n.fraction
  have first := fit_of_lt whole
  rw [← digitsValue_eq_ofDigitChars] at first
  have leading : n.leading = ⟨Nat.ofDigitChars 10 taken (digitsValue n.whole),
      n.exponentValue - n.fraction.length + left.length⟩ := by
    rw [Numeral.leading, first]
    dsimp only
    rw [result]
    simp only [List.length_nil, split, List.length_append, Decimal.mk.injEq, true_and]
    omega
  rw [leading]
  refine ⟨bound, Decimal.atMost_of_digits_left_out _ ?_⟩
  simp only [split, digitsValue_eq_ofDigitChars, Nat.ofDigitChars_append]
  rw [Nat.ofDigitChars_eq_ofDigitChars_zero (l := left), Nat.mul_comm]
  exact Nat.le_add_right _ _

theorem magnitude?_of_readsAs {n : Numeral} {y : Magnitude}
    (whole : digitsValue n.whole < 0x10000000000000000) (reads : n.exact.ReadsAs y)
    (below : y.rank < topRank) : ∃ z, n.magnitude? = some z := by
  obtain ⟨fits, atMost⟩ := leading_atMost_exact whole
  obtain ⟨x, leading, le⟩ := Decimal.nearest?_mono atMost reads
  exact scale?_of_readsAs fits leading (Nat.lt_of_le_of_lt le below)

theorem ofDigitChars_lt {digits : List Char} (h : ∀ c ∈ digits, c.isDigit) (significand : Nat) :
    Nat.ofDigitChars 10 digits significand < (significand + 1) * 10 ^ digits.length := by
  induction digits generalizing significand with
  | nil => simp
  | cons d rest ih =>
      have digit : d.toNat - '0'.toNat ≤ 9 := by
        have isDigit := h d (List.mem_cons_self ..)
        rw [Char.isDigit_iff_toNat] at isDigit
        exact Nat.sub_le_sub_right isDigit.2 _
      have tail := ih (fun c hc => h c (List.mem_cons_of_mem _ hc))
        (10 * significand + (d.toNat - '0'.toNat))
      rw [Nat.ofDigitChars_cons, List.length_cons, Nat.pow_succ', ← Nat.mul_assoc]
      exact Nat.lt_of_lt_of_le tail (Nat.mul_le_mul_right _ (by omega))

theorem digitsValue_whole_lt {n : Numeral} (h : n.WellFormed) (short : n.whole.length ≤ 16) :
    digitsValue n.whole < 0x10000000000000000 := by
  have bound := ofDigitChars_lt h.whole_digits 0
  have power : 10 ^ n.whole.length ≤ 10 ^ 16 := Nat.pow_le_pow_right (by decide) short
  rw [← digitsValue_eq_ofDigitChars] at bound
  omega

end Json.Numeral

namespace Decimal

theorem length_whole_generalNumeral (negative : Bool) (d : Decimal) :
    (generalNumeral negative d).whole.length ≤ 16 := by
  rw [generalNumeral]
  split
  case isTrue order =>
    rw [magnitudeOrder] at order
    rw [pointedNumeral]
    split
    case isTrue whole =>
      simp only [List.length_append, length_zeros]
      omega
    case isFalse fraction =>
      have places : -(d.places : Int) = d.exponent := neg_places (by rw [Decimal.places]; omega)
      rw [plainNumeral, if_neg (by omega)]
      split
      · simp only [List.length_take]
        omega
      · simp
  case isFalse =>
    simp only [scientificNumeral, List.length_take]
    omega

theorem generalNumeral_not_integer (negative : Bool) (d : Decimal) :
    (generalNumeral negative d).fraction ≠ [] ∨ (generalNumeral negative d).exponent ≠ none := by
  rw [generalNumeral]
  split
  · rw [pointedNumeral]
    split
    · exact .inl (by simp)
    case isFalse fraction =>
      have places : d.places ≠ 0 := by rw [Decimal.places]; omega
      rw [plainNumeral, if_neg places]
      split
      · refine .inl ?_
        rw [ne_eq, List.drop_eq_nil_iff]
        omega
      · exact .inl (by simp [Decimal.digits])
  · exact .inr (by simp [scientificNumeral])

theorem generalNumeral_negative (negative : Bool) (d : Decimal) :
    (generalNumeral negative d).negative = negative := by
  rw [generalNumeral, pointedNumeral]
  split
  · split
    · rfl
    · exact plainNumeral_negative negative d
  · rfl

end Decimal

namespace Json.Numeral

theorem integer?_eq_none {n : Numeral} (h : n.fraction ≠ [] ∨ n.exponent ≠ none) :
    n.integer? = none := by
  rw [integer?, if_neg]
  intro h
  obtain ⟨fraction, exponent⟩ := h
  exact h.elim (absurd fraction) (absurd exponent)

theorem shortest_top : Decimal.shortest .even ⟨topRank, by decide⟩ = ⟨17976931348623157, 292⟩ := by
  decide +kernel

theorem generalNumeral_top (negative : Bool) :
    Decimal.generalNumeral negative ⟨17976931348623157, 292⟩ =
      ⟨negative, ['1'], "7976931348623157".toList, some ⟨false, "308".toList⟩⟩ := by
  cases negative <;> decide +kernel

theorem leading_top (negative : Bool) :
    (Decimal.generalNumeral negative ⟨17976931348623157, 292⟩).leading =
      ⟨17976931348623157, (292 : Nat)⟩ := by
  rw [generalNumeral_top]
  cases negative <;> rfl

theorem magnitude?_shortest (negative : Bool) {x : Magnitude} (nonzero : x ≠ .zero) :
    ∃ y, (Decimal.generalNumeral negative (Decimal.shortest .even x)).magnitude? = some y := by
  have reads := Decimal.shortest_readsAs .even x
  have written := Decimal.general_writtenAs negative
    (Decimal.coefficient_pos_of_readsAs reads nonzero)
  -- The largest number is above the middle, so its own digits are looked at.
  by_cases top : x.rank = topRank
  · have largest : x = ⟨topRank, by decide⟩ := by
      cases x
      cases top
      rfl
    obtain ⟨m, y, hm, hy⟩ := mul?_of_le_corner (List.mem_cons_of_mem _ (List.mem_cons_self ..))
      (Nat.le_refl 17976931348623157) (Nat.le_refl 292) (by decide)
    refine ⟨y, ?_⟩
    rw [largest, shortest_top, magnitude?, leading_top]
    dsimp only
    rw [hm, Option.bind_some, scale?_natCast m (by decide), hy]
  · refine magnitude?_of_readsAs
      (digitsValue_whole_lt written.wellFormed (Decimal.length_whole_generalNumeral _ _))
      ((written.value.readsAs_iff x).2 reads) ?_
    have := x.rank_lt
    rw [topRank] at top ⊢
    omega

end Json.Numeral

end GeoQuery
