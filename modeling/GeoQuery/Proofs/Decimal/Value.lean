import GeoQuery.Decimal.Shortest
import GeoQuery.Proofs.Binary64.Rounding

/-!
Decimals by value. Two decimals of one value are read as the same magnitude, a smaller decimal as no
larger magnitude, and the shortest decimal of a magnitude is read as that magnitude.
-/

namespace GeoQuery

namespace Decimal

def AtMost (d e : Decimal) : Prop := d.numerator * e.denominator ≤ e.numerator * d.denominator

def SameValue (d e : Decimal) : Prop := d.numerator * e.denominator = e.numerator * d.denominator

theorem denominator_pos (d : Decimal) : 0 < d.denominator := by
  rw [denominator, Nat.pow_eq]
  exact Nat.pow_pos (by decide)

/-- The value counted in units of `10 ^ -places`, of which it is a whole number. -/
def inPlaces (places : Nat) (d : Decimal) : Nat := d.coefficient * 10 ^ (d.exponent + places).toNat

theorem numerator_mul_pow {d : Decimal} {places : Nat} (h : 0 ≤ d.exponent + places) :
    d.numerator * 10 ^ places = d.inPlaces places * d.denominator := by
  have exponents : d.exponent.toNat + places = (d.exponent + places).toNat + (-d.exponent).toNat := by
    omega
  rw [numerator, inPlaces, denominator, Nat.pow_eq, Nat.pow_eq, Nat.mul_assoc, Nat.mul_assoc,
    ← Nat.pow_add, ← Nat.pow_add, exponents]

theorem cross_mul_pow {d e : Decimal} {places : Nat} (h : 0 ≤ d.exponent + places) :
    d.numerator * e.denominator * 10 ^ places =
      d.inPlaces places * (d.denominator * e.denominator) := by
  rw [Nat.mul_right_comm, numerator_mul_pow h, Nat.mul_assoc]

theorem atMost_iff_inPlaces {d e : Decimal} (places : Nat) (hd : 0 ≤ d.exponent + places)
    (he : 0 ≤ e.exponent + places) : d.AtMost e ↔ d.inPlaces places ≤ e.inPlaces places := by
  have pos : 0 < d.denominator * e.denominator := Nat.mul_pos d.denominator_pos e.denominator_pos
  rw [AtMost, ← Nat.mul_le_mul_right_iff (Nat.pow_pos (n := places) (show 0 < 10 by decide)),
    cross_mul_pow hd, cross_mul_pow he, Nat.mul_comm e.denominator,
    Nat.mul_le_mul_right_iff pos]

theorem sameValue_iff_inPlaces {d e : Decimal} (places : Nat) (hd : 0 ≤ d.exponent + places)
    (he : 0 ≤ e.exponent + places) : d.SameValue e ↔ d.inPlaces places = e.inPlaces places := by
  have pos : 0 < d.denominator * e.denominator := Nat.mul_pos d.denominator_pos e.denominator_pos
  rw [SameValue, ← Nat.mul_left_inj (Nat.ne_of_gt (Nat.pow_pos (n := places) (show 0 < 10 by decide))),
    cross_mul_pow hd, cross_mul_pow he, Nat.mul_comm e.denominator,
    Nat.mul_left_inj (Nat.ne_of_gt pos)]

@[refl]
theorem SameValue.refl (d : Decimal) : d.SameValue d := Eq.refl _

theorem SameValue.symm {d e : Decimal} (h : d.SameValue e) : e.SameValue d := Eq.symm h

theorem SameValue.trans {d e f : Decimal} (hde : d.SameValue e) (hef : e.SameValue f) :
    d.SameValue f := by
  obtain ⟨places, hd, he, hf⟩ : ∃ places : Nat, 0 ≤ d.exponent + places ∧
      0 ≤ e.exponent + places ∧ 0 ≤ f.exponent + places :=
    ⟨d.exponent.natAbs + e.exponent.natAbs + f.exponent.natAbs, by omega, by omega, by omega⟩
  rw [sameValue_iff_inPlaces places hd hf]
  exact ((sameValue_iff_inPlaces places hd he).1 hde).trans
    ((sameValue_iff_inPlaces places he hf).1 hef)

theorem sameValue_shift (coefficient zeros : Nat) (exponent : Int) :
    SameValue ⟨coefficient * 10 ^ zeros, exponent⟩ ⟨coefficient, exponent + zeros⟩ := by
  rw [sameValue_iff_inPlaces exponent.natAbs (by dsimp only; omega) (by dsimp only; omega)]
  have exponents : (exponent + zeros + exponent.natAbs).toNat =
      zeros + (exponent + exponent.natAbs).toNat := by omega
  simp only [inPlaces]
  rw [exponents, Nat.pow_add, Nat.mul_assoc]

theorem atMost_of_digits_left_out {kept left coefficient : Nat} (exponent : Int)
    (h : kept * 10 ^ left ≤ coefficient) :
    AtMost ⟨kept, exponent + left⟩ ⟨coefficient, exponent⟩ := by
  rw [atMost_iff_inPlaces exponent.natAbs (by dsimp only; omega) (by dsimp only; omega)]
  have exponents : (exponent + left + exponent.natAbs).toNat =
      left + (exponent + exponent.natAbs).toNat := by omega
  simp only [inPlaces]
  rw [exponents, Nat.pow_add, ← Nat.mul_assoc]
  exact Nat.mul_le_mul_right _ h

theorem nearest?_congr {d e : Decimal} (h : d.SameValue e) : d.nearest? = e.nearest? := by
  rw [nearest?_eq_ofRatio?, nearest?_eq_ofRatio?]
  exact Magnitude.ofRatio?_congr d.denominator_pos e.denominator_pos h

theorem SameValue.readsAs_iff {d e : Decimal} (h : d.SameValue e) (x : Magnitude) :
    d.ReadsAs x ↔ e.ReadsAs x := by
  rw [ReadsAs, ReadsAs, nearest?_congr h]

theorem nearest?_mono {d e : Decimal} {y : Magnitude} (h : d.AtMost e) (he : e.ReadsAs y) :
    ∃ x, d.ReadsAs x ∧ x.rank ≤ y.rank := by
  rw [ReadsAs, nearest?_eq_ofRatio?] at he
  obtain ⟨x, hx, hrank⟩ := Magnitude.ofRatio?_mono d.denominator_pos e.denominator_pos h he
  exact ⟨x, (nearest?_eq_ofRatio? d).trans hx, hrank⟩

theorem ReadsAs.unique {d : Decimal} {x y : Magnitude} (hx : d.ReadsAs x) (hy : d.ReadsAs y) :
    x = y :=
  Option.some.inj (hx.symm.trans hy)

theorem exact_readsAs (x : Magnitude) : (exact x).ReadsAs x := by
  rw [ReadsAs, nearest?_eq_ofRatio?, ← Magnitude.ofRatio?_self x]
  apply Magnitude.ofRatio?_congr (denominator_pos _) x.denominator_pos
  obtain ⟨places, hplaces⟩ : ∃ places, 1074 - x.scale = places := ⟨_, rfl⟩
  have whole : (-(places : Int)).toNat = 0 := by omega
  have fraction : (- -(places : Int)).toNat = places := by omega
  have tens : 10 ^ places = 5 ^ places * 2 ^ places := by rw [← Nat.mul_pow]
  simp only [exact, numerator, denominator, Magnitude.denominator, hplaces, whole, fraction,
    Nat.pow_eq, Nat.pow_zero, Nat.mul_one, tens, Nat.mul_assoc]

theorem Bracket.nearer_cases (tie : Tie) (b : Bracket) :
    b.nearer tie = b.lower ∧ b.side ≠ .gt ∨ b.nearer tie = b.upper ∧ b.side ≠ .lt := by
  cases side : b.side with
  | lt => exact .inl ⟨by simp only [nearer, side], by decide⟩
  | gt => exact .inr ⟨by simp only [nearer, side], by decide⟩
  | eq =>
      cases tie with
      | up => exact .inr ⟨by simp only [nearer, side], by decide⟩
      | even =>
          by_cases even : b.lower.coefficient % 2 = 0
          · exact .inl ⟨by simp only [nearer, side, even, if_true], by decide⟩
          · exact .inr ⟨by simp only [nearer, side, even, if_false], by decide⟩

section

variable {tie : Tie} {x : Magnitude} {b : Bracket} {d : Decimal}

theorem Bracket.denoting?_cases (h : b.denoting? tie x = some d) :
    d = b.nearer tie ∧ b.lower.ReadsAs x ∧ b.upper.ReadsAs x ∨
      d = b.lower ∧ b.lower.ReadsAs x ∧ ¬ b.upper.ReadsAs x ∨
      d = b.upper ∧ ¬ b.lower.ReadsAs x ∧ b.upper.ReadsAs x := by
  rw [denoting?] at h
  split at h
  case isTrue lower =>
    split at h
    case isTrue upper => exact .inl ⟨(Option.some.inj h).symm, lower, upper⟩
    case isFalse upper => exact .inr (.inl ⟨(Option.some.inj h).symm, lower, upper⟩)
  case isFalse lower =>
    split at h
    case isTrue upper => exact .inr (.inr ⟨(Option.some.inj h).symm, lower, upper⟩)
    case isFalse => cases h

theorem Bracket.denoting?_mem (h : b.denoting? tie x = some d) : d = b.lower ∨ d = b.upper := by
  obtain ⟨taken, -⟩ | ⟨taken, -⟩ | ⟨taken, -⟩ := denoting?_cases h
  · exact taken ▸ (b.nearer_cases tie).imp And.left And.left
  · exact .inl taken
  · exact .inr taken

theorem Bracket.denoting?_readsAs (h : b.denoting? tie x = some d) : d.ReadsAs x := by
  obtain ⟨rfl, lower, upper⟩ | ⟨rfl, lower, -⟩ | ⟨rfl, -, upper⟩ := denoting?_cases h
  · obtain ⟨taken, -⟩ | ⟨taken, -⟩ := b.nearer_cases tie
    · exact taken ▸ lower
    · exact taken ▸ upper
  · exact lower
  · exact upper

end

theorem trim_sameValue (fuel : Nat) (d : Decimal) : (trim fuel d).SameValue d := by
  induction fuel generalizing d with
  | zero => rfl
  | succ fuel ih =>
      rw [trim]
      split
      case isTrue zero =>
        have coefficient : d.coefficient = d.coefficient / 10 * 10 ^ 1 := by omega
        have shifted := sameValue_shift (d.coefficient / 10) 1 d.exponent
        rw [← coefficient] at shifted
        exact (ih _).trans shifted.symm
      case isFalse => rfl

/-- The shortest decimal of a magnitude is read back as the magnitude. -/
theorem shortest_readsAs (tie : Tie) (x : Magnitude) : (shortest tie x).ReadsAs x := by
  rw [shortest, (trim_sameValue _ _).readsAs_iff]
  generalize found : (List.range' 1 17).findSome? (fun (digits : Nat) =>
    (bracket x.numerator x.denominator (order x.numerator x.denominator - digits)).denoting? tie x)
      = result
  cases result with
  | none => exact exact_readsAs x
  | some d =>
      obtain ⟨digits, -, denoting⟩ := List.exists_of_findSome?_eq_some found
      exact Bracket.denoting?_readsAs denoting

end Decimal

end GeoQuery
