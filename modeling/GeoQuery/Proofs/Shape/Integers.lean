import GeoQuery.Proofs.Json.Canonical
import GeoQuery.Proofs.Json.Tree
import GeoQuery.Shape.Basic

namespace GeoQuery

namespace Json.Numeral

/-- The numeral is a row of digits and nothing else. -/
structure IsDigits (n : Numeral) : Prop where
  unsigned : n.negative = false
  noFraction : n.fraction = []
  noExponent : n.exponent = none

theorem toDigits_digitsValue {n : Numeral} (h : n.WellFormed) :
    Nat.toDigits 10 (digitsValue n.whole) = n.whole :=
  (wellFormed_toDigits false _).whole_eq h Nat.ofDigitChars_ten_toDigits

theorem toString_digitsValue {n : Numeral} (h : n.WellFormed) :
    toString (digitsValue n.whole) = String.ofList n.whole := by
  change Nat.repr _ = _
  rw [Nat.repr, toDigits_digitsValue h]

theorem value?_eq_integer_iff {n : Numeral} {i : Integer} :
    n.value? = some (.integer i) ↔ n.integer? = some i := by
  rw [value?]
  cases n.integer? with
  | none => simp
  | some j => simp

theorem integer?_nonneg_iff {n : Numeral} {i : Integer} :
    n.integer? = some i ∧ 0 ≤ i.val ↔ n.IsDigits ∧ (digitsValue n.whole : Int) = i.val := by
  obtain ⟨val, ge_min, lt_max⟩ := i
  constructor
  · intro h
    obtain ⟨own, nonneg⟩ := h
    rw [integer?] at own
    split at own
    case isFalse => cases own
    case isTrue plain =>
      split at own
      case isTrue negative =>
        -- a signed numeral is an integer only if its value is below zero
        split at own
        case isFalse => cases own
        case isTrue range =>
          cases own
          dsimp only at nonneg
          omega
      case isFalse unsigned =>
        split at own
        case isFalse => cases own
        case isTrue fits =>
          cases own
          exact ⟨⟨Bool.eq_false_iff.2 unsigned, plain.1, plain.2⟩, rfl⟩
  · intro h
    obtain ⟨⟨unsigned, noFraction, noExponent⟩, rfl⟩ := h
    have fits : digitsValue n.whole < 0x10000000000000000 := by exact_mod_cast lt_max
    exact ⟨by simp [integer?, unsigned, noFraction, noExponent, fits, Integer.ofNat], by simp⟩

end Json.Numeral

namespace Json.Tree

variable {n : Numeral} {token : List Char}

theorem Spells.wellFormed (h : (Tree.number n).Spells token) : n.WellFormed := by
  cases h with
  | positive sign digits => exact digits.wellFormed
  | negative sign digits => exact digits.wellFormed

theorem Spells.eq_whole (h : (Tree.number n).Spells token) (plain : n.IsDigits) :
    token = n.whole := by
  cases h with
  | positive sign digits =>
      obtain ⟨-, tail, rfl, exponent⟩ := digits
      rw [plain.noExponent] at exponent
      obtain rfl : tail = [] := exponent
      rw [plain.noFraction, Numeral.renderFraction, List.append_nil, List.append_nil]
  | negative sign digits => cases plain.unsigned.symm.trans sign

theorem Spells.isDigits_iff (h : (Tree.number n).Spells token) :
    n.IsDigits ↔ ∀ c ∈ token, c.isDigit := by
  refine ⟨fun plain => h.eq_whole plain ▸ h.wellFormed.whole_digits, fun each => ?_⟩
  cases h with
  | negative sign digits => cases each '-' List.mem_cons_self
  | positive sign digits =>
      obtain ⟨-, tail, rfl, exponent⟩ := digits
      obtain ⟨-, behind⟩ := List.forall_mem_append.1 each
      obtain ⟨fraction, tailDigits⟩ := List.forall_mem_append.1 behind
      refine ⟨sign, ?_, ?_⟩
      · cases hf : n.fraction with
        | nil => rfl
        | cons c rest =>
            rw [hf] at fraction
            cases fraction '.' List.mem_cons_self
      · cases he : n.exponent with
        | none => rfl
        | some e =>
            rw [he] at exponent
            obtain ⟨mark, sign, letter, -, rfl⟩ := exponent
            have digit := tailDigits mark List.mem_cons_self
            obtain rfl | rfl := letter <;> cases digit

end Json.Tree

open Json

namespace Scalar

def IsInteger (kind : Scalar) : Prop := kind = .word64 ∨ kind = .word32

def limit : Scalar → Nat
  | .word32 => 0x100000000
  | _ => 0x10000000000000000

def toNat : (kind : Scalar) → kind.Value → Nat
  | .word64, (n : UInt64) => n.toNat
  | .word32, (n : UInt32) => n.toNat
  | _, _ => 0

variable {kind : Scalar}

theorem exists_toNat_iff (h : kind.IsInteger) {value : Nat} :
    (∃ x : kind.Value, kind.toNat x = value) ↔ value < kind.limit := by
  obtain rfl | rfl := h
  · refine ⟨fun ⟨x, same⟩ => same ▸ UInt64.toNat_lt x, fun fits => ⟨UInt64.ofNat value, ?_⟩⟩
    exact UInt64.toNat_ofNat_of_lt fits
  · refine ⟨fun ⟨x, same⟩ => same ▸ UInt32.toNat_lt x, fun fits => ⟨UInt32.ofNat value, ?_⟩⟩
    exact UInt32.toNat_ofNat_of_lt fits

theorem ite_eq_ok_iff {α ε : Type} {p : Prop} [Decidable p] {a b : α} {e : ε} :
    (if p then Except.ok a else .error e) = .ok b ↔ p ∧ a = b := by
  split <;> simp [*]

theorem accept_word64_iff {i : Integer} {x : UInt64} :
    word64.accept (.leaf (.number (.integer i))) = .ok x ↔ 0 ≤ i.val ∧ i.val = x.toNat := by
  have fits : i.val.toNat < 0x10000000000000000 := by
    have := i.lt_max
    omega
  have word : UInt64.ofNat i.val.toNat = x ↔ i.val.toNat = x.toNat := by
    rw [← UInt64.toNat_inj, UInt64.toNat_ofNat_of_lt' fits]
  refine ite_eq_ok_iff.trans (and_congr_right fun nonneg => word.trans ?_)
  omega

theorem accept_word32_iff {i : Integer} {x : UInt32} :
    word32.accept (.leaf (.number (.integer i))) = .ok x ↔ 0 ≤ i.val ∧ i.val = x.toNat := by
  have word (fits : i.val.toNat < 0x100000000) :
      UInt32.ofNat i.val.toNat = x ↔ i.val.toNat = x.toNat := by
    rw [← UInt32.toNat_inj, UInt32.toNat_ofNat_of_lt' fits]
  refine ite_eq_ok_iff.trans ⟨fun h => ?_, fun h => ?_⟩
  · obtain ⟨⟨nonneg, fits⟩, same⟩ := h
    have same := (word (by omega)).1 same
    omega
  · obtain ⟨nonneg, same⟩ := h
    have below := x.toNat_lt
    exact ⟨⟨nonneg, by omega⟩, (word (by omega)).2 (by omega)⟩

/-- An integer of a kind is taken from an integer in its range, and from no other number. -/
theorem accept_integer_iff (h : kind.IsInteger) {number : Number} {x : kind.Value} :
    kind.accept (.leaf (.number number)) = .ok x ↔
      ∃ i : Integer, number = .integer i ∧ 0 ≤ i.val ∧ i.val = kind.toNat x := by
  cases number with
  | fraction y => obtain rfl | rfl := h <;> simp [accept]
  | integer i =>
      simp only [Number.integer.injEq, exists_eq_left']
      obtain rfl | rfl := h
      · exact accept_word64_iff
      · exact accept_word32_iff

/-- An integer of a kind is taken from a numeral exactly if that is a row of digits with its value. -/
theorem accept_numeral_iff (h : kind.IsInteger) {n : Numeral} {x : kind.Value} :
    (∃ number, n.value? = some number ∧ kind.accept (.leaf (.number number)) = .ok x) ↔
      n.IsDigits ∧ digitsValue n.whole = kind.toNat x := by
  constructor
  · intro taken
    obtain ⟨number, value, accepted⟩ := taken
    obtain ⟨i, rfl, nonneg, same⟩ := (accept_integer_iff h).1 accepted
    obtain ⟨digits, whole⟩ :=
      Numeral.integer?_nonneg_iff.1 ⟨Numeral.value?_eq_integer_iff.1 value, nonneg⟩
    exact ⟨digits, by exact_mod_cast whole.trans same⟩
  · intro plain
    obtain ⟨digits, whole⟩ := plain
    have fits : kind.toNat x < 0x10000000000000000 := by
      have below := (exists_toNat_iff h).1 ⟨x, rfl⟩
      obtain rfl | rfl := h
      · exact below
      · exact below.trans (by decide)
    have own := Numeral.integer?_nonneg_iff.2 (show _ ∧ _ = (Integer.ofNat _ fits).val from
      ⟨digits, congrArg Nat.cast whole⟩)
    exact ⟨_, Numeral.value?_eq_integer_iff.2 own.1,
      (accept_integer_iff h).2 ⟨_, rfl, own.2, rfl⟩⟩

end Scalar

end GeoQuery
