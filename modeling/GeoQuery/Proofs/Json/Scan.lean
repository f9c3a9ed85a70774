import GeoQuery.Json.Scan
import GeoQuery.Proofs.Outcome
import Mathlib.Data.List.DropRight

namespace GeoQuery.Json

open Outcome

theorem skipBlanks_length_le (text : List Char) : (skipBlanks text).length ≤ text.length :=
  List.length_dropWhile_le _ _

@[simp] theorem skipBlanks_idem (text : List Char) :
    skipBlanks (skipBlanks text) = skipBlanks text :=
  List.dropWhile_idempotent _ _

theorem skipBlanks_cons {c : Char} (solid : isBlank c = false) (rest : List Char) :
    skipBlanks (c :: rest) = c :: rest := by
  simp [skipBlanks, solid]

theorem scanKeyword_length_le {word text rest : List Char} (h : scanKeyword word text = .ok rest) :
    rest.length ≤ text.length := by
  fun_induction scanKeyword word text with
  | case1 text =>
      cases h
      exact Nat.le_refl _
  | case2 => cases h
  | case3 word c text ih => exact Nat.le_succ_of_le (ih h)
  | case4 => cases h

theorem scanString_length_lt {read text rest : List Char} {s : String}
    (h : scanString read text = .ok (s, rest)) : rest.length < text.length := by
  fun_induction scanString read text <;> simp_all <;> omega

namespace Numeral

theorem dropDigits_length_le (text : List Char) :
    (text.dropWhile Char.isDigit).length ≤ text.length :=
  (List.dropWhile_sublist _).length_le

theorem scanWhole_length_lt {ended : Cause} {text digits rest : List Char}
    (h : scanWhole ended text = .ok (digits, rest)) : rest.length < text.length := by
  unfold scanWhole at h
  split at h
  · cases h
  · next c r =>
      split at h
      · split at h
        · cases h
        · cases h
          exact Nat.lt_succ_self _
      · split at h
        · cases h
          exact Nat.lt_succ_of_le (dropDigits_length_le r)
        · cases h

theorem scanFraction_length_le {ended : Cause} {text digits rest : List Char}
    (h : scanFraction ended text = .ok (digits, rest)) : rest.length ≤ text.length := by
  unfold scanFraction at h
  split at h
  · cases h
  · next c r =>
      split at h
      · cases h
        have := dropDigits_length_le r
        simp only [List.length_cons]
        omega
      · cases h
  · cases h
    exact Nat.le_refl _

theorem scanSign_length_le (text : List Char) : (scanSign text).2.length ≤ text.length := by
  unfold scanSign
  split <;> simp

theorem scanExponent_length_le {ended : Cause} {text rest : List Char} {e : Option Exponent}
    (h : scanExponent ended text = .ok (e, rest)) : rest.length ≤ text.length := by
  unfold scanExponent at h
  split at h
  · cases h
    exact Nat.le_refl _
  · next c r =>
      have sign := scanSign_length_le r
      split at h
      · split at h
        · cases h
        · next negative d r' hsign =>
            rw [hsign] at sign
            split at h
            · cases h
              have := dropDigits_length_le r'
              simp only [List.length_cons] at sign ⊢
              omega
            · cases h
      · cases h
        exact Nat.le_refl _

theorem read_length_lt {negative : Bool} {text rest : List Char} {n : Number}
    (h : read negative text = .ok (n, rest)) : rest.length < text.length := by
  obtain ⟨⟨numeral, back⟩, hscan, hvalue⟩ := bind_eq_ok_iff.1 h
  obtain ⟨⟨whole, r₁⟩, hwhole, hscan⟩ := bind_eq_ok_iff.1 hscan
  obtain ⟨⟨fraction, r₂⟩, hfraction, hscan⟩ := bind_eq_ok_iff.1 hscan
  obtain ⟨⟨exponent, r₃⟩, hexponent, hscan⟩ := bind_eq_ok_iff.1 hscan
  cases hscan
  have whole := scanWhole_length_lt hwhole
  have fraction := scanFraction_length_le hfraction
  have exponent := scanExponent_length_le hexponent
  dsimp only at hvalue
  split at hvalue
  · cases hvalue
    omega
  · cases hvalue

end Numeral

/-- What is found is told by the first character behind the blanks. -/
inductive Begins : List Char → Found → List Char → Prop
  | array (inside : List Char) : Begins ('[' :: inside) .array ('[' :: inside)
  | object (inside : List Char) : Begins ('{' :: inside) .object ('{' :: inside)
  | text {inside rest : List Char} {s : String} (scanned : scanString [] inside = .ok (s, rest)) :
      Begins ('"' :: inside) (.leaf (.text s)) rest
  | null {inside rest : List Char} (scanned : scanKeyword ['u', 'l', 'l'] inside = .ok rest) :
      Begins ('n' :: inside) (.leaf .null) rest
  | boolean {c : Char} {inside rest : List Char} {b : Bool} (other : c ∉ ['[', '{', '"', 'n'])
      (shorter : rest.length ≤ inside.length) : Begins (c :: inside) (.leaf (.boolean b)) rest
  | number {c : Char} {inside rest : List Char} {n : Number} (other : c ∉ ['[', '{', '"', 'n'])
      (shorter : rest.length ≤ inside.length) : Begins (c :: inside) (.leaf (.number n)) rest

theorem begins_of_scanFound {text rest : List Char} {found : Found}
    (h : scanFound text = .ok (found, rest)) : Begins (skipBlanks text) found rest := by
  unfold scanFound at h
  split at h
  · cases h
  · next hr =>
      cases h
      rw [hr]
      exact .array _
  · next hr =>
      cases h
      rw [hr]
      exact .object _
  · next hr =>
      obtain ⟨⟨s, back⟩, scanned, heq⟩ := map_eq_ok_iff.1 h
      cases heq
      rw [hr]
      exact .text scanned
  · next hr =>
      obtain ⟨back, scanned, heq⟩ := map_eq_ok_iff.1 h
      cases heq
      rw [hr]
      exact .null scanned
  · next hr =>
      obtain ⟨back, scanned, heq⟩ := map_eq_ok_iff.1 h
      cases heq
      rw [hr]
      exact .boolean (by decide) (scanKeyword_length_le scanned)
  · next hr =>
      obtain ⟨back, scanned, heq⟩ := map_eq_ok_iff.1 h
      cases heq
      rw [hr]
      exact .boolean (by decide) (scanKeyword_length_le scanned)
  · next hr =>
      obtain ⟨⟨n, back⟩, scanned, heq⟩ := map_eq_ok_iff.1 h
      cases heq
      rw [hr]
      exact .number (by decide) (Nat.le_of_lt (Numeral.read_length_lt scanned))
  · next c inside _ _ _ _ _ _ _ hr =>
      split at h
      · next digit =>
          obtain ⟨⟨n, back⟩, scanned, heq⟩ := map_eq_ok_iff.1 h
          cases heq
          rw [hr]
          refine .number ?_ (Nat.le_of_lt_succ (Numeral.read_length_lt scanned))
          intro member
          simp only [List.mem_cons, List.not_mem_nil, or_false] at member
          obtain rfl | rfl | rfl | rfl := member <;> exact absurd digit (by decide)
      · cases h

theorem exists_begins_of_scanFound {text rest : List Char} {found : Found}
    (h : scanFound text = .ok (found, rest)) :
    ∃ blanked, skipBlanks text = blanked ∧ Begins blanked found rest :=
  ⟨_, rfl, begins_of_scanFound h⟩

theorem scanFound_array_iff {text front : List Char} :
    scanFound text = .ok (.array, front) ↔
      ∃ inside, skipBlanks text = '[' :: inside ∧ front = '[' :: inside := by
  constructor
  · intro h
    obtain ⟨_, hb, begins⟩ := exists_begins_of_scanFound h
    cases begins
    exact ⟨_, hb, rfl⟩
  · intro h
    obtain ⟨inside, hb, rfl⟩ := h
    simp [scanFound, hb]

theorem scanFound_object_iff {text front : List Char} :
    scanFound text = .ok (.object, front) ↔
      ∃ inside, skipBlanks text = '{' :: inside ∧ front = '{' :: inside := by
  constructor
  · intro h
    obtain ⟨_, hb, begins⟩ := exists_begins_of_scanFound h
    cases begins
    exact ⟨_, hb, rfl⟩
  · intro h
    obtain ⟨inside, hb, rfl⟩ := h
    simp [scanFound, hb]

theorem scanFound_text_iff {text rest : List Char} {s : String} :
    scanFound text = .ok (.leaf (.text s), rest) ↔
      ∃ inside, skipBlanks text = '"' :: inside ∧ scanString [] inside = .ok (s, rest) := by
  constructor
  · intro h
    obtain ⟨_, hb, begins⟩ := exists_begins_of_scanFound h
    cases begins with
    | text scanned => exact ⟨_, hb, scanned⟩
  · intro h
    obtain ⟨inside, hb, scanned⟩ := h
    simp [scanFound, hb, scanned, Except.map]

theorem scanFound_null_iff {text rest : List Char} :
    scanFound text = .ok (.leaf .null, rest) ↔
      ∃ inside, skipBlanks text = 'n' :: inside ∧ scanKeyword ['u', 'l', 'l'] inside = .ok rest := by
  constructor
  · intro h
    obtain ⟨_, hb, begins⟩ := exists_begins_of_scanFound h
    cases begins with
    | null scanned => exact ⟨_, hb, scanned⟩
  · intro h
    obtain ⟨inside, hb, scanned⟩ := h
    simp [scanFound, hb, scanned, Except.map]

theorem Begins.length_lt {text rest : List Char} {l : Leaf} (h : Begins text (.leaf l) rest) :
    rest.length < text.length := by
  cases h with
  | text scanned => exact Nat.lt_succ_of_lt (scanString_length_lt scanned)
  | null scanned => exact Nat.lt_succ_of_le (scanKeyword_length_le scanned)
  | boolean _ shorter => exact Nat.lt_succ_of_le shorter
  | number _ shorter => exact Nat.lt_succ_of_le shorter

theorem Begins.length_le {text rest : List Char} {found : Found} (h : Begins text found rest) :
    rest.length ≤ text.length := by
  cases found with
  | leaf l => exact Nat.le_of_lt h.length_lt
  | array =>
      cases h
      exact Nat.le_refl _
  | object =>
      cases h
      exact Nat.le_refl _

theorem scanFound_length_le {text rest : List Char} {found : Found}
    (h : scanFound text = .ok (found, rest)) : rest.length ≤ text.length :=
  Nat.le_trans (begins_of_scanFound h).length_le (skipBlanks_length_le text)

theorem scanFound_length_lt {text rest : List Char} {l : Leaf}
    (h : scanFound text = .ok (.leaf l, rest)) : rest.length < text.length :=
  Nat.lt_of_lt_of_le (begins_of_scanFound h).length_lt (skipBlanks_length_le text)

@[simp] theorem scanFound_skipBlanks (text : List Char) :
    scanFound (skipBlanks text) = scanFound text := by
  simp only [scanFound, skipBlanks_idem]

end GeoQuery.Json
