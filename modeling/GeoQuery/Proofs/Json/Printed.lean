import GeoQuery.Proofs.Argument
import GeoQuery.Proofs.Json.Render
import Mathlib.Data.Char

namespace GeoQuery

namespace Text

def Solid (text : List Char) : Prop := ∀ c ∈ text, ' ' < c

instance (text : List Char) : Decidable (Solid text) :=
  decidable_of_iff (text.all fun c => ' ' < c) (by simp [Solid])

def Printed (text : List Char) : Prop := ∀ c ∈ text, ' ' ≤ c

instance (text : List Char) : Decidable (Printed text) :=
  decidable_of_iff (text.all fun c => ' ' ≤ c) (by simp [Printed])

section

variable {front back text : List Char} {c : Char}

theorem Solid.append (h : Solid front) (h' : Solid back) : Solid (front ++ back) :=
  List.forall_mem_append.2 ⟨h, h'⟩

theorem Solid.printed (h : Solid text) : Printed text := fun c member => le_of_lt (h c member)

theorem Printed.append (h : Printed front) (h' : Printed back) : Printed (front ++ back) :=
  List.forall_mem_append.2 ⟨h, h'⟩

theorem Printed.cons (printed : ' ' ≤ c) (h : Printed text) : Printed (c :: text) :=
  List.forall_mem_cons.2 ⟨printed, h⟩

theorem solid_of_isDigit (digit : c.isDigit = true) : ' ' < c := by
  simp only [Char.isDigit, Bool.and_eq_true, decide_eq_true_eq] at digit
  exact lt_of_lt_of_le (by decide) digit.1

theorem solid_of_digits (digits : ∀ c ∈ text, c.isDigit) : Solid text :=
  fun c member => solid_of_isDigit (digits c member)

theorem mem_intercalate_iff {separator : List Char} (other : c ∉ separator)
    {parts : List (List Char)} :
    c ∈ separator.intercalate parts ↔ ∃ part ∈ parts, c ∈ part := by
  induction parts with
  | nil => simp
  | cons part parts ih =>
      cases parts with
      | nil => simp
      | cons next parts => simp [List.intercalate_cons_cons, other, ih]

theorem not_mem_of_mem_splitOn {separator : Char} {part : List Char}
    (h : part ∈ text.splitOn separator) : separator ∉ part := by
  induction text generalizing part with
  | nil =>
      obtain rfl : part = [] := by simpa using h
      exact List.not_mem_nil
  | cons c text ih =>
      rw [List.splitOn_cons_eq_if_modifyHead] at h
      split at h
      · obtain rfl | inside := List.mem_cons.1 h
        · exact List.not_mem_nil
        · exact ih inside
      · next other =>
          cases split : text.splitOn separator with
          | nil => exact absurd split (List.splitOn_ne_nil _ _)
          | cons first others =>
              rw [split, List.modifyHead_cons] at h
              have each : ∀ l ∈ first :: others, separator ∉ l := fun l member =>
                ih (split ▸ member)
              obtain ⟨head, tail⟩ := List.forall_mem_cons.1 each
              obtain rfl | inside := List.mem_cons.1 h
              · intro member
                obtain rfl | member := List.mem_cons.1 member
                · exact other (beq_self_eq_true _)
                · exact head member
              · exact tail part inside

theorem not_mem_of_mem_pieces {separator : Char} {whole piece : String}
    (h : piece ∈ (whole.toList.splitOn separator).map String.ofList) : separator ∉ piece.toList := by
  obtain ⟨chars, member, rfl⟩ := List.mem_map.1 h
  rw [String.toList_ofList]
  exact not_mem_of_mem_splitOn member

theorem solid_intercalate {separator : List Char} (solid : Solid separator)
    {parts : List (List Char)} (each : ∀ part ∈ parts, Solid part) :
    Solid (separator.intercalate parts) := by
  intro c member
  by_cases separates : c ∈ separator
  · exact solid c separates
  · obtain ⟨part, inside, member⟩ := (mem_intercalate_iff separates).1 member
    exact each part inside c member

end

theorem solid_toString (n : Nat) : Solid (toString n).toList := by
  change Solid (Nat.repr n).toList
  rw [Nat.repr, String.toList_ofList]
  exact solid_of_digits fun c member => Nat.isDigit_of_mem_toDigits (by decide) (by decide) member

end Text

open Text

namespace Json.Numeral

theorem solid_render {n : Numeral} (h : n.WellFormed) : Solid n.render := by
  have fraction : Solid (renderFraction n.fraction) := by
    have digits := solid_of_digits h.fraction_digits
    cases hf : n.fraction with
    | nil => exact nofun
    | cons c rest => exact List.forall_mem_cons.2 ⟨by decide, hf ▸ digits⟩
  have exponent : Solid (n.exponent.elim [] Exponent.render) := by
    cases he : n.exponent with
    | none => exact nofun
    | some e =>
        have sign : ' ' < (if e.negative then '-' else '+') := by cases e.negative <;> decide
        have digits := solid_of_digits (h.exponent_digits e he).2
        exact List.forall_mem_cons.2 ⟨by decide, List.forall_mem_cons.2 ⟨sign, digits⟩⟩
  exact ((solid_of_digits h.whole_digits).append fraction).append exponent

theorem solid_text {n : Numeral} (h : n.WellFormed) : Solid n.text := by
  have sign : Solid (if n.negative then ['-'] else []) := by cases n.negative <;> decide
  exact sign.append (solid_render h)

end Json.Numeral

theorem Binary64.solid_token (x : Binary64) : Solid x.token.toList := by
  cases x with
  | finite x =>
      obtain ⟨n, wellFormed, -, -, text⟩ := x.exists_token_numeral
      exact text ▸ Json.Numeral.solid_text wellFormed
  | infinite negative => cases negative <;> decide
  | nan => decide

namespace Json

theorem printed_escapeChar (c : Char) : Printed (escapeChar c) := by
  have hex : ∀ n < 16, ' ' ≤ Nat.digitChar n := by decide
  unfold escapeChar
  -- The characters that are escaped by a letter.
  iterate 7
    split
    · decide
  split
  · next low =>
      have bound : c.toNat < 32 := UInt32.lt_iff_toNat_lt.1 low
      have digits : Printed [Nat.digitChar (c.toNat / 16), Nat.digitChar (c.toNat % 16)] :=
        .cons (hex _ (by omega)) (.cons (hex _ (by omega)) nofun)
      exact (show Printed ['\\', 'u', '0', '0'] by decide).append digits
  · next high => exact .cons (not_lt.1 high) nofun

theorem printed_quote (s : String) : Printed (quote s) := by
  refine .cons (by decide) (.append (fun c member => ?_) (by simp [Printed]))
  obtain ⟨e, -, inside⟩ := List.mem_flatMap.1 member
  exact printed_escapeChar e c inside

theorem Leaf.printed_render (l : Leaf) : Printed l.render := by
  cases l with
  | null => decide
  | boolean b => cases b <;> decide
  | number m =>
      obtain ⟨n, wellFormed, -, text⟩ := m.exists_numeral
      rw [Leaf.render, text]
      exact (Numeral.solid_text wellFormed).printed
  | text s => exact printed_quote s

mutual

theorem printed_render : (j : Json) → Printed j.render
  | .leaf l => l.printed_render
  | .array [] => by decide
  | .array (item :: rest) =>
      (Printed.cons (by decide) (printed_render item)).append (printed_renderItems rest)
  | .object [] => by decide
  | .object ((name, value) :: rest) =>
      ((Printed.cons (by decide) (printed_quote name)).append
        (.cons (by decide) (printed_render value))).append (printed_renderMembers rest)

theorem printed_renderItems : (items : List Json) → Printed (renderItems items)
  | [] => by decide
  | item :: rest =>
      (Printed.cons (by decide) (printed_render item)).append (printed_renderItems rest)

theorem printed_renderMembers : (members : List (String × Json)) → Printed (renderMembers members)
  | [] => by decide
  | (name, value) :: rest =>
      ((Printed.cons (by decide) (printed_quote name)).append
        (.cons (by decide) (printed_render value))).append (printed_renderMembers rest)

end

/-- Compact JSON stands on one line. -/
theorem printed_compact (j : Json) : Printed j.compact.toList := by
  rw [compact, String.toList_ofList]
  exact printed_render j

end Json

end GeoQuery
