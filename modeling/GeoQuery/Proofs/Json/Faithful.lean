import GeoQuery.Proofs.Decimal.Canonical
import GeoQuery.Proofs.Json.Places
import GeoQuery.Proofs.Json.Printed
import GeoQuery.Proofs.Json.Unambiguous

/-!
The compact text of a JSON value, for a reader that follows the grammar to any depth and rounds
correctly: it is a text of this value and of no other. There are no blanks in it but in its strings.
-/

namespace GeoQuery.Json

open Text

namespace Numeral

/-- The number that a numeral stands for: an integer of 64 bits if it is written as one, or else the
number nearest to its value. None if that is out of range. -/
def rounded? (n : Numeral) : Option Number :=
  match n.integer? with
  | some i => some (.integer i)
  | none => n.nearest.finite?.map .fraction

theorem rounded?_of_integer {n : Numeral} {i : Integer} (value : n.value? = some (.integer i)) :
    n.rounded? = some (.integer i) := by
  rw [value?] at value
  rw [rounded?]
  cases own : n.integer? with
  | some j =>
      rw [own] at value
      exact value
  | none =>
      rw [own] at value
      simp at value

theorem rounded?_of_writesJson {n : Numeral} {x : Finite64} (h : x.WritesJson n) :
    n.rounded? = some (.fraction x) := by
  rw [rounded?, h.fraction, nearest_of_readsAs h.negative h.readsAs]
  rfl

end Numeral

mutual

/-- The value of a tree whose numerals are taken for the numbers that they stand for. -/
def Tree.rounded? : Tree → Option Json
  | .null => some Json.null
  | .boolean b => some (.leaf (.boolean b))
  | .number n => n.rounded?.map fun number => .leaf (.number number)
  | .text s => some (.leaf (.text s))
  | .array items => (roundedItems? items).map .array
  | .object members => (roundedMembers? members).map .object

def Tree.roundedItems? : List Tree → Option (List Json)
  | [] => some []
  | tree :: items => do return (← tree.rounded?) :: (← roundedItems? items)

def Tree.roundedMembers? : List (String × Tree) → Option (List (String × Json))
  | [] => some []
  | (name, tree) :: members => do return (name, ← tree.rounded?) :: (← roundedMembers? members)

end

/-- The text is one of the value: it spells a tree that has it. -/
def IsText (text : String) (j : Json) : Prop :=
  ∃ tree : Tree, tree.SpellsWhole text ∧ tree.rounded? = some j

theorem IsText.unique {text : String} {j j' : Json} (h : IsText text j) (h' : IsText text j') :
    j = j' := by
  obtain ⟨tree, spells, value⟩ := h
  obtain ⟨tree', spells', value'⟩ := h'
  obtain rfl := spells.unique spells'
  exact Option.some.inj (value.symm.trans value')

theorem spellsText_quote (s : String) :
    ∃ inside, quote s = '"' :: inside ∧ SpellsText s.toList inside := by
  have scanned := scanString_quote s []
  rw [List.append_nil] at scanned
  obtain ⟨front, same, spelled⟩ := scanString_eq_ok_iff.1 scanned
  rw [List.append_nil] at same
  exact ⟨front, same ▸ rfl, spelled⟩

theorem Number.exists_rounded_numeral (m : Number) : ∃ n : Numeral, n.WellFormed ∧
    n.rounded? = some m ∧ m.render = n.text := by
  cases m with
  | integer i =>
      obtain ⟨n, wellFormed, value, text⟩ := i.exists_numeral
      exact ⟨n, wellFormed, Numeral.rounded?_of_integer value, text⟩
  | fraction x =>
      have written := x.jsonNumeral_writesJson
      exact ⟨_, written.wellFormed, Numeral.rounded?_of_writesJson written, written.text⟩

theorem Numeral.spells_text {n : Numeral} (h : n.WellFormed) : (Tree.number n).Spells n.text := by
  have digits : n.Spells n.render := by
    refine ⟨h, n.exponent.elim [] Exponent.render, List.append_assoc .., ?_⟩
    cases n.exponent with
    | none => rfl
    | some e =>
        cases sign : e.negative with
        | true => exact ⟨'e', ['-'], .inl rfl, .inl ⟨rfl, sign⟩, by simp [Exponent.render, sign]⟩
        | false => exact ⟨'e', ['+'], .inl rfl, .inr ⟨.inl rfl, sign⟩, by simp [Exponent.render, sign]⟩
  rw [text]
  cases sign : n.negative with
  | true => exact .negative sign digits
  | false => exact .positive sign digits

theorem Leaf.exists_spells_render (l : Leaf) :
    ∃ tree : Tree, tree.Spells l.render ∧ tree.rounded? = some (.leaf l) := by
  cases l with
  | null => exact ⟨.null, .null, rfl⟩
  | boolean b =>
      cases b with
      | true => exact ⟨.boolean true, .yes, rfl⟩
      | false => exact ⟨.boolean false, .no, rfl⟩
  | number m =>
      obtain ⟨n, wellFormed, value, text⟩ := m.exists_rounded_numeral
      refine ⟨.number n, ?_, by rw [Tree.rounded?, value]; rfl⟩
      rw [render, text]
      exact Numeral.spells_text wellFormed
  | text s =>
      obtain ⟨inside, text, spelled⟩ := spellsText_quote s
      refine ⟨.text s, ?_, rfl⟩
      rw [render, text]
      exact .text spelled

mutual

/-- What is written for a value spells a tree with that value. -/
theorem exists_spells_render : (j : Json) → ∃ tree : Tree, tree.Spells j.render ∧ tree.rounded? = some j
  | .leaf l => l.exists_spells_render
  | .array [] => ⟨.array [], .array (.closing allBlank_nil), rfl⟩
  | .array (item :: rest) => by
      obtain ⟨tree, spells, value⟩ := item.exists_spells_render
      obtain ⟨trees, row, values⟩ := exists_spellsItems_renderItems rest
      refine ⟨.array (tree :: trees), .array (.item leads_first spells row), ?_⟩
      simp [Tree.rounded?, Tree.roundedItems?, value, values]
  | .object [] => ⟨.object [], .object (.closing allBlank_nil), rfl⟩
  | .object ((name, item) :: rest) => by
      obtain ⟨tree, spells, value⟩ := item.exists_spells_render
      obtain ⟨trees, row, values⟩ := exists_spellsMembers_renderMembers rest
      obtain ⟨inside, text, named⟩ := spellsText_quote name
      refine ⟨.object ((name, tree) :: trees), ?_,
        by simp [Tree.rounded?, Tree.roundedMembers?, value, values]⟩
      have spelled := SpellsMembers.member leads_first named allBlank_nil allBlank_nil
        spells row
      rw [render, text]
      simpa using Tree.Spells.object spelled

theorem exists_spellsItems_renderItems : (items : List Json) → ∃ trees,
    SpellsItems false trees (renderItems items) ∧ Tree.roundedItems? trees = some items
  | [] => ⟨[], .closing allBlank_nil, rfl⟩
  | item :: rest => by
      obtain ⟨tree, spells, value⟩ := item.exists_spells_render
      obtain ⟨trees, row, values⟩ := exists_spellsItems_renderItems rest
      refine ⟨tree :: trees, .item leads_later spells row, ?_⟩
      simp [Tree.roundedItems?, value, values]

theorem exists_spellsMembers_renderMembers : (members : List (String × Json)) → ∃ trees,
    SpellsMembers false trees (renderMembers members) ∧ Tree.roundedMembers? trees = some members
  | [] => ⟨[], .closing allBlank_nil, rfl⟩
  | (name, item) :: rest => by
      obtain ⟨tree, spells, value⟩ := item.exists_spells_render
      obtain ⟨trees, row, values⟩ := exists_spellsMembers_renderMembers rest
      obtain ⟨inside, text, named⟩ := spellsText_quote name
      refine ⟨(name, tree) :: trees, ?_, by simp [Tree.roundedMembers?, value, values]⟩
      have spelled := SpellsMembers.member leads_later named allBlank_nil allBlank_nil
        spells row
      rw [renderMembers, text]
      simpa using spelled

end

/-- The compact text of a value is a text of this value, and of no other. -/
theorem isText_compact_iff {j j' : Json} : IsText j.compact j' ↔ j' = j := by
  have own : IsText j.compact j := by
    obtain ⟨tree, spells, value⟩ := j.exists_spells_render
    exact ⟨tree, ⟨[], j.render, [], allBlank_nil, spells, allBlank_nil, by simp [compact]⟩, value⟩
  exact ⟨fun other => other.unique own, fun same => same ▸ own⟩

/-- A text that ends outside of strings, with neither blanks nor control characters but in strings. -/
structure Tight (text : List Char) : Prop where
  closed : Quoting.outside.behind text = .outside
  solid : ∀ front c back, text = front ++ c :: back → Quoting.outside.behind front = .outside →
    ' ' < c

namespace Tight

variable {x y : List Char}

theorem of_solid (solid : Solid x) (unquoted : '"' ∉ x) : Tight x :=
  ⟨Quoting.outside_behind_of_no_quote fun _ member => ne_of_mem_of_not_mem member unquoted,
    fun _ c _ split _ => solid c (by simp [split])⟩

theorem append (hx : Tight x) (hy : Tight y) : Tight (x ++ y) := by
  refine ⟨by rw [Quoting.behind_append, hx.closed, hy.closed], fun front c back split outside => ?_⟩
  obtain ⟨middle, rfl, rfl⟩ | ⟨middle, rfl, behind⟩ := List.append_eq_append_iff.1 split
  · rw [Quoting.behind_append, hx.closed] at outside
    exact hy.solid middle c back rfl outside
  · cases middle with
    | nil => exact hy.solid [] c back behind.symm rfl
    | cons d middle =>
        obtain ⟨rfl, -⟩ := List.cons.inj behind
        exact hx.solid front _ middle rfl outside

theorem cons {c : Char} (solid : ' ' < c) (unquoted : '"' ∉ [c]) (h : Tight x) : Tight (c :: x) :=
  (of_solid (List.forall_mem_singleton.2 solid) unquoted).append h

/-- A string is closed by its last character only, so all others are inside. -/
theorem string {chars text : List Char} (h : SpellsText chars text) : Tight ('"' :: text) := by
  refine ⟨h.closes, fun front c back split outside => ?_⟩
  cases front with
  | nil =>
      obtain rfl : '"' = c := (List.cons.inj split).1
      decide
  | cons d front =>
      rw [List.cons_append, List.cons.injEq] at split
      obtain ⟨rfl, split⟩ := split
      cases h.unclosed front (c :: back) split outside

end Tight

theorem tight_quote (s : String) : Tight (quote s) := by
  obtain ⟨inside, text, spelled⟩ := spellsText_quote s
  exact text ▸ .string spelled

theorem Leaf.tight_render (l : Leaf) : Tight l.render := by
  cases l with
  | null => exact .of_solid (by decide) (by decide)
  | boolean b => cases b <;> exact .of_solid (by decide) (by decide)
  | number m =>
      obtain ⟨n, wellFormed, -, text⟩ := m.exists_numeral
      have numeric := (Numeral.spells_text wellFormed).numeric
      rw [render, text]
      exact .of_solid (Numeral.solid_text wellFormed) fun quoted =>
        ne_quote_of_isNumeric (numeric _ quoted) rfl
  | text s => exact tight_quote s

mutual

theorem tight_render : (j : Json) → Tight j.render
  | .leaf l => l.tight_render
  | .array [] => .of_solid (by decide) (by decide)
  | .array (item :: rest) =>
      (Tight.cons (by decide) (by decide) (tight_render item)).append (tight_renderItems rest)
  | .object [] => .of_solid (by decide) (by decide)
  | .object ((name, value) :: rest) =>
      ((Tight.cons (by decide) (by decide) (tight_quote name)).append
        (.cons (by decide) (by decide) (tight_render value))).append (tight_renderMembers rest)

theorem tight_renderItems : (items : List Json) → Tight (renderItems items)
  | [] => .of_solid (by decide) (by decide)
  | item :: rest =>
      (Tight.cons (by decide) (by decide) (tight_render item)).append (tight_renderItems rest)

theorem tight_renderMembers : (members : List (String × Json)) → Tight (renderMembers members)
  | [] => .of_solid (by decide) (by decide)
  | (name, value) :: rest =>
      ((Tight.cons (by decide) (by decide) (tight_quote name)).append
        (.cons (by decide) (by decide) (tight_render value))).append (tight_renderMembers rest)

end

theorem tight_compact (j : Json) : Tight j.compact.toList := by
  rw [compact, String.toList_ofList]
  exact tight_render j

end GeoQuery.Json
