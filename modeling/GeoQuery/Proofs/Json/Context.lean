import GeoQuery.Proofs.Json.Reordered

/-!
Places in trees and in JSON values. A context is a value with a hole at one place; what a text with a
numeral in the hole is read as depends on the numeral there only.
-/

namespace GeoQuery.Json

/-- A value with a hole: everything beside the way from the outside to one place. -/
inductive Context (α : Type)
  | hole
  | item (before : List α) (inner : Context α) (after : List α)
  | member (before : List (String × α)) (name : String) (inner : Context α)
      (after : List (String × α))

namespace Context

def fill {α : Type} (array : List α → α) (object : List (String × α) → α) : Context α → α → α
  | .hole, a => a
  | .item before inner after, a => array (before ++ inner.fill array object a :: after)
  | .member before name inner after, a =>
    object (before ++ (name, inner.fill array object a) :: after)

/-- The trees around the hole have these values. -/
inductive Denotes : Context Tree → Context Json → Prop
  | hole : Denotes .hole .hole
  | item {before after : List Tree} {before' after' : List Json} {inner : Context Tree}
      {inner' : Context Json}
      (front : List.Forall₂ (fun tree j => tree.json? = some j) before before')
      (inside : Denotes inner inner')
      (back : List.Forall₂ (fun tree j => tree.json? = some j) after after') :
      Denotes (.item before inner after) (.item before' inner' after')
  | member {before after : List (String × Tree)} {before' after' : List (String × Json)}
      {name : String} {inner : Context Tree} {inner' : Context Json}
      (front : List.Forall₂ Tree.MemberValue before before') (inside : Denotes inner inner')
      (back : List.Forall₂ Tree.MemberValue after after') :
      Denotes (.member before name inner after) (.member before' name inner' after')

variable {place : Context Tree} {place' : Context Json}

theorem Denotes.json?_fill (h : place.Denotes place') {tree : Tree} {j : Json}
    (value : tree.json? = some j) :
    (place.fill .array .object tree).json? = some (place'.fill .array .object j) := by
  induction h with
  | hole => exact value
  | item front inside back ih =>
      exact Tree.json?_array_iff.2
        ⟨_, forall₂_append_cons_iff.2 ⟨_, _, _, rfl, front, ih, back⟩, rfl⟩
  | member front inside back ih =>
      exact Tree.json?_object_iff.2
        ⟨_, forall₂_append_cons_iff.2 ⟨_, (_, _), _, rfl, front, ⟨rfl, ih⟩, back⟩, rfl⟩

theorem exists_json?_of_fill {tree : Tree} {j : Json}
    (value : (place.fill .array .object tree).json? = some j) :
    ∃ place' inside, place.Denotes place' ∧ tree.json? = some inside ∧
      place'.fill .array .object inside = j := by
  induction place generalizing j with
  | hole => exact ⟨.hole, j, .hole, value, rfl⟩
  | item before inner after ih =>
      obtain ⟨_, all, rfl⟩ := Tree.json?_array_iff.1 value
      obtain ⟨before', j, after', rfl, front, own, back⟩ := forall₂_append_cons_iff.1 all
      obtain ⟨place', inside, denotes, filled, rfl⟩ := ih own
      exact ⟨.item before' place' after', inside, .item front denotes back, filled, rfl⟩
  | member before name inner after ih =>
      obtain ⟨_, all, rfl⟩ := Tree.json?_object_iff.1 value
      obtain ⟨before', ⟨_, j⟩, after', rfl, front, ⟨rfl, own⟩, back⟩ :=
        forall₂_append_cons_iff.1 all
      obtain ⟨place', inside, denotes, filled, rfl⟩ := ih own
      exact ⟨.member before' _ place' after', inside, .member front denotes back, filled, rfl⟩

theorem nesting_fill_le_iff {tree tree' : Tree} (same : tree.nesting = tree'.nesting) {depth : Nat} :
    (place.fill .array .object tree).nesting ≤ depth ↔
      (place.fill .array .object tree').nesting ≤ depth := by
  induction place generalizing depth with
  | hole => rw [fill, fill, same]
  | item before inner after ih =>
      simp only [fill, Tree.nesting_array_le_iff, List.forall_mem_append, List.forall_mem_cons, ih]
  | member before name inner after ih =>
      simp only [fill, Tree.nesting_object_le_iff, List.forall_mem_append, List.forall_mem_cons, ih]

/-- A text with a numeral in the hole is read if the numeral is in range, whatever it is, unless too
many brackets are open. -/
theorem Denotes.readWhole_iff (h : place.Denotes place') {n : Numeral} {text : String}
    (spelled : (place.fill .array .object (.number n)).SpellsWhole text) {j : Json} :
    readWhole (read maxDepth) text = .ok j ↔
      (place.fill .array .object .null).nesting ≤ maxDepth ∧ ∃ number, n.value? = some number ∧
        place'.fill .array .object (.leaf (.number number)) = j := by
  rw [spelled.read_iff maxDepth j]
  have flat : (Tree.number n).nesting = Tree.null.nesting := rfl
  refine and_congr (nesting_fill_le_iff flat) ⟨fun value => ?_, fun own => ?_⟩
  · obtain ⟨_, _, -, own, -⟩ := exists_json?_of_fill value
    have filled := h.json?_fill own
    obtain ⟨number, inRange, rfl⟩ := Option.map_eq_some_iff.1 own
    exact ⟨number, inRange, Option.some.inj (filled.symm.trans value)⟩
  · obtain ⟨number, inRange, rfl⟩ := own
    exact h.json?_fill (Option.map_eq_some_iff.2 ⟨number, inRange, rfl⟩)

end Context

end GeoQuery.Json
