import GeoQuery.Proofs.Json.Tree
import Mathlib.Data.List.Perm.Basic

/-!
The order of members. Trees, and JSON values, that differ in the order of members are related by
steps: the members of one object change places, or one part of an array or an object changes. What
stands under one name, where a value is kept as JSON, keeps its order.
-/

namespace GeoQuery.Json

/-- Two values that differ at most in the order of members, but not under the name `kept`. -/
inductive Reordered {α : Type} (array : List α → α) (object : List (String × α) → α)
    (kept : String) : α → α → Prop
  | refl (a : α) : Reordered array object kept a a
  | trans {a b c : α} (front : Reordered array object kept a b)
      (back : Reordered array object kept b c) : Reordered array object kept a c
  | members {members members' : List (String × α)} (places : members.Perm members') :
      Reordered array object kept (object members) (object members')
  | item {before after : List α} {a b : α} (inside : Reordered array object kept a b) :
      Reordered array object kept (array (before ++ a :: after)) (array (before ++ b :: after))
  | member {before after : List (String × α)} {name : String} {a b : α} (other : name ≠ kept)
      (inside : Reordered array object kept a b) :
      Reordered array object kept (object (before ++ (name, a) :: after))
        (object (before ++ (name, b) :: after))

theorem Reordered.symm {α : Type} {array : List α → α} {object : List (String × α) → α}
    {kept : String} {a b : α} (h : Reordered array object kept a b) :
    Reordered array object kept b a := by
  induction h with
  | refl a => exact .refl a
  | trans _ _ front back => exact back.trans front
  | members places => exact .members places.symm
  | item _ inside => exact .item inside
  | member other _ inside => exact .member other inside

namespace Tree

variable {depth : Nat}

theorem nestingItems_le_iff {items : List Tree} :
    nestingItems items ≤ depth ↔ ∀ tree ∈ items, tree.nesting ≤ depth := by
  induction items with
  | nil => simp [nestingItems]
  | cons tree items ih => simp only [nestingItems, Nat.max_le, ih, List.forall_mem_cons]

theorem nestingMembers_le_iff {members : List (String × Tree)} :
    nestingMembers members ≤ depth ↔ ∀ m ∈ members, m.2.nesting ≤ depth := by
  induction members with
  | nil => simp [nestingMembers]
  | cons m members ih => simp only [nestingMembers, Nat.max_le, ih, List.forall_mem_cons]

theorem nesting_array_le_iff {items : List Tree} :
    (array items).nesting ≤ depth ↔
      ∃ inner, depth = inner + 1 ∧ ∀ tree ∈ items, tree.nesting ≤ inner := by
  simp only [nesting, ← nestingItems_le_iff, succ_le_iff_exists]

theorem nesting_object_le_iff {members : List (String × Tree)} :
    (object members).nesting ≤ depth ↔
      ∃ inner, depth = inner + 1 ∧ ∀ m ∈ members, m.2.nesting ≤ inner := by
  simp only [nesting, ← nestingMembers_le_iff, succ_le_iff_exists]

theorem jsonItems?_eq_some_iff {items : List Tree} {values : List Json} :
    jsonItems? items = some values ↔
      List.Forall₂ (fun tree j => tree.json? = some j) items values := by
  induction items generalizing values with
  | nil => simp [jsonItems?, eq_comm]
  | cons tree items ih =>
      rw [jsonItems?, some_pair_iff, List.forall₂_cons_left_iff]
      simp only [ih]
      constructor
      · intro h
        obtain ⟨j, js, value, values, rfl⟩ := h
        exact ⟨j, js, value, values, rfl⟩
      · intro h
        obtain ⟨j, js, value, values, rfl⟩ := h
        exact ⟨j, js, value, values, rfl⟩

def MemberValue (m : String × Tree) (n : String × Json) : Prop :=
  n.1 = m.1 ∧ m.2.json? = some n.2

theorem jsonMembers?_eq_some_iff {members : List (String × Tree)}
    {values : List (String × Json)} :
    jsonMembers? members = some values ↔ List.Forall₂ MemberValue members values := by
  induction members generalizing values with
  | nil => simp [jsonMembers?, eq_comm]
  | cons m members ih =>
      obtain ⟨name, tree⟩ := m
      rw [jsonMembers?, some_pair_iff, List.forall₂_cons_left_iff]
      simp only [ih]
      constructor
      · intro h
        obtain ⟨j, js, value, values, rfl⟩ := h
        exact ⟨(name, j), js, ⟨rfl, value⟩, values, rfl⟩
      · intro h
        obtain ⟨⟨_, j⟩, js, ⟨rfl, value⟩, values, rfl⟩ := h
        exact ⟨j, js, value, values, rfl⟩

theorem json?_array_iff {items : List Tree} {j : Json} :
    (array items).json? = some j ↔
      ∃ values, List.Forall₂ (fun tree j => tree.json? = some j) items values ∧
        Json.array values = j := by
  simp only [json?, Option.map_eq_some_iff, jsonItems?_eq_some_iff]

theorem json?_object_iff {members : List (String × Tree)} {j : Json} :
    (object members).json? = some j ↔
      ∃ values, List.Forall₂ MemberValue members values ∧ Json.object values = j := by
  simp only [json?, Option.map_eq_some_iff, jsonMembers?_eq_some_iff]

end Tree

theorem forall₂_append_cons_iff {α β : Type} {r : α → β → Prop} {before after : List α} {a : α}
    {l : List β} :
    List.Forall₂ r (before ++ a :: after) l ↔
      ∃ before' b after', l = before' ++ b :: after' ∧ List.Forall₂ r before before' ∧ r a b ∧
        List.Forall₂ r after after' := by
  constructor
  · intro h
    induction before generalizing l with
    | nil =>
        cases h with
        | cons head tail => exact ⟨[], _, _, rfl, .nil, head, tail⟩
    | cons c before ih =>
        cases h with
        | cons head tail =>
            obtain ⟨before', b, after', rfl, front, own, back⟩ := ih tail
            exact ⟨_ :: before', b, after', rfl, .cons head front, own, back⟩
  · intro h
    obtain ⟨before', b, after', rfl, front, own, back⟩ := h
    exact List.rel_append front (.cons own back)

/-- Trees in another order have values in another order, and open as many brackets. -/
theorem Reordered.value {kept : String} {tree tree' : Tree}
    (h : Reordered Tree.array Tree.object kept tree tree') {depth : Nat} {j : Json}
    (within : tree.nesting ≤ depth) (value : tree.json? = some j) :
    ∃ j', tree'.nesting ≤ depth ∧ tree'.json? = some j' ∧
      Reordered Json.array Json.object kept j j' := by
  induction h generalizing depth j with
  | refl tree => exact ⟨j, within, value, .refl j⟩
  | trans _ _ front back =>
      obtain ⟨j', within', value', same⟩ := front within value
      obtain ⟨j'', within'', value'', same'⟩ := back within' value'
      exact ⟨j'', within'', value'', same.trans same'⟩
  | @members members members' places =>
      obtain ⟨inner, rfl, each⟩ := Tree.nesting_object_le_iff.1 within
      obtain ⟨values, all, rfl⟩ := Tree.json?_object_iff.1 value
      obtain ⟨values', all', places'⟩ := List.perm_comp_forall₂ places.symm all
      have within' := Tree.nesting_object_le_iff.2
        ⟨inner, rfl, fun m member => each m (places.mem_iff.2 member)⟩
      exact ⟨.object values', within', Tree.json?_object_iff.2 ⟨values', all', rfl⟩,
        .members places'.symm⟩
  | @item before after tree tree' inside ih =>
      obtain ⟨inner, rfl, each⟩ := Tree.nesting_array_le_iff.1 within
      obtain ⟨values, all, rfl⟩ := Tree.json?_array_iff.1 value
      obtain ⟨before', j, after', rfl, front, own, back⟩ := forall₂_append_cons_iff.1 all
      simp only [List.forall_mem_append, List.forall_mem_cons] at each
      obtain ⟨eachBefore, eachOwn, eachAfter⟩ := each
      obtain ⟨j', within', own', same⟩ := ih eachOwn own
      refine ⟨.array (before' ++ j' :: after'), Tree.nesting_array_le_iff.2 ⟨inner, rfl, ?_⟩,
        Tree.json?_array_iff.2 ⟨_, ?_, rfl⟩, .item same⟩
      · simp only [List.forall_mem_append, List.forall_mem_cons]
        exact ⟨eachBefore, within', eachAfter⟩
      · exact forall₂_append_cons_iff.2 ⟨before', j', after', rfl, front, own', back⟩
  | @member before after name tree tree' other inside ih =>
      obtain ⟨inner, rfl, each⟩ := Tree.nesting_object_le_iff.1 within
      obtain ⟨values, all, rfl⟩ := Tree.json?_object_iff.1 value
      obtain ⟨before', ⟨name, j⟩, after', rfl, front, ⟨rfl, own⟩, back⟩ :=
        forall₂_append_cons_iff.1 all
      simp only [List.forall_mem_append, List.forall_mem_cons] at each
      obtain ⟨eachBefore, eachOwn, eachAfter⟩ := each
      obtain ⟨j', within', own', same⟩ := ih eachOwn own
      refine ⟨.object (before' ++ (name, j') :: after'),
        Tree.nesting_object_le_iff.2 ⟨inner, rfl, ?_⟩, Tree.json?_object_iff.2 ⟨_, ?_, rfl⟩,
        .member other same⟩
      · simp only [List.forall_mem_append, List.forall_mem_cons]
        exact ⟨eachBefore, within', eachAfter⟩
      · exact forall₂_append_cons_iff.2
          ⟨before', (name, j'), after', rfl, front, ⟨rfl, own'⟩, back⟩

end GeoQuery.Json
