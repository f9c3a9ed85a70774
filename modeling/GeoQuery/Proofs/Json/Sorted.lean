import GeoQuery.Proofs.Decimal.Token
import GeoQuery.Proofs.Shape.RoundTrip
import Mathlib.Data.List.Perm.Subperm

/-!
JSON values with the members of every object sorted by name and no sign on zero. Equality of values
looks at neither the order of members nor the sign of zero, so equal values are the same once sorted,
and so are their texts.
-/

namespace GeoQuery.Json

/-- The same value with the sign of a fraction that is zero forgotten. -/
def Leaf.unsignZero : Leaf → Leaf
  | .number (.fraction x) => .number (.fraction x.unsignZero)
  | l => l

theorem Leaf.equals_iff {a b : Leaf} : a.equals b = true ↔ a.unsignZero = b.unsignZero := by
  cases a with
  | number m =>
      cases b with
      | number n => cases m <;> cases n <;>
          simp [equals, Number.equals, unsignZero, Finite64.equals_iff_unsignZero]
      | null | boolean | text => cases m <;> simp [equals, unsignZero]
  | null | boolean | text =>
      cases b with
      | number n => cases n <;> simp [equals, unsignZero]
      | null | boolean | text => simp [equals, unsignZero]

def sortMembers (members : List (String × Json)) : List (String × Json) :=
  members.mergeSort fun m n => decide (m.1 ≤ n.1)

mutual

/-- The members of every object in the order of their names, and no sign on zero. -/
def sorted : Json → Json
  | .leaf l => .leaf l.unsignZero
  | .array items => .array (sortedItems items)
  | .object members => .object (sortMembers (sortedMembers members))

def sortedItems : List Json → List Json
  | [] => []
  | item :: rest => item.sorted :: sortedItems rest

def sortedMembers : List (String × Json) → List (String × Json)
  | [] => []
  | (name, value) :: rest => (name, value.sorted) :: sortedMembers rest

end

theorem sortedMembers_eq_map (members : List (String × Json)) :
    sortedMembers members = members.map fun m => (m.1, m.2.sorted) := by
  induction members with
  | nil => rfl
  | cons m members ih => rw [sortedMembers, ih, List.map_cons]

theorem names_sortedMembers (members : List (String × Json)) :
    (sortedMembers members).map Prod.fst = members.map Prod.fst := by
  rw [sortedMembers_eq_map, List.map_map]
  rfl

theorem length_sortedMembers (members : List (String × Json)) :
    (sortedMembers members).length = members.length := by
  rw [sortedMembers_eq_map, List.length_map]

section

variable {members others : List (String × Json)}

theorem pairwise_sortMembers (members : List (String × Json)) :
    (sortMembers members).Pairwise fun m n => m.1 ≤ n.1 := by
  have trans (a b c : String × Json) (first : decide (a.1 ≤ b.1) = true)
      (second : decide (b.1 ≤ c.1) = true) : decide (a.1 ≤ c.1) = true :=
    decide_eq_true (String.le_trans (of_decide_eq_true first) (of_decide_eq_true second))
  have total (a b : String × Json) : (decide (a.1 ≤ b.1) || decide (b.1 ≤ a.1)) = true := by
    simpa using String.le_total a.1 b.1
  exact (List.pairwise_mergeSort trans total members).imp of_decide_eq_true

theorem sortMembers_eq_of_perm (names : (members.map Prod.fst).Nodup) (same : members.Perm others) :
    sortMembers members = sortMembers others := by
  have front : (sortMembers members).Perm members := List.mergeSort_perm ..
  have back : (sortMembers others).Perm members := (List.mergeSort_perm ..).trans same.symm
  refine List.Perm.eq_of_pairwise (fun m n left right before behind => ?_)
    (pairwise_sortMembers members) (pairwise_sortMembers others) (front.trans back.symm)
  exact List.inj_on_of_nodup_map names (front.subset left) (back.subset right)
    (String.le_antisymm before behind)

theorem perm_of_subset (names : (members.map Prod.fst).Nodup) (all : members ⊆ others)
    (length : members.length = others.length) : members.Perm others :=
  (List.subperm_of_subset names.of_map all).perm_of_length_le length.ge

end

mutual

/-- The names of one side decide: all of them are on the other side, and there are no more. -/
theorem sorted_eq_of_equals : (a b : Json) → a.Distinct → a.equals b = true → a.sorted = b.sorted
  | .leaf a, .leaf b, _, same => congrArg leaf (Leaf.equals_iff.1 same)
  | .array as, .array bs, distinct, same =>
      congrArg array (sortedItems_eq_of_equals as bs distinct same)
  | .object as, .object bs, ⟨names, distinct⟩, same => by
      obtain ⟨length, each⟩ := Bool.and_eq_true_iff.1 same
      have all := sortedMembers_subset_of_equals as bs distinct each
      have names := names_sortedMembers as ▸ names
      refine congrArg object (sortMembers_eq_of_perm names (perm_of_subset names all ?_))
      rw [length_sortedMembers, length_sortedMembers, eq_of_beq length]
  | .leaf _, .array _, _, same | .leaf _, .object _, _, same | .array _, .leaf _, _, same
  | .array _, .object _, _, same | .object _, .leaf _, _, same | .object _, .array _, _, same => by
      cases same

theorem sortedItems_eq_of_equals : (as bs : List Json) → DistinctItems as →
    equalItems as bs = true → sortedItems as = sortedItems bs
  | [], [], _, _ => rfl
  | a :: as, b :: bs, ⟨head, tail⟩, same => by
      obtain ⟨first, others⟩ := Bool.and_eq_true_iff.1 same
      rw [sortedItems, sortedItems, a.sorted_eq_of_equals b head first,
        sortedItems_eq_of_equals as bs tail others]
  | [], _ :: _, _, same | _ :: _, [], _, same => by cases same

theorem sortedMembers_subset_of_equals : (as bs : List (String × Json)) → DistinctMembers as →
    equalMembers as bs = true → sortedMembers as ⊆ sortedMembers bs
  | [], _, _, _ => List.nil_subset _
  | (name, a) :: as, bs, ⟨head, tail⟩, same => by
      obtain ⟨first, others⟩ := Bool.and_eq_true_iff.1 same
      refine List.cons_subset.2 ⟨?_, sortedMembers_subset_of_equals as bs tail others⟩
      cases found : bs.lookup name with
      | none =>
          rw [found] at first
          cases first
      | some b =>
          rw [found] at first
          obtain ⟨before, behind, rfl, -⟩ := List.lookup_eq_some_iff.1 found
          rw [a.sorted_eq_of_equals b head first, sortedMembers_eq_map]
          exact List.mem_map.2 ⟨(name, b), by simp, rfl⟩

end

end GeoQuery.Json
