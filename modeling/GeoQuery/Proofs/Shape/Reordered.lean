import GeoQuery.Proofs.Json.Reordered
import GeoQuery.Proofs.Shape.Described

/-!
What a JSON value describes does not depend on the order of members, except in a value that is kept
as JSON. Shapes keep such values under one name only.
-/

namespace GeoQuery

open Json

mutual

/-- Only variants of the given name carry something that is kept as JSON. -/
def Shape.keepsIn (kept : String) : Shape → Bool
  | .scalar _ => true
  | .json => false
  | .optional inner => inner.keepsIn kept
  | .list item => item.keepsIn kept
  | .record _ _ fields => fields.keepsIn kept
  | .choice variants => variants.keepsIn kept
  | .tagged _ _ cases => cases.keepsIn kept

def Fields.keepsIn (kept : String) : Fields → Bool
  | .nil => true
  | .required _ shape rest | .optional _ shape rest => shape.keepsIn kept && rest.keepsIn kept

def Variants.keepsIn (kept : String) : Variants → Bool
  | .nil => true
  | .bare _ rest => rest.keepsIn kept
  | .carrying name _ shape rest => (name == kept || shape.keepsIn kept) && rest.keepsIn kept

def Cases.keepsIn (kept : String) : Cases → Bool
  | .nil => true
  | .cons _ _ fields rest => fields.keepsIn kept && rest.keepsIn kept

end

namespace Json

/-- What one value describes in any shape that keeps JSON under the given name only, the other one
describes too. -/
def Moves (kept : String) (j j' : Json) : Prop :=
  ∀ shape : Shape, shape.keepsIn kept = true → ∀ value, shape.Describes j value →
    shape.Describes j' value

/-- The same for members. A value that is kept as JSON is the same one. -/
def MemberMoves (kept : String) (m m' : String × Json) : Prop :=
  m' = m ∨ m'.1 = m.1 ∧ m.1 ≠ kept ∧ Moves kept m.2 m'.2

section

variable {kept name s : String} {j j' : Json} {m m' : String × Json}
variable {members members' : List (String × Json)}

theorem Moves.refl (j : Json) : Moves kept j j := fun _ _ _ described => described

theorem Moves.text (h : Moves kept j j') (own : j = .leaf (.text s)) : j' = .leaf (.text s) := by
  have moved := h (.scalar .text) rfl s (by rw [own]; rfl)
  cases j' with
  | leaf l =>
      cases l with
      | text s' =>
          cases moved
          rfl
      | _ => cases moved
  | array | object => cases moved

theorem Moves.null (h : Moves kept j j') (own : j = .leaf .null) : j' = .leaf .null :=
  Scalar.accept_nothing_iff.1 (h (.scalar .nothing) rfl () (Scalar.accept_nothing_iff.2 own))

theorem MemberMoves.name_eq (h : MemberMoves kept m m') : m'.1 = m.1 := by
  obtain rfl | ⟨same, -, -⟩ := h
  · rfl
  · exact same

theorem MemberMoves.moves (h : MemberMoves kept m m') : Moves kept m.2 m'.2 := by
  obtain rfl | ⟨-, -, moves⟩ := h
  · exact .refl _
  · exact moves

theorem valuesOf_moves (h : List.Forall₂ (MemberMoves kept) members members') :
    List.Forall₂ (Moves kept) (valuesOf name members) (valuesOf name members') := by
  induction h with
  | nil => exact .nil
  | @cons m m' members members' head tail ih =>
      obtain ⟨key, j⟩ := m
      obtain ⟨key', j'⟩ := m'
      obtain rfl : key' = key := head.name_eq
      by_cases same : key' = name
      · subst same
        rw [valuesOf_cons_same, valuesOf_cons_same]
        exact .cons head.moves ih
      · rw [valuesOf_cons_other same, valuesOf_cons_other same]
        exact ih

theorem othersThan_moves (h : List.Forall₂ (MemberMoves kept) members members') :
    List.Forall₂ (MemberMoves kept) (othersThan name members) (othersThan name members') := by
  induction h with
  | nil => exact .nil
  | @cons m m' members members' head tail ih =>
      obtain ⟨key, j⟩ := m
      obtain ⟨key', j'⟩ := m'
      obtain rfl : key' = key := head.name_eq
      by_cases same : key' = name
      · subst same
        rw [othersThan_cons_same, othersThan_cons_same]
        exact ih
      · rw [othersThan_cons_other same, othersThan_cons_other same]
        exact .cons head ih

/-- The members of an object change places, and each of them moves. -/
def MembersMove (kept : String) (members members' : List (String × Json)) : Prop :=
  ∃ placed, members.Perm placed ∧ List.Forall₂ (MemberMoves kept) placed members'

theorem MembersMove.others (h : MembersMove kept members members') :
    MembersMove kept (othersThan name members) (othersThan name members') := by
  obtain ⟨placed, places, moves⟩ := h
  exact ⟨othersThan name placed, places.filter _, othersThan_moves moves⟩

theorem MembersMove.values (h : MembersMove kept members members') (name : String) :
    ∃ placed, (valuesOf name members).Perm placed ∧
      List.Forall₂ (Moves kept) placed (valuesOf name members') := by
  obtain ⟨placed, places, moves⟩ := h
  exact ⟨valuesOf name placed, (places.filter _).map _, valuesOf_moves moves⟩

theorem MembersMove.none (h : MembersMove kept members members')
    (own : valuesOf name members = []) : valuesOf name members' = [] := by
  obtain ⟨placed, places, moves⟩ := h.values name
  rw [own] at places
  obtain rfl := List.nil_perm.1 places
  exact List.forall₂_nil_left_iff.1 moves

theorem MembersMove.single (h : MembersMove kept members members')
    (own : valuesOf name members = [j]) :
    ∃ j', valuesOf name members' = [j'] ∧ Moves kept j j' := by
  obtain ⟨placed, places, moves⟩ := h.values name
  rw [own] at places
  obtain rfl := List.singleton_perm.1 places
  obtain ⟨j', others, moves, ended, values⟩ := List.forall₂_cons_left_iff.1 moves
  obtain rfl := List.forall₂_nil_left_iff.1 ended
  exact ⟨j', values, moves⟩

end

end Json

section Fields

variable {kept : String}

theorem Fields.describesMembers_of_moves : (fields : Fields) → fields.keepsIn kept = true →
    {members members' : List (String × Json)} → MembersMove kept members members' →
    (values : fields.Value) → fields.DescribesMembers members values →
    fields.DescribesMembers members' values
  | .nil, _, _, _, moves, _, described => by
      obtain rfl : _ = [] := described
      obtain ⟨placed, places, moved⟩ := moves
      obtain rfl := List.nil_perm.1 places
      exact List.forall₂_nil_left_iff.1 moved
  | .required _ shape rest, keeps, _, _, moves, (value, values), described
  | .optional _ shape rest, keeps, _, _, moves, (some value, values), described => by
      obtain ⟨keepsShape, keepsRest⟩ := Bool.and_eq_true_iff.1 keeps
      obtain ⟨⟨j, own, valued⟩, others⟩ := described
      obtain ⟨j', own', moved⟩ := moves.single own
      exact ⟨⟨j', own', moved shape keepsShape value valued⟩,
        rest.describesMembers_of_moves keepsRest moves.others values others⟩
  | .optional _ shape rest, keeps, _, _, moves, (none, values), described => by
      obtain ⟨-, keepsRest⟩ := Bool.and_eq_true_iff.1 keeps
      obtain ⟨own, others⟩ := described
      exact ⟨moves.none own, rest.describesMembers_of_moves keepsRest moves.others values others⟩

theorem Fields.describesItems_of_moves : (fields : Fields) → fields.keepsIn kept = true →
    {items items' : List Json} → List.Forall₂ (Moves kept) items items' →
    (values : fields.Value) → fields.DescribesItems items values →
    fields.DescribesItems items' values
  | .nil, _, _, _, moves, _, described => by
      obtain rfl : _ = [] := described
      exact List.forall₂_nil_left_iff.1 moves
  | .required _ shape rest, keeps, _, _, moves, (value, values), described
  | .optional _ shape rest, keeps, _, _, moves, (some value, values), described => by
      obtain ⟨keepsShape, keepsRest⟩ := Bool.and_eq_true_iff.1 keeps
      obtain ⟨j, left, rfl, valued, others⟩ := described
      cases moves with
      | cons head tail =>
          exact ⟨_, _, rfl, head shape keepsShape value valued,
            rest.describesItems_of_moves keepsRest tail values others⟩
  | .optional _ shape rest, keeps, _, _, moves, (none, values), described => by
      obtain ⟨-, keepsRest⟩ := Bool.and_eq_true_iff.1 keeps
      obtain ⟨rfl, others⟩ := described
      exact ⟨List.forall₂_nil_left_iff.1 moves, others⟩

theorem Cases.describes_of_fields {content content' : Content}
    (each : ∀ fields : Fields, fields.keepsIn kept = true → ∀ values : fields.Value,
      (match content with
        | .items items => fields.DescribesItems items values
        | .members members => fields.DescribesMembers members values) →
      match content' with
        | .items items => fields.DescribesItems items values
        | .members members => fields.DescribesMembers members values) :
    (cases : Cases) → cases.keepsIn kept = true → (name : String) → (value : cases.Value) →
    cases.Describes name content value → cases.Describes name content' value
  | .nil, _, _, value, _ => nomatch value
  | .cons _ _ fields rest, keeps, name, .inl values, described => by
      obtain ⟨keepsFields, -⟩ := Bool.and_eq_true_iff.1 keeps
      obtain ⟨same, described⟩ := described
      exact ⟨same, each fields keepsFields values described⟩
  | .cons _ _ fields rest, keeps, name, .inr value, described => by
      obtain ⟨-, keepsRest⟩ := Bool.and_eq_true_iff.1 keeps
      obtain ⟨other, described⟩ := described
      exact ⟨other, rest.describes_of_fields each keepsRest name value described⟩

end Fields

section Values

variable {kept : String}

theorem Variants.describes_of_moves {name : String} {j j' : Json} (other : name ≠ kept)
    (moves : Moves kept j j') : (variants : Variants) → variants.keepsIn kept = true →
    (value : variants.Value) → variants.Describes name j value → variants.Describes name j' value
  | .nil, _, value, _ => nomatch value
  | .bare _ rest, keeps, .inl (), described => by
      obtain ⟨same, own⟩ := described
      exact ⟨same, moves.null own⟩
  | .bare _ rest, keeps, .inr value, described => by
      obtain ⟨apart, described⟩ := described
      exact ⟨apart, rest.describes_of_moves other moves keeps value described⟩
  | .carrying _ _ shape rest, keeps, .inl value, described => by
      obtain ⟨keepsOwn, -⟩ := Bool.and_eq_true_iff.1 keeps
      obtain ⟨rfl, described⟩ := described
      have keepsShape : shape.keepsIn kept = true := by simpa [other] using keepsOwn
      exact ⟨rfl, moves shape keepsShape value described⟩
  | .carrying _ _ shape rest, keeps, .inr value, described => by
      obtain ⟨-, keepsRest⟩ := Bool.and_eq_true_iff.1 keeps
      obtain ⟨apart, described⟩ := described
      exact ⟨apart, rest.describes_of_moves other moves keepsRest value described⟩

theorem Json.moves_object {members members' : List (String × Json)}
    (h : MembersMove kept members members') :
    (shape : Shape) → shape.keepsIn kept = true → (value : shape.Value) →
    shape.Describes (.object members) value → shape.Describes (.object members') value
  | .scalar _, _, _, described => described
  | .optional inner, keeps, none, described => nomatch described
  | .optional inner, keeps, some value, described =>
      ⟨nofun, Json.moves_object h inner keeps value described.2⟩
  | .list _, _, _, described => by
      obtain ⟨items, own, -⟩ := described
      cases own
  | .record _ _ fields, keeps, values, described => by
      obtain ⟨items, own, -⟩ | ⟨members, own, described⟩ := described
      · cases own
      · cases own
        exact .inr ⟨members', rfl, fields.describesMembers_of_moves keeps h values described⟩
  | .choice variants, keeps, value, described => by
      obtain ⟨name, own, -⟩ | ⟨name, inner, own, described⟩ := described
      · cases own
      · cases own
        -- A single member has nowhere to go; what it carries can move.
        obtain ⟨placed, places, moves⟩ := h
        obtain rfl := List.singleton_perm.1 places
        obtain ⟨⟨name', inner'⟩, others, move, ended, rfl⟩ := List.forall₂_cons_left_iff.1 moves
        obtain rfl := List.forall₂_nil_left_iff.1 ended
        obtain same | ⟨same, other, moves⟩ := move
        · cases same
          exact .inr ⟨name, inner, rfl, described⟩
        · obtain rfl : name' = name := same
          exact .inr ⟨name', inner', rfl,
            variants.describes_of_moves other moves keeps value described⟩
  | .tagged _ tag cases, keeps, value, described => by
      obtain ⟨name, items, own, -⟩ | ⟨name, members, own, named, described⟩ := described
      · cases own
      · cases own
        obtain ⟨j, named', moved⟩ := h.single named
        obtain rfl := moved.text rfl
        exact .inr ⟨name, members', rfl, named', cases.describes_of_fields
          (fun fields keeps values => fields.describesMembers_of_moves keeps h.others values)
          keeps name value described⟩

theorem Json.moves_array {items items' : List Json}
    (h : List.Forall₂ (Moves kept) items items') :
    (shape : Shape) → shape.keepsIn kept = true → (value : shape.Value) →
    shape.Describes (.array items) value → shape.Describes (.array items') value
  | .scalar _, _, _, described => described
  | .optional inner, keeps, none, described => nomatch described
  | .optional inner, keeps, some value, described =>
      ⟨nofun, Json.moves_array h inner keeps value described.2⟩
  | .list item, keeps, values, described => by
      obtain ⟨items, own, all⟩ := described
      cases own
      refine ⟨items', rfl, ?_⟩
      induction all generalizing items' with
      | nil =>
          cases h
          exact .nil
      | cons head tail ih =>
          cases h with
          | cons move moves => exact .cons (move item keeps _ head) (ih moves)
  | .record _ _ fields, keeps, values, described => by
      obtain ⟨items, own, described⟩ | ⟨members, own, -⟩ := described
      · cases own
        exact .inl ⟨items', rfl, fields.describesItems_of_moves keeps h values described⟩
      · cases own
  | .choice _, _, _, described => by
      obtain ⟨name, own, -⟩ | ⟨name, inner, own, -⟩ := described <;> cases own
  | .tagged _ tag cases, keeps, value, described => by
      obtain ⟨name, items, own, described⟩ | ⟨name, members, own, -⟩ := described
      · cases own
        cases h with
        | @cons _ j _ others head tail =>
            obtain rfl := head.text rfl
            exact .inl ⟨name, others, rfl, cases.describes_of_fields
              (fun fields keeps values => fields.describesItems_of_moves keeps tail values)
              keeps name value described⟩
      · cases own

/-- What is described does not depend on the order of members. -/
theorem Json.Reordered.moves {j j' : Json} (h : Reordered Json.array Json.object kept j j') :
    Moves kept j j' := by
  induction h with
  | refl j => exact .refl j
  | trans _ _ front back =>
      exact fun shape keeps value described =>
        back shape keeps value (front shape keeps value described)
  | members places =>
      exact Json.moves_object ⟨_, places, List.forall₂_same.2 fun m _ => .inl rfl⟩
  | item _ ih =>
      have same (items : List Json) : List.Forall₂ (Moves kept) items items :=
        List.forall₂_same.2 fun j _ => .refl j
      exact Json.moves_array (List.rel_append (same _) (.cons ih (same _)))
  | member other _ ih =>
      have same (members : List (String × Json)) : List.Forall₂ (MemberMoves kept) members members :=
        List.forall₂_same.2 fun m _ => .inl rfl
      apply Json.moves_object
      refine ⟨_, .refl _, ?_⟩
      apply List.rel_append (same _)
      exact .cons (.inr ⟨rfl, other, ih⟩) (same _)

end Values

end GeoQuery
