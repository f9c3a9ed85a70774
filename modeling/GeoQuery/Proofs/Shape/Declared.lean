import GeoQuery.Proofs.Shape.Described

namespace GeoQuery

open Json

mutual

/-- Outside of what is kept as JSON, brackets stand only where the shape takes them, each member has
a name that is known at its place, and no object has a name twice. -/
def Shape.Declares : Shape → Json → Prop
  | .json, _ => True
  | .optional inner, j => inner.Declares j
  | .list item, .array items => ∀ j ∈ items, item.Declares j
  | .record _ _ fields, .array items => fields.DeclaresItems items
  | .record _ _ fields, .object members =>
    (members.map Prod.fst).Nodup ∧ ∀ m ∈ members, fields.DeclaresMember m.1 m.2
  | .choice variants, .object members =>
    (members.map Prod.fst).Nodup ∧ ∀ m ∈ members, variants.Declares m.1 m.2
  | .tagged _ _ cases, .array items =>
    ∃ name rest, items = .leaf (.text name) :: rest ∧ cases.Declares name (.items rest)
  | .tagged _ tag cases, .object members =>
    (members.map Prod.fst).Nodup ∧ ∃ name, (tag, .leaf (.text name)) ∈ members ∧
      cases.Declares name (.members (othersThan tag members))
  | _, j => ∃ l, j = .leaf l

def Fields.DeclaresItems : Fields → List Json → Prop
  | .nil, items => items = []
  | .required _ _ _, [] | .optional _ _ _, [] => True
  | .required _ shape rest, j :: items | .optional _ shape rest, j :: items =>
    shape.Declares j ∧ rest.DeclaresItems items

def Fields.DeclaresMember : Fields → String → Json → Prop
  | .nil, _, _ => False
  | .required known shape rest, name, j | .optional known shape rest, name, j =>
    (known = name ∧ shape.Declares j) ∨ (known ≠ name ∧ rest.DeclaresMember name j)

def Variants.Declares : Variants → String → Json → Prop
  | .nil, _, _ => False
  | .bare known rest, name, j =>
    (known = name ∧ ∃ l, j = .leaf l) ∨ (known ≠ name ∧ rest.Declares name j)
  | .carrying known _ shape rest, name, j =>
    (known = name ∧ shape.Declares j) ∨ (known ≠ name ∧ rest.Declares name j)

def Cases.Declares : Cases → String → Content → Prop
  | .nil, _, _ => False
  | .cons known _ fields rest, name, content =>
    (known = name ∧
      match content with
      | .items items => fields.DeclaresItems items
      | .members members => ∀ m ∈ members, fields.DeclaresMember m.1 m.2) ∨
    (known ≠ name ∧ rest.Declares name content)

end

namespace Json

variable {name : String} {members : List (String × Json)} {m : String × Json}

theorem own_or_other (name : String) (member : m ∈ members) :
    (name = m.1 ∧ m.2 ∈ valuesOf name members) ∨ (name ≠ m.1 ∧ m ∈ othersThan name members) := by
  by_cases same : name = m.1
  · have own : m ∈ members.filter (·.1 = name) := List.mem_filter.2 ⟨member, by simp [same]⟩
    exact .inl ⟨same, List.mem_map_of_mem own⟩
  · exact .inr ⟨same, mem_othersThan.2 ⟨member, Ne.symm same⟩⟩

theorem nodup_names_of_othersThan (once : (valuesOf name members).length ≤ 1)
    (others : ((othersThan name members).map Prod.fst).Nodup) : (members.map Prod.fst).Nodup := by
  induction members with
  | nil => exact List.nodup_nil
  | cons m members ih =>
      obtain ⟨key, j⟩ := m
      rw [List.map_cons, List.nodup_cons]
      by_cases same : key = name
      · subst same
        rw [valuesOf_cons_same, List.length_cons] at once
        rw [othersThan_cons_same] at others
        have none : valuesOf key members = [] := List.eq_nil_of_length_eq_zero (by omega)
        refine ⟨fun again => ?_, ih (by omega) others⟩
        obtain ⟨m, member, same⟩ := List.mem_map.1 again
        rcases own_or_other key member with ⟨-, own⟩ | ⟨other, -⟩
        · rw [none] at own
          cases own
        · exact other same.symm
      · rw [valuesOf_cons_other same] at once
        rw [othersThan_cons_other same, List.map_cons, List.nodup_cons] at others
        refine ⟨fun again => ?_, ih once others.2⟩
        obtain ⟨m, member, again⟩ := List.mem_map.1 again
        have behind := mem_othersThan.2 ⟨member, again.trans_ne same⟩
        exact others.1 (List.mem_map.2 ⟨m, behind, again⟩)

/-- What holds of the one member of a name, if it is there, and of the others apart, holds of all. -/
theorem members_of_own_and_others {own : Json → Prop} {other : String → Json → Prop}
    (once : (valuesOf name members).length ≤ 1) (first : ∀ j ∈ valuesOf name members, own j)
    (others : ((othersThan name members).map Prod.fst).Nodup ∧
      ∀ m ∈ othersThan name members, other m.1 m.2) :
    (members.map Prod.fst).Nodup ∧
      ∀ m ∈ members, (name = m.1 ∧ own m.2) ∨ (name ≠ m.1 ∧ other m.1 m.2) := by
  obtain ⟨distinct, known⟩ := others
  refine ⟨nodup_names_of_othersThan once distinct, fun m member => ?_⟩
  rcases own_or_other name member with ⟨same, isOwn⟩ | ⟨another, behind⟩
  · exact .inl ⟨same, first m.2 isOwn⟩
  · exact .inr ⟨another, known m behind⟩

end Json

theorem Shape.declares_leaf : (shape : Shape) → (l : Leaf) → shape.Declares (.leaf l)
  | .json, _ => trivial
  | .optional inner, l => inner.declares_leaf l
  | .scalar _, l | .list _, l | .record _ _ _, l | .choice _, l | .tagged _ _ _, l => ⟨l, rfl⟩

mutual

/-- What describes a value has known names only. -/
theorem Shape.declares_of_describes : (shape : Shape) → {j : Json} → {value : shape.Value} →
    shape.Describes j value → shape.Declares j
  | .scalar kind, j, value, described => by
      obtain ⟨l, leaf⟩ := Scalar.leaf_of_accept described
      exact ⟨l, found_eq_leaf_iff.1 leaf⟩
  | .json, _, _, _ => trivial
  | .optional inner, j, none, described => by
      obtain rfl : j = .leaf .null := described
      exact inner.declares_leaf .null
  | .optional inner, _, some _, described => inner.declares_of_describes described.2
  | .list item, j, values, described => by
      obtain ⟨items, rfl, each⟩ := described
      exact forall_mem_of_forall₂ each fun _ _ described => item.declares_of_describes described
  | .record label extra fields, j, values, described => by
      rcases described with ⟨items, rfl, inOrder⟩ | ⟨members, rfl, byName⟩
      · exact fields.declaresItems_of_describes inOrder
      · exact fields.declaresMembers_of_describes byName
  | .choice variants, j, value, described => by
      rcases described with ⟨name, rfl, named⟩ | ⟨name, inner, rfl, carried⟩
      · exact ⟨_, rfl⟩
      · refine ⟨List.nodup_singleton _, fun m member => ?_⟩
        obtain rfl := List.mem_singleton.1 member
        exact variants.declares_of_describes carried
  | .tagged label tag cases, j, value, described => by
      rcases described with ⟨name, items, rfl, inOrder⟩ | ⟨name, members, rfl, once, byName⟩
      · exact ⟨name, items, rfl, (cases.declares_of_describes inOrder).1⟩
      · obtain ⟨known, distinct⟩ := cases.declares_of_describes byName
        exact ⟨nodup_names_of_othersThan (by simp [once]) (distinct _ rfl), name,
          mem_of_valuesOf (by simp [once]), known⟩

theorem Fields.declaresItems_of_describes : (fields : Fields) → {items : List Json} →
    {values : fields.Value} → fields.DescribesItems items values → fields.DeclaresItems items
  | .nil, _, (), finished => finished
  | .required _ shape rest, items, (value, values), described
  | .optional _ shape rest, items, (some value, values), described => by
      obtain ⟨j, left, rfl, first, others⟩ := described
      exact ⟨shape.declares_of_describes first, rest.declaresItems_of_describes others⟩
  | .optional _ shape rest, items, (none, values), described => by
      obtain ⟨rfl, -⟩ := described
      exact trivial

theorem Fields.declaresMembers_of_describes : (fields : Fields) → {members : List (String × Json)} →
    {values : fields.Value} → fields.DescribesMembers members values →
    (members.map Prod.fst).Nodup ∧ ∀ m ∈ members, fields.DeclaresMember m.1 m.2
  | .nil, members, (), finished => by
      obtain rfl : members = [] := finished
      exact ⟨List.nodup_nil, nofun⟩
  | .required name shape rest, members, (value, values), described
  | .optional name shape rest, members, (some value, values), described => by
      obtain ⟨⟨j, once, first⟩, others⟩ := described
      refine members_of_own_and_others (by simp [once]) ?_ (rest.declaresMembers_of_describes others)
      rw [once, List.forall_mem_singleton]
      exact shape.declares_of_describes first
  | .optional name shape rest, members, (none, values), described => by
      obtain ⟨absent, others⟩ := described
      have absent : valuesOf name members = [] := absent
      refine members_of_own_and_others (by simp [absent]) ?_ (rest.declaresMembers_of_describes others)
      rw [absent]
      exact nofun

theorem Variants.declares_of_describes : (variants : Variants) → {name : String} → {j : Json} →
    {value : variants.Value} → variants.Describes name j value → variants.Declares name j
  | .bare _ _, _, _, .inl (), ⟨same, null⟩ => .inl ⟨same, _, null⟩
  | .bare _ rest, _, _, .inr _, ⟨other, described⟩ =>
      .inr ⟨other, rest.declares_of_describes described⟩
  | .carrying _ _ shape _, _, _, .inl _, ⟨same, described⟩ =>
      .inl ⟨same, shape.declares_of_describes described⟩
  | .carrying _ _ _ rest, _, _, .inr _, ⟨other, described⟩ =>
      .inr ⟨other, rest.declares_of_describes described⟩

theorem Cases.declares_of_describes : (cases : Cases) → {name : String} → {content : Content} →
    {value : cases.Value} → cases.Describes name content value →
    cases.Declares name content ∧
      ∀ members, content = .members members → (members.map Prod.fst).Nodup
  | .cons _ _ fields _, _, .items _, .inl _, ⟨same, described⟩ =>
      ⟨.inl ⟨same, fields.declaresItems_of_describes described⟩, nofun⟩
  | .cons known label fields rest, name, .members members, .inl values, ⟨same, described⟩ => by
      obtain ⟨distinct, known⟩ := fields.declaresMembers_of_describes described
      refine ⟨.inl ⟨same, known⟩, ?_⟩
      rintro _ ⟨⟩
      exact distinct
  | .cons known label fields rest, name, content, .inr value, ⟨other, described⟩ => by
      obtain ⟨known, distinct⟩ := rest.declares_of_describes described
      exact ⟨.inr ⟨other, known⟩, distinct⟩

end

end GeoQuery
