import GeoQuery.Proofs.Json.Context
import GeoQuery.Proofs.Shape.Declared

/-!
Places of scalars. A shape says at which places of a JSON value it takes a scalar of a kind, and a path
names the place by the fields, variants and cases of the shape. What such a value describes depends on
the number there through one scalar only, which stands at the same path of the described value.
-/

namespace GeoQuery

open Json

inductive Step
  | name (text : String)
  | index (position : Nat)
deriving DecidableEq

/-- The way from a whole description to a part of it. A field has its name here also where the record
is given as a list, and the fields of a tagged record stand below the name of its case. -/
abbrev Path := List Step

mutual

/-- The hole is a place where the shape takes a scalar of the kind, and this is the path to it. -/
def Shape.Takes (kind : Scalar) : Shape → Path → Context Json → Prop
  | .scalar known, path, place => kind = known ∧ path = [] ∧ place = .hole
  | .json, _, _ => False
  | .optional inner, path, place => inner.Takes kind path place
  | .list item, path, place =>
    ∃ before inner after below, place = .item before inner after ∧
      path = .index before.length :: below ∧ item.Takes kind below inner
  | .record _ _ fields, path, place =>
    (∃ before inner after, place = .item before inner after ∧
        fields.TakesItem kind before path inner) ∨
      ∃ before name inner after, place = .member before name inner after ∧
        fields.TakesMember kind name path inner
  | .choice variants, path, place =>
    ∃ name inner, place = .member [] name inner [] ∧ variants.Takes kind name path inner
  | .tagged _ tag cases, path, place =>
    (∃ name before inner after, place = .item (.leaf (.text name) :: before) inner after ∧
        cases.TakesItem kind name before path inner) ∨
      ∃ name before key inner after, place = .member before key inner after ∧ key ≠ tag ∧
        (tag, .leaf (.text name)) ∈ before ++ after ∧ cases.TakesMember kind name key path inner

def Fields.TakesItem (kind : Scalar) : Fields → List Json → Path → Context Json → Prop
  | .nil, _, _, _ => False
  | .required known shape _, [], path, place | .optional known shape _, [], path, place =>
    ∃ below, path = .name known :: below ∧ shape.Takes kind below place
  | .required _ _ rest, _ :: before, path, place | .optional _ _ rest, _ :: before, path, place =>
    rest.TakesItem kind before path place

def Fields.TakesMember (kind : Scalar) : Fields → String → Path → Context Json → Prop
  | .nil, _, _, _ => False
  | .required known shape rest, name, path, place | .optional known shape rest, name, path, place =>
    (known = name ∧ ∃ below, path = .name known :: below ∧ shape.Takes kind below place) ∨
      (known ≠ name ∧ rest.TakesMember kind name path place)

def Variants.Takes (kind : Scalar) : Variants → String → Path → Context Json → Prop
  | .nil, _, _, _ => False
  | .bare known rest, name, path, place => known ≠ name ∧ rest.Takes kind name path place
  | .carrying known _ shape rest, name, path, place =>
    (known = name ∧ ∃ below, path = .name known :: below ∧ shape.Takes kind below place) ∨
      (known ≠ name ∧ rest.Takes kind name path place)

def Cases.TakesItem (kind : Scalar) : Cases → String → List Json → Path → Context Json → Prop
  | .nil, _, _, _, _ => False
  | .cons known _ fields rest, name, before, path, place =>
    (known = name ∧ ∃ below, path = .name known :: below ∧
        fields.TakesItem kind before below place) ∨
      (known ≠ name ∧ rest.TakesItem kind name before path place)

def Cases.TakesMember (kind : Scalar) : Cases → String → String → Path → Context Json → Prop
  | .nil, _, _, _, _ => False
  | .cons known _ fields rest, name, key, path, place =>
    (known = name ∧ ∃ below, path = .name known :: below ∧
        fields.TakesMember kind key below place) ∨
      (known ≠ name ∧ rest.TakesMember kind name key path place)

end

mutual

/-- The function puts a scalar of the kind at the path of a value, whose other parts are fixed. -/
def Shape.Inserts (kind : Scalar) : (shape : Shape) → Path → (kind.Value → shape.Value) → Prop
  | .scalar known, path, insert =>
    path = [] ∧ ∃ same : kind = known, insert = fun x => (same ▸ x : known.Value)
  | .json, _, _ => False
  | .optional inner, path, insert =>
    ∃ own, inner.Inserts kind path own ∧ insert = fun x => some (own x)
  | .list item, path, insert =>
    ∃ below before own after, path = .index before.length :: below ∧ item.Inserts kind below own ∧
      insert = fun x => before ++ own x :: after
  | .record _ _ fields, path, insert => fields.Inserts kind path insert
  | .choice variants, path, insert => variants.Inserts kind path insert
  | .tagged _ _ cases, path, insert => cases.Inserts kind path insert

def Fields.Inserts (kind : Scalar) : (fields : Fields) → Path → (kind.Value → fields.Value) → Prop
  | .nil, _, _ => False
  | .required known shape rest, path, insert =>
    (∃ below own values, path = .name known :: below ∧ shape.Inserts kind below own ∧
        insert = fun x => (own x, values)) ∨
      ∃ value others, rest.Inserts kind path others ∧ insert = fun x => (value, others x)
  | .optional known shape rest, path, insert =>
    (∃ below own values, path = .name known :: below ∧ shape.Inserts kind below own ∧
        insert = fun x => (some (own x), values)) ∨
      ∃ value others, rest.Inserts kind path others ∧ insert = fun x => (value, others x)

def Variants.Inserts (kind : Scalar) :
    (variants : Variants) → Path → (kind.Value → variants.Value) → Prop
  | .nil, _, _ => False
  | .bare _ rest, path, insert =>
    ∃ other, rest.Inserts kind path other ∧ insert = fun x => .inr (other x)
  | .carrying known _ shape rest, path, insert =>
    (∃ below own, path = .name known :: below ∧ shape.Inserts kind below own ∧
        insert = fun x => .inl (own x)) ∨
      ∃ other, rest.Inserts kind path other ∧ insert = fun x => .inr (other x)

def Cases.Inserts (kind : Scalar) : (cases : Cases) → Path → (kind.Value → cases.Value) → Prop
  | .nil, _, _ => False
  | .cons known _ fields rest, path, insert =>
    (∃ below own, path = .name known :: below ∧ fields.Inserts kind below own ∧
        insert = fun x => .inl (own x)) ∨
      ∃ other, rest.Inserts kind path other ∧ insert = fun x => .inr (other x)

end

mutual

/-- Whether a shape has scalars of the kind, outside of what is kept as JSON. -/
def Shape.holds (kind : Scalar) : Shape → Bool
  | .scalar known => kind = known
  | .json => false
  | .optional inner | .list inner => inner.holds kind
  | .record _ _ fields => fields.holds kind
  | .choice variants => variants.holds kind
  | .tagged _ _ cases => cases.holds kind

def Fields.holds (kind : Scalar) : Fields → Bool
  | .nil => false
  | .required _ shape rest | .optional _ shape rest => shape.holds kind || rest.holds kind

def Variants.holds (kind : Scalar) : Variants → Bool
  | .nil => false
  | .bare _ rest => rest.holds kind
  | .carrying _ _ shape rest => shape.holds kind || rest.holds kind

def Cases.holds (kind : Scalar) : Cases → Bool
  | .nil => false
  | .cons _ _ fields rest => fields.holds kind || rest.holds kind

end

mutual

theorem Shape.holds_of_inserts {kind : Scalar} : (shape : Shape) → {path : Path} →
    {insert : kind.Value → shape.Value} → shape.Inserts kind path insert → shape.holds kind = true
  | .scalar _, _, _, ⟨_, same, _⟩ => decide_eq_true same
  | .optional inner, _, _, ⟨_, inserts, _⟩ => inner.holds_of_inserts inserts
  | .list item, _, _, ⟨_, _, _, _, _, inserts, _⟩ => item.holds_of_inserts inserts
  | .record _ _ fields, _, _, inserts => fields.holds_of_inserts inserts
  | .choice variants, _, _, inserts => variants.holds_of_inserts inserts
  | .tagged _ _ cases, _, _, inserts => cases.holds_of_inserts inserts

theorem Fields.holds_of_inserts {kind : Scalar} : (fields : Fields) → {path : Path} →
    {insert : kind.Value → fields.Value} → fields.Inserts kind path insert →
    fields.holds kind = true
  | .required _ shape _, _, _, .inl ⟨_, _, _, _, inserts, _⟩
  | .optional _ shape _, _, _, .inl ⟨_, _, _, _, inserts, _⟩ =>
      Bool.or_eq_true_iff.2 (.inl (shape.holds_of_inserts inserts))
  | .required _ _ rest, _, _, .inr ⟨_, _, inserts, _⟩
  | .optional _ _ rest, _, _, .inr ⟨_, _, inserts, _⟩ =>
      Bool.or_eq_true_iff.2 (.inr (rest.holds_of_inserts inserts))

theorem Variants.holds_of_inserts {kind : Scalar} : (variants : Variants) → {path : Path} →
    {insert : kind.Value → variants.Value} → variants.Inserts kind path insert →
    variants.holds kind = true
  | .bare _ rest, _, _, ⟨_, inserts, _⟩ => rest.holds_of_inserts inserts
  | .carrying _ _ shape _, _, _, .inl ⟨_, _, _, inserts, _⟩ =>
      Bool.or_eq_true_iff.2 (.inl (shape.holds_of_inserts inserts))
  | .carrying _ _ _ rest, _, _, .inr ⟨_, inserts, _⟩ =>
      Bool.or_eq_true_iff.2 (.inr (rest.holds_of_inserts inserts))

theorem Cases.holds_of_inserts {kind : Scalar} : (cases : Cases) → {path : Path} →
    {insert : kind.Value → cases.Value} → cases.Inserts kind path insert → cases.holds kind = true
  | .cons _ _ fields _, _, _, .inl ⟨_, _, _, inserts, _⟩ =>
      Bool.or_eq_true_iff.2 (.inl (fields.holds_of_inserts inserts))
  | .cons _ _ _ rest, _, _, .inr ⟨_, inserts, _⟩ =>
      Bool.or_eq_true_iff.2 (.inr (rest.holds_of_inserts inserts))

end

theorem Shape.exists_item_of_inserts {kind : Scalar} (item : Shape) {path : Path}
    {insert : kind.Value → List item.Value} (h : (Shape.list item).Inserts kind path insert)
    {α : Type} (ofValue : item.Value → α) :
    ∃ below front own back, path = .index front.length :: below ∧ item.Inserts kind below own ∧
      ∀ x, (insert x).map ofValue = front ++ ofValue (own x) :: back := by
  obtain ⟨below, before, own, after, rfl, inserts, rfl⟩ := h
  refine ⟨below, before.map ofValue, own, after.map ofValue, ?_, inserts, fun x => ?_⟩
  · rw [List.length_map]
  · rw [List.map_append, List.map_cons]

namespace Fields

variable {kind : Scalar} {name : String} {shape : Shape} {rest : Fields} {path : Path}

theorem inserts_behind_required {insert : kind.Value → (required name shape rest).Value}
    (h : (required name shape rest).Inserts kind path insert) (absent : shape.holds kind = false) :
    ∃ value others, rest.Inserts kind path others ∧ insert = fun x => (value, others x) := by
  rcases h with ⟨_, own, values, -, inserts, -⟩ | behind
  · rw [shape.holds_of_inserts inserts] at absent
    cases absent
  · exact behind

theorem inserts_behind_optional {insert : kind.Value → (optional name shape rest).Value}
    (h : (optional name shape rest).Inserts kind path insert) (absent : shape.holds kind = false) :
    ∃ value others, rest.Inserts kind path others ∧ insert = fun x => (value, others x) := by
  rcases h with ⟨_, own, values, -, inserts, -⟩ | behind
  · rw [shape.holds_of_inserts inserts] at absent
    cases absent
  · exact behind

theorem inserts_last_required {insert : kind.Value → (required name shape .nil).Value}
    (h : (required name shape .nil).Inserts kind path insert) :
    ∃ below own, path = .name name :: below ∧ shape.Inserts kind below own ∧
      insert = fun x => (own x, ()) := by
  rcases h with ⟨below, own, ⟨⟩, known, inserts, same⟩ | ⟨_, _, nothing, -⟩
  · exact ⟨below, own, known, inserts, same⟩
  · cases nothing

theorem inserts_last_optional {insert : kind.Value → (optional name shape .nil).Value}
    (h : (optional name shape .nil).Inserts kind path insert) :
    ∃ below own, path = .name name :: below ∧ shape.Inserts kind below own ∧
      insert = fun x => (some (own x), ()) := by
  rcases h with ⟨below, own, ⟨⟩, known, inserts, same⟩ | ⟨_, _, nothing, -⟩
  · exact ⟨below, own, known, inserts, same⟩
  · cases nothing

def numbers : List String → Fields
  | [] => .nil
  | name :: names => .required name (.scalar .number) (numbers names)

def valuesOfNumbers : (names : List String) → (numbers names).Value → List Binary64
  | [], () => []
  | _ :: names, (x, values) => x :: valuesOfNumbers names values

/-- A number is put in the position that its name has among the names. -/
theorem inserts_numbers (names : List String) (apart : names.Nodup)
    {insert : Binary64 → (numbers names).Value}
    (inserts : (numbers names).Inserts .number path insert) :
    ∃ name front back, path = [.name name] ∧ names.idxOf? name = some front.length ∧
      ∀ x, valuesOfNumbers names (insert x) = front ++ x :: back := by
  induction names with
  | nil => cases inserts
  | cons first names ih =>
      obtain ⟨notAmong, apart⟩ := List.nodup_cons.1 apart
      rcases inserts with ⟨_, _, values, rfl, ⟨rfl, _, rfl⟩, rfl⟩ | ⟨value, others, inserts, rfl⟩
      · refine ⟨first, [], valuesOfNumbers names values, rfl, ?_, fun _ => rfl⟩
        rw [List.idxOf?_cons, if_pos (BEq.rfl), List.length_nil]
      · obtain ⟨name, front, back, rfl, position, same⟩ := ih apart inserts
        refine ⟨name, value :: front, back, rfl, ?_, fun x => ?_⟩
        · have among : name ∈ names := List.isSome_idxOf?.1 (Option.isSome_of_eq_some position)
          have other : (first == name) = false := beq_false_of_ne fun same => notAmong (same ▸ among)
          rw [List.idxOf?_cons, other, position]
          rfl
        · rw [valuesOfNumbers, same]
          rfl

end Fields

namespace Json

section

variable {name key : String} {j j' : Json} {before after : List (String × Json)}

theorem valuesOf_append :
    valuesOf name (before ++ after) = valuesOf name before ++ valuesOf name after := by
  simp [valuesOf]

theorem othersThan_append :
    othersThan name (before ++ after) = othersThan name before ++ othersThan name after := by
  simp [othersThan]

theorem valuesOf_around_own_iff :
    valuesOf name (before ++ (name, j) :: after) = [j'] ↔
      valuesOf name (before ++ after) = [] ∧ j = j' := by
  rw [valuesOf_append, valuesOf_append, valuesOf_cons_same, List.append_eq_singleton_iff,
    List.append_eq_nil_iff]
  simp only [List.cons.injEq, reduceCtorEq, and_false, or_false]
  tauto

theorem othersThan_around_own :
    othersThan name (before ++ (name, j) :: after) = othersThan name (before ++ after) := by
  rw [othersThan_append, othersThan_append, othersThan_cons_same]

theorem valuesOf_around_other (other : key ≠ name) :
    valuesOf name (before ++ (key, j) :: after) = valuesOf name (before ++ after) := by
  rw [valuesOf_append, valuesOf_append, valuesOf_cons_other other]

theorem othersThan_around_other (other : key ≠ name) :
    othersThan name (before ++ (key, j) :: after) =
      othersThan name before ++ (key, j) :: othersThan name after := by
  rw [othersThan_append, othersThan_cons_other other]

end

theorem Context.fill_eq_leaf {place : Context Json} {number : Number} {l : Leaf}
    (h : place.fill .array .object (.leaf (.number number)) = .leaf l) : l = .number number := by
  cases place with
  | hole => exact (Json.leaf.inj h).symm
  | item | member => cases h

end Json

abbrev Json.Context.withNumber (place : Context Json) (number : Number) : Json :=
  place.fill .array .object (.leaf (.number number))

/-- What is described with this number in the hole is what the scalar of the number is inserted into,
and the same goes for all other numbers of the kind. -/
structure Insertion (kind : Scalar) {α β : Type} (describes : β → α → Prop) (filled : Number → β)
    (number : Number) (value : α) (insert : kind.Value → α) : Prop where
  own : ∃ x, kind.accept (.leaf (.number number)) = .ok x ∧ insert x = value
  each : ∀ number x, kind.accept (.leaf (.number number)) = .ok x →
    describes (filled number) (insert x)

variable {kind : Scalar} {number : Number}

theorem Insertion.into {α α' β β' : Type} {describes : β → α → Prop} {filled : Number → β} {value : α}
    {insert : kind.Value → α} {describes' : β' → α' → Prop} {filled' : Number → β'}
    (h : Insertion kind describes filled number value insert) (whole : α → α')
    (lift : ∀ number part, describes (filled number) part →
      describes' (filled' number) (whole part)) :
    Insertion kind describes' filled' number (whole value) fun x => whole (insert x) := by
  obtain ⟨⟨x, accepted, rfl⟩, each⟩ := h
  exact ⟨⟨x, accepted, rfl⟩, fun number x taken => lift number _ (each number x taken)⟩

/-- An insertion into the value of a member is one into the object around it: no other member has the
name, and what the others describe does not depend on the number. -/
theorem Insertion.intoMember {shape : Shape} {rest : Fields} {known : String} {place : Context Json}
    {before after : List (String × Json)} {value : shape.Value} {values : rest.Value}
    {insert : kind.Value → shape.Value}
    (h : Insertion kind shape.Describes place.withNumber number value insert)
    (once : valuesOf known (before ++ (known, place.withNumber number) :: after) =
      [place.withNumber number])
    (others : rest.DescribesMembers
      (othersThan known (before ++ (known, place.withNumber number) :: after)) values) :
    Insertion kind (Fields.required known shape rest).DescribesMembers
      (fun number => before ++ (known, place.withNumber number) :: after) number (value, values)
      fun x => (insert x, values) := by
  refine h.into (fun value => (value, values)) fun _ _ first => ⟨⟨_, ?_, first⟩, ?_⟩
  · exact valuesOf_around_own_iff.2 ⟨(valuesOf_around_own_iff.1 once).1, rfl⟩
  · rw [othersThan_around_own] at others ⊢
    exact others

mutual

/-- Where a shape takes a scalar, the value depends on the number there through that scalar only.
Each case hands the place on to the one part that has it and keeps what the other parts describe. -/
theorem Shape.exists_inserts : (shape : Shape) → {path : Path} → {place : Context Json} →
    {value : shape.Value} → shape.Takes kind path place →
    shape.Describes (place.withNumber number) value →
    ∃ insert, shape.Inserts kind path insert ∧
      Insertion kind shape.Describes place.withNumber number value insert
  | .scalar known, path, place, value, takes, described => by
      obtain ⟨rfl, rfl, rfl⟩ := takes
      exact ⟨fun x => x, ⟨rfl, rfl, rfl⟩, ⟨value, described, rfl⟩, fun _ _ accepted => accepted⟩
  | .optional inner, path, place, none, takes, described => by
      have null : place.withNumber number = .leaf .null := described
      cases Context.fill_eq_leaf null
  | .optional inner, path, place, some value, takes, described => by
      obtain ⟨-, described⟩ := described
      have takes : inner.Takes kind path place := takes
      obtain ⟨own, inserts, inserted⟩ := inner.exists_inserts takes described
      refine ⟨_, ⟨own, inserts, rfl⟩, inserted.into some fun number value described => ?_⟩
      -- a place with a number in it is never null
      refine ⟨fun null => ?_, described⟩
      cases Context.fill_eq_leaf null
  | .list item, path, place, values, takes, described => by
      obtain ⟨before, inner, after, below, rfl, rfl, takes⟩ := takes
      obtain ⟨items, same, all⟩ := described
      cases same
      obtain ⟨front, value, back, rfl, fronts, first, backs⟩ := forall₂_append_cons_iff.1 all
      obtain ⟨own, inserts, inserted⟩ := item.exists_inserts takes first
      have position : Step.index before.length :: below = .index front.length :: below := by
        rw [fronts.length_eq]
      refine ⟨_, ⟨below, front, own, back, position, inserts, rfl⟩,
        inserted.into (fun value => front ++ value :: back)
          fun number value described => ⟨_, rfl, ?_⟩⟩
      exact forall₂_append_cons_iff.2 ⟨front, value, back, rfl, fronts, described, backs⟩
  | .record _ _ fields, path, place, values, takes, described => by
      rcases takes with ⟨before, inner, after, rfl, takes⟩ | ⟨before, name, inner, after, rfl, takes⟩
      · rcases described with ⟨items, same, inOrder⟩ | ⟨members, other, -⟩
        · cases same
          obtain ⟨insert, inserts, inserted⟩ := fields.exists_inserts_item takes inOrder
          exact ⟨insert, inserts, inserted.into id fun _ _ inOrder => .inl ⟨_, rfl, inOrder⟩⟩
        · cases other
      · rcases described with ⟨items, other, -⟩ | ⟨members, same, byName⟩
        · cases other
        · cases same
          obtain ⟨insert, inserts, inserted⟩ := fields.exists_inserts_member takes byName
          exact ⟨insert, inserts, inserted.into id fun _ _ byName => .inr ⟨_, rfl, byName⟩⟩
  | .choice variants, path, place, value, takes, described => by
      obtain ⟨name, inner, rfl, takes⟩ := takes
      rcases described with ⟨bare, other, -⟩ | ⟨name', j, same, carried⟩
      · cases other
      · cases same
        obtain ⟨insert, inserts, inserted⟩ := variants.exists_inserts takes carried
        exact ⟨insert, inserts, inserted.into id fun _ _ carried => .inr ⟨_, _, rfl, carried⟩⟩
  | .tagged _ tag cases, path, place, value, takes, described => by
      rcases takes with ⟨name, before, inner, after, rfl, takes⟩ |
        ⟨name, before, key, inner, after, rfl, notTag, tagged, takes⟩
      · rcases described with ⟨name', items, same, inOrder⟩ | ⟨name', members, other, -⟩
        · cases same
          obtain ⟨insert, inserts, inserted⟩ := cases.exists_inserts_item takes inOrder
          exact ⟨insert, inserts, inserted.into id fun _ _ inOrder => .inl ⟨_, _, rfl, inOrder⟩⟩
        · cases other
      · rcases described with ⟨name', items, other, -⟩ | ⟨name', members, same, once, byName⟩
        · cases other
        · cases same
          rw [valuesOf_around_other notTag] at once
          rw [othersThan_around_other notTag] at byName
          -- the tag stands beside the place, so it names one case whatever the number is
          obtain rfl : name = name' := by
            have own := (own_or_other tag tagged).resolve_right fun other => other.1 rfl
            simpa [once] using own.2
          obtain ⟨insert, inserts, inserted⟩ := cases.exists_inserts_member takes byName
          refine ⟨insert, inserts, inserted.into id fun _ _ byName => .inr ⟨name, _, rfl, ?_, ?_⟩⟩
          · rw [valuesOf_around_other notTag, once]
          · rw [othersThan_around_other notTag]
            exact byName

theorem Fields.exists_inserts_item : (fields : Fields) → {before : List Json} → {path : Path} →
    {place : Context Json} → {after : List Json} → {values : fields.Value} →
    fields.TakesItem kind before path place →
    fields.DescribesItems (before ++ place.withNumber number :: after) values →
    ∃ insert, fields.Inserts kind path insert ∧ Insertion kind fields.DescribesItems
      (fun number => before ++ place.withNumber number :: after) number values insert
  | .required _ shape rest, [], path, place, after, (value, values), takes, described => by
      obtain ⟨below, rfl, takes⟩ := takes
      obtain ⟨j, left, same, first, others⟩ := described
      cases same
      obtain ⟨own, inserts, inserted⟩ := shape.exists_inserts takes first
      exact ⟨_, .inl ⟨below, own, values, rfl, inserts, rfl⟩,
        inserted.into (fun value => (value, values)) fun _ _ first => ⟨_, _, rfl, first, others⟩⟩
  | .optional _ shape rest, [], path, place, after, (some value, values), takes, described => by
      obtain ⟨below, rfl, takes⟩ := takes
      obtain ⟨j, left, same, first, others⟩ := described
      cases same
      obtain ⟨own, inserts, inserted⟩ := shape.exists_inserts takes first
      exact ⟨_, .inl ⟨below, own, values, rfl, inserts, rfl⟩,
        inserted.into (fun value => (some value, values)) fun _ _ first =>
          ⟨_, _, rfl, first, others⟩⟩
  | .required _ _ rest, j :: before, path, place, after, (value, values), takes, described => by
      obtain ⟨j, left, same, first, others⟩ := described
      cases same
      obtain ⟨behind, inserts, inserted⟩ := rest.exists_inserts_item takes others
      exact ⟨_, .inr ⟨value, behind, inserts, rfl⟩,
        inserted.into (fun values => (value, values)) fun _ _ others => ⟨_, _, rfl, first, others⟩⟩
  | .optional _ _ rest, j :: before, path, place, after, (some value, values), takes,
      described => by
      obtain ⟨j, left, same, first, others⟩ := described
      cases same
      obtain ⟨behind, inserts, inserted⟩ := rest.exists_inserts_item takes others
      exact ⟨_, .inr ⟨some value, behind, inserts, rfl⟩,
        inserted.into (fun values => (some value, values)) fun _ _ others =>
          ⟨_, _, rfl, first, others⟩⟩
  | .optional _ _ _, before, path, place, after, (none, values), _, described => by
      obtain ⟨finished, -⟩ := described
      cases List.append_ne_nil_of_right_ne_nil before (List.cons_ne_nil _ _) finished

theorem Fields.exists_inserts_member : (fields : Fields) → {name : String} → {path : Path} →
    {place : Context Json} → {before after : List (String × Json)} → {values : fields.Value} →
    fields.TakesMember kind name path place →
    fields.DescribesMembers (before ++ (name, place.withNumber number) :: after) values →
    ∃ insert, fields.Inserts kind path insert ∧ Insertion kind fields.DescribesMembers
      (fun number => before ++ (name, place.withNumber number) :: after) number values insert
  | .required known shape rest, name, path, place, before, after, (value, values), .inl takes,
      described => by
      obtain ⟨rfl, below, rfl, takes⟩ := takes
      obtain ⟨⟨j, once, first⟩, others⟩ := described
      obtain rfl := (valuesOf_around_own_iff.1 once).2
      obtain ⟨own, inserts, inserted⟩ := shape.exists_inserts takes first
      exact ⟨_, .inl ⟨below, own, values, rfl, inserts, rfl⟩, inserted.intoMember once others⟩
  | .optional known shape rest, name, path, place, before, after, (some value, values), .inl takes,
      described => by
      obtain ⟨rfl, below, rfl, takes⟩ := takes
      obtain ⟨⟨j, once, first⟩, others⟩ := described
      obtain rfl := (valuesOf_around_own_iff.1 once).2
      obtain ⟨own, inserts, inserted⟩ := shape.exists_inserts takes first
      exact ⟨_, .inl ⟨below, own, values, rfl, inserts, rfl⟩,
        (inserted.intoMember once others).into (fun part => (some part.1, part.2)) fun _ _ => id⟩
  | .optional known shape rest, name, path, place, before, after, (none, values), .inl takes,
      described => by
      obtain ⟨rfl, -⟩ := takes
      obtain ⟨absent, -⟩ := described
      have absent : valuesOf known (before ++ (known, place.withNumber number) :: after) = [] :=
        absent
      rw [valuesOf_append, valuesOf_cons_same] at absent
      cases List.append_ne_nil_of_right_ne_nil _ (List.cons_ne_nil _ _) absent
  | .required _ _ rest, name, path, place, before, after, (value, values), .inr takes, described
  | .optional _ _ rest, name, path, place, before, after, (value, values), .inr takes,
      described => by
      obtain ⟨notOwn, takes⟩ := takes
      obtain ⟨first, others⟩ := described
      rw [othersThan_around_other (Ne.symm notOwn)] at others
      obtain ⟨behind, inserts, inserted⟩ := rest.exists_inserts_member takes others
      refine ⟨_, .inr ⟨value, behind, inserts, rfl⟩,
        inserted.into (fun values => (value, values)) fun _ _ others => ⟨?_, ?_⟩⟩
      · rw [valuesOf_around_other (Ne.symm notOwn)] at first ⊢
        exact first
      · rw [othersThan_around_other (Ne.symm notOwn)]
        exact others

theorem Variants.exists_inserts : (variants : Variants) → {name : String} → {path : Path} →
    {place : Context Json} → {value : variants.Value} → variants.Takes kind name path place →
    variants.Describes name (place.withNumber number) value →
    ∃ insert, variants.Inserts kind path insert ∧
      Insertion kind (variants.Describes name) place.withNumber number value insert
  | .bare _ _, _, _, _, .inl (), ⟨other, _⟩, ⟨same, _⟩ => absurd same other
  | .bare _ rest, name, path, place, .inr value, ⟨other, takes⟩, ⟨_, described⟩ => by
      obtain ⟨insert, inserts, inserted⟩ := rest.exists_inserts takes described
      exact ⟨_, ⟨insert, inserts, rfl⟩, inserted.into Sum.inr fun _ _ described => ⟨other, described⟩⟩
  | .carrying _ _ shape _, name, path, place, .inl value, .inl takes, ⟨_, described⟩ => by
      obtain ⟨same, below, rfl, takes⟩ := takes
      obtain ⟨insert, inserts, inserted⟩ := shape.exists_inserts takes described
      exact ⟨_, .inl ⟨below, insert, rfl, inserts, rfl⟩,
        inserted.into Sum.inl fun _ _ described => ⟨same, described⟩⟩
  | .carrying _ _ _ rest, name, path, place, .inr value, .inr ⟨other, takes⟩, ⟨_, described⟩ => by
      obtain ⟨insert, inserts, inserted⟩ := rest.exists_inserts takes described
      exact ⟨_, .inr ⟨insert, inserts, rfl⟩,
        inserted.into Sum.inr fun _ _ described => ⟨other, described⟩⟩
  | .carrying _ _ _ _, _, _, _, .inl _, .inr ⟨other, _⟩, ⟨same, _⟩ => absurd same other
  | .carrying _ _ _ _, _, _, _, .inr _, .inl ⟨same, _⟩, ⟨other, _⟩ => absurd same other

theorem Cases.exists_inserts_item : (cases : Cases) → {name : String} → {before : List Json} →
    {path : Path} → {place : Context Json} → {after : List Json} → {value : cases.Value} →
    cases.TakesItem kind name before path place →
    cases.Describes name (.items (before ++ place.withNumber number :: after)) value →
    ∃ insert, cases.Inserts kind path insert ∧
      Insertion kind (fun items => cases.Describes name (.items items))
        (fun number => before ++ place.withNumber number :: after) number value insert
  | .cons _ _ fields _, _, _, _, _, _, .inl _, .inl takes, ⟨_, described⟩ => by
      obtain ⟨same, below, rfl, takes⟩ := takes
      obtain ⟨insert, inserts, inserted⟩ := fields.exists_inserts_item takes described
      exact ⟨_, .inl ⟨below, insert, rfl, inserts, rfl⟩,
        inserted.into Sum.inl fun _ _ described => ⟨same, described⟩⟩
  | .cons _ _ _ rest, _, _, _, _, _, .inr _, .inr ⟨other, takes⟩, ⟨_, described⟩ => by
      obtain ⟨insert, inserts, inserted⟩ := rest.exists_inserts_item takes described
      exact ⟨_, .inr ⟨insert, inserts, rfl⟩,
        inserted.into Sum.inr fun _ _ described => ⟨other, described⟩⟩
  | .cons _ _ _ _, _, _, _, _, _, .inl _, .inr ⟨other, _⟩, ⟨same, _⟩ => absurd same other
  | .cons _ _ _ _, _, _, _, _, _, .inr _, .inl ⟨same, _⟩, ⟨other, _⟩ => absurd same other

theorem Cases.exists_inserts_member : (cases : Cases) → {name key : String} → {path : Path} →
    {place : Context Json} → {before after : List (String × Json)} → {value : cases.Value} →
    cases.TakesMember kind name key path place →
    cases.Describes name (.members (before ++ (key, place.withNumber number) :: after)) value →
    ∃ insert, cases.Inserts kind path insert ∧
      Insertion kind (fun members => cases.Describes name (.members members))
        (fun number => before ++ (key, place.withNumber number) :: after) number value insert
  | .cons _ _ fields _, _, _, _, _, _, _, .inl _, .inl takes, ⟨_, described⟩ => by
      obtain ⟨same, below, rfl, takes⟩ := takes
      obtain ⟨insert, inserts, inserted⟩ := fields.exists_inserts_member takes described
      exact ⟨_, .inl ⟨below, insert, rfl, inserts, rfl⟩,
        inserted.into Sum.inl fun _ _ described => ⟨same, described⟩⟩
  | .cons _ _ _ rest, _, _, _, _, _, _, .inr _, .inr ⟨other, takes⟩, ⟨_, described⟩ => by
      obtain ⟨insert, inserts, inserted⟩ := rest.exists_inserts_member takes described
      exact ⟨_, .inr ⟨insert, inserts, rfl⟩,
        inserted.into Sum.inr fun _ _ described => ⟨other, described⟩⟩
  | .cons _ _ _ _, _, _, _, _, _, _, .inl _, .inr ⟨other, _⟩, ⟨same, _⟩ => absurd same other
  | .cons _ _ _ _, _, _, _, _, _, _, .inr _, .inl ⟨same, _⟩, ⟨other, _⟩ => absurd same other

end

end GeoQuery
