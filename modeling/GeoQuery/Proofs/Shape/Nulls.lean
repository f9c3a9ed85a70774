import GeoQuery.Proofs.Shape.Finite

/-!
Numbers without a JSON form. A number that is not finite is written as null, and null is read only
where a value may be left out. So the JSON of a value tells the value with such numbers left out, as
far as they may be; if any other number is not finite, the JSON describes no value.
-/

namespace GeoQuery

open Json

def Json.isNull : Json → Bool
  | .leaf .null => true
  | _ => false

mutual

/-- The value with each value left out that may be and that is written as null. -/
def Shape.dropNulls : (shape : Shape) → shape.Value → shape.Value
  | .scalar _, value => value
  | .json, json => json
  | .optional inner, value =>
    match value with
    | none => none
    | some value => if (inner.toJson value).isNull then none else some (inner.dropNulls value)
  | .list item, values => List.map (fun value => item.dropNulls value) values
  | .record _ _ fields, values => fields.dropNulls values
  | .choice variants, value => variants.dropNulls value
  | .tagged _ _ cases, value => cases.dropNulls value

def Fields.dropNulls : (fields : Fields) → fields.Value → fields.Value
  | .nil, () => ()
  | .required _ shape rest, (value, values) => (shape.dropNulls value, rest.dropNulls values)
  | .optional _ shape rest, (value, values) =>
    (Option.map (fun value => shape.dropNulls value) value, rest.dropNulls values)

def Variants.dropNulls : (variants : Variants) → variants.Value → variants.Value
  | .bare _ _, .inl () => .inl ()
  | .bare _ rest, .inr value => .inr (rest.dropNulls value)
  | .carrying _ _ shape _, .inl value => .inl (shape.dropNulls value)
  | .carrying _ _ _ rest, .inr value => .inr (rest.dropNulls value)

def Cases.dropNulls : (cases : Cases) → cases.Value → cases.Value
  | .cons _ _ fields _, .inl values => .inl (fields.dropNulls values)
  | .cons _ _ _ rest, .inr value => .inr (rest.dropNulls value)

end

theorem Json.eq_null_of_isNull {j : Json} (h : j.isNull = true) : j = .null := by
  cases j with
  | leaf l =>
      cases l with
      | null => rfl
      | boolean | number | text => cases h
  | array | object => cases h

theorem Shape.dropNulls_of_null {inner : Shape} {value : inner.Value}
    (null : (inner.toJson value).isNull = true) :
    (Shape.optional inner).dropNulls (some value) = (none : Option inner.Value) :=
  if_pos null

theorem Shape.dropNulls_of_solid {inner : Shape} {value : inner.Value}
    (solid : (inner.toJson value).isNull = false) :
    (Shape.optional inner).dropNulls (some value) = some (inner.dropNulls value) :=
  if_neg (by simp [solid])

theorem map_map_of_fixed {α β : Type} {f : α → α} {g : α → β} (fixed : ∀ a, g (f a) = g a)
    (l : List α) : (l.map f).map g = l.map g := by
  rw [List.map_map]
  exact List.map_congr_left fun a _ => fixed a

mutual

theorem Shape.toJson_dropNulls : (shape : Shape) → (value : shape.Value) →
    shape.toJson (shape.dropNulls value) = shape.toJson value
  | .scalar _, _ => rfl
  | .json, _ => rfl
  | .optional _, none => rfl
  | .optional inner, some value => by
      cases null : (inner.toJson value).isNull with
      | true =>
          rw [Shape.dropNulls_of_null null]
          exact (eq_null_of_isNull null).symm
      | false =>
          rw [Shape.dropNulls_of_solid null]
          exact inner.toJson_dropNulls value
  | .list item, values =>
      congrArg Json.array (map_map_of_fixed (fun value => item.toJson_dropNulls value) values)
  | .record _ _ fields, values => congrArg Json.object (fields.toMembers_dropNulls values)
  | .choice variants, value => variants.toJson_dropNulls value
  | .tagged _ tag cases, value => congrArg Json.object (cases.toMembers_dropNulls tag value)

theorem Fields.toMembers_dropNulls : (fields : Fields) → (values : fields.Value) →
    fields.toMembers (fields.dropNulls values) = fields.toMembers values
  | .nil, () => rfl
  | .required name shape rest, (value, values)
  | .optional name shape rest, (some value, values) => by
      have own := shape.toJson_dropNulls value
      have others := rest.toMembers_dropNulls values
      exact congrArg₂ (fun j members => (name, j) :: members) own others
  | .optional name shape rest, (none, values) => rest.toMembers_dropNulls values

theorem Variants.toJson_dropNulls : (variants : Variants) → (value : variants.Value) →
    variants.toJson (variants.dropNulls value) = variants.toJson value
  | .bare _ _, .inl () => rfl
  | .bare _ rest, .inr value => rest.toJson_dropNulls value
  | .carrying name _ shape _, .inl value =>
      congrArg (fun j => Json.object [(name, j)]) (shape.toJson_dropNulls value)
  | .carrying _ _ _ rest, .inr value => rest.toJson_dropNulls value

theorem Cases.toMembers_dropNulls (tag : String) : (cases : Cases) → (value : cases.Value) →
    cases.toMembers tag (cases.dropNulls value) = cases.toMembers tag value
  | .cons name _ fields _, .inl values =>
      congrArg ((tag, Json.text name) :: ·) (fields.toMembers_dropNulls values)
  | .cons _ _ _ rest, .inr value => rest.toMembers_dropNulls tag value

end

/-- No value of the shape is written as null, whatever its numbers are. -/
def Shape.present : Shape → Bool
  | .scalar .number => false
  | shape => shape.solid

mutual

/-- No number by itself may be left out. -/
def Shape.exact : Shape → Bool
  | .scalar _ | .json => true
  | .optional inner => inner.present && inner.exact
  | .list item => item.exact
  | .record _ _ fields => fields.exact
  | .choice variants => variants.exact
  | .tagged _ _ cases => cases.exact

def Fields.exact : Fields → Bool
  | .nil => true
  | .required _ shape rest | .optional _ shape rest => shape.exact && rest.exact

def Variants.exact : Variants → Bool
  | .nil => true
  | .bare _ rest => rest.exact
  | .carrying _ _ shape rest => shape.exact && rest.exact

def Cases.exact : Cases → Bool
  | .nil => true
  | .cons _ _ fields rest => fields.exact && rest.exact

end

theorem Variants.isNull_toJson : (variants : Variants) → (value : variants.Value) →
    (variants.toJson value).isNull = false
  | .bare _ _, .inl () => rfl
  | .carrying _ _ _ _, .inl _ => rfl
  | .bare _ rest, .inr value | .carrying _ _ _ rest, .inr value => rest.isNull_toJson value

theorem Shape.isNull_toJson : {shape : Shape} → shape.present = true → (value : shape.Value) →
    (shape.toJson value).isNull = false
  | .scalar .text, _, _ | .scalar .word64, _, _ | .scalar .word32, _, _ | .scalar .flag, _, _ => rfl
  | .list _, _, _ | .record _ _ _, _, _ | .tagged _ _ _, _, _ => rfl
  | .choice variants, _, value => variants.isNull_toJson value

mutual

theorem Shape.dropNulls_of_exact : (shape : Shape) → shape.exact = true → (value : shape.Value) →
    shape.dropNulls value = value
  | .scalar _, _, _ => rfl
  | .json, _, _ => rfl
  | .optional _, _, none => rfl
  | .optional inner, exact, some value => by
      rw [Shape.exact, Bool.and_eq_true] at exact
      rw [Shape.dropNulls_of_solid (Shape.isNull_toJson exact.1 value)]
      exact congrArg some (inner.dropNulls_of_exact exact.2 value)
  | .list item, exact, values =>
      (List.map_congr_left fun value _ => item.dropNulls_of_exact exact value).trans
        (List.map_id values)
  | .record _ _ fields, exact, values => fields.dropNulls_of_exact exact values
  | .choice variants, exact, value => variants.dropNulls_of_exact exact value
  | .tagged _ _ cases, exact, value => cases.dropNulls_of_exact exact value

theorem Fields.dropNulls_of_exact : (fields : Fields) → fields.exact = true →
    (values : fields.Value) → fields.dropNulls values = values
  | .nil, _, () => rfl
  | .required _ shape rest, exact, (value, values) => by
      rw [Fields.exact, Bool.and_eq_true] at exact
      exact Prod.ext (shape.dropNulls_of_exact exact.1 value) (rest.dropNulls_of_exact exact.2 values)
  | .optional _ _ rest, exact, (none, values) => by
      rw [Fields.exact, Bool.and_eq_true] at exact
      exact Prod.ext rfl (rest.dropNulls_of_exact exact.2 values)
  | .optional _ shape rest, exact, (some value, values) => by
      rw [Fields.exact, Bool.and_eq_true] at exact
      exact Prod.ext (congrArg some (shape.dropNulls_of_exact exact.1 value))
        (rest.dropNulls_of_exact exact.2 values)

theorem Variants.dropNulls_of_exact : (variants : Variants) → variants.exact = true →
    (value : variants.Value) → variants.dropNulls value = value
  | .bare _ _, _, .inl () => rfl
  | .bare _ rest, exact, .inr value => congrArg Sum.inr (rest.dropNulls_of_exact exact value)
  | .carrying _ _ shape _, exact, .inl value => by
      rw [Variants.exact, Bool.and_eq_true] at exact
      exact congrArg Sum.inl (shape.dropNulls_of_exact exact.1 value)
  | .carrying _ _ _ rest, exact, .inr value => by
      rw [Variants.exact, Bool.and_eq_true] at exact
      exact congrArg Sum.inr (rest.dropNulls_of_exact exact.2 value)

theorem Cases.dropNulls_of_exact : (cases : Cases) → cases.exact = true →
    (value : cases.Value) → cases.dropNulls value = value
  | .cons _ _ fields _, exact, .inl values => by
      rw [Cases.exact, Bool.and_eq_true] at exact
      exact congrArg Sum.inl (fields.dropNulls_of_exact exact.1 values)
  | .cons _ _ _ rest, exact, .inr value => by
      rw [Cases.exact, Bool.and_eq_true] at exact
      exact congrArg Sum.inr (rest.dropNulls_of_exact exact.2 value)

end

theorem Shape.dropNulls_slot {shape : Shape} (exact : shape.exact = true)
    (slot : Option shape.Value) : slot.map (fun value => shape.dropNulls value) = slot := by
  cases slot with
  | none => rfl
  | some value => exact congrArg some (shape.dropNulls_of_exact exact value)

theorem Json.reread_isNull (j : Json) : j.reread.isNull = j.isNull := by
  cases j with
  | leaf l => cases l <;> rfl
  | array | object => rfl

theorem Variants.reread_toJson : (variants : Variants) → (value : variants.Value) →
    (∃ name, (variants.toJson value).reread = .leaf (.text name) ∧ name ∈ variants.names) ∨
      ∃ name j, (variants.toJson value).reread = .object [(name, j)] ∧ name ∈ variants.names
  | .bare name rest, .inl () => .inl ⟨name, rfl, List.mem_cons_self ..⟩
  | .carrying name _ _ rest, .inl _ => .inr ⟨name, _, rfl, List.mem_cons_self ..⟩
  | .bare known rest, .inr value | .carrying known _ _ rest, .inr value => by
      rcases rest.reread_toJson value with ⟨name, same, member⟩ | ⟨name, j, same, member⟩
      · exact .inl ⟨name, same, List.mem_cons_of_mem known member⟩
      · exact .inr ⟨name, j, same, List.mem_cons_of_mem known member⟩

theorem Cases.reread_toMembers {tag : String} : (cases : Cases) → cases.faithful tag = true →
    (value : cases.Value) → ∃ name others, name ∈ cases.names ∧
      rereadMembers (cases.toMembers tag value) = (tag, .leaf (.text name)) :: others ∧
        ∀ m ∈ others, m.1 ≠ tag
  | .cons name label fields rest, faithful, .inl values => by
      simp only [Cases.faithful, Bool.and_eq_true, Bool.not_eq_true'] at faithful
      obtain ⟨⟨⟨⟨-, absent⟩, -⟩, -⟩, -⟩ := faithful
      exact ⟨name, _, List.mem_cons_self .., rfl,
        fun m member => (Fields.other_of_toMembers absent values m member).symm⟩
  | .cons known label fields rest, faithful, .inr value => by
      simp only [Cases.faithful, Bool.and_eq_true] at faithful
      obtain ⟨name, others, member, same, absent⟩ := rest.reread_toMembers faithful.2 value
      exact ⟨name, others, List.mem_cons_of_mem known member, same, absent⟩

theorem othersThan_of_absent {name : String} {members : List (String × Json)}
    (absent : ∀ m ∈ members, m.1 ≠ name) : othersThan name members = members :=
  List.filter_eq_self.2 fun m member => by simp [absent m member]

theorem valuesOf_of_absent {name : String} {members : List (String × Json)}
    (absent : ∀ m ∈ members, m.1 ≠ name) : valuesOf name members = [] := by
  have none : members.filter (·.1 = name) = [] :=
    List.filter_eq_nil_iff.2 fun m member => by simp [absent m member]
  rw [valuesOf, none, List.map_nil]

theorem apart_of_absent {name : String} {members : List (String × Json)}
    (absent : ∀ m ∈ members, m.1 ≠ name) (j : Json) :
    valuesOf name ((name, j) :: members) = [j] ∧ othersThan name ((name, j) :: members) = members :=
  ⟨by rw [valuesOf_cons_same, valuesOf_of_absent absent],
    by rw [othersThan_cons_same, othersThan_of_absent absent]⟩

theorem Fields.absent_of_toMembers {name : String} {rest : Fields}
    (absent : rest.names.contains name = false) (values : rest.Value) :
    ∀ m ∈ rereadMembers (rest.toMembers values), m.1 ≠ name :=
  fun m member => (Fields.other_of_toMembers absent values m member).symm

theorem forall_mem_of_rereadItems {α β : Type} {write : α → Json} {r : Json → β → Prop}
    {p : α → Prop} {values : List α} {found : List β}
    (described : List.Forall₂ r (rereadItems (values.map write)) found)
    (each : ∀ value b, r (write value).reread b → p value) : ∀ value ∈ values, p value := by
  induction values generalizing found with
  | nil => exact nofun
  | cons value values ih =>
      cases described with
      | cons first others => exact List.forall_mem_cons.2 ⟨each value _ first, ih others⟩

theorem Scalar.writable_of_accept_toJson {kind : Scalar} {value found : kind.Value}
    (accepted : kind.accept (kind.toJson value).reread.found = .ok found) :
    kind.Writable value := by
  cases kind with
  | number =>
      cases value with
      | finite x => rfl
      | infinite | nan => cases accepted
  | text | word64 | word32 | flag | nothing => trivial

section Behind

variable {rest : Variants} (known : String) (way : Carrying) {shape : Shape} {name : String}

theorem Variants.named_bare {found : (bare known rest).Value}
    (named : (bare known rest).Named name found) : known = name ∨ ∃ v, rest.Named name v := by
  cases found with
  | inl => exact .inl named
  | inr v => exact .inr ⟨v, named.2⟩

theorem Variants.describes_bare {j : Json} {found : (bare known rest).Value}
    (carried : (bare known rest).Describes name j found) :
    known = name ∨ ∃ v, rest.Describes name j v := by
  cases found with
  | inl => exact .inl carried.1
  | inr v => exact .inr ⟨v, carried.2⟩

theorem Variants.named_carrying {found : (carrying known way shape rest).Value}
    (named : (carrying known way shape rest).Named name found) :
    known = name ∨ ∃ v, rest.Named name v := by
  cases found with
  | inl => exact named.elim
  | inr v => exact .inr ⟨v, named.2⟩

theorem Variants.describes_carrying {j : Json} {found : (carrying known way shape rest).Value}
    (carried : (carrying known way shape rest).Describes name j found) :
    known = name ∨ ∃ v, rest.Describes name j v := by
  cases found with
  | inl => exact .inl carried.1
  | inr v => exact .inr ⟨v, carried.2⟩

theorem Variants.describes_behind {known : String} {variants rest : Variants} {value : rest.Value}
    {found : variants.Value} (absent : (!rest.names.contains known) = true)
    (named : ∀ {name}, variants.Named name found → known = name ∨ ∃ v, rest.Named name v)
    (carried : ∀ {name j}, variants.Describes name j found →
      known = name ∨ ∃ v, rest.Describes name j v)
    (described : (Shape.choice variants).Describes (rest.toJson value).reread found) :
    ∃ v, (Shape.choice rest).Describes (rest.toJson value).reread v := by
  have unknown (name : String) (member : name ∈ rest.names) : known ≠ name :=
    not_contains_mem absent (List.contains_iff_mem.2 member)
  rcases described with ⟨name, same, isNamed⟩ | ⟨name, j, same, isCarried⟩
  · rcases rest.reread_toJson value with ⟨_, written, member⟩ | ⟨_, _, written, -⟩
    · cases written.symm.trans same
      obtain ⟨v, behind⟩ := (named isNamed).resolve_left (unknown name member)
      exact ⟨v, .inl ⟨name, same, behind⟩⟩
    · cases written.symm.trans same
  · rcases rest.reread_toJson value with ⟨_, written, -⟩ | ⟨_, _, written, member⟩
    · cases written.symm.trans same
    · cases written.symm.trans same
      obtain ⟨v, behind⟩ := (carried isCarried).resolve_left (unknown name member)
      exact ⟨v, .inr ⟨name, j, same, behind⟩⟩

end Behind

mutual

/-- If the JSON of a value describes any value, all numbers that could not be left out are finite. -/
theorem Shape.finite_of_describes_toJson : (shape : Shape) → shape.faithful = true →
    (value : shape.Value) → {found : shape.Value} → shape.Describes (shape.toJson value).reread found →
    shape.Finite (shape.dropNulls value)
  | .scalar kind, _, value, found, accepted => Scalar.writable_of_accept_toJson accepted
  | .json, _, _, _, _ => trivial
  | .optional _, _, none, _, _ => trivial
  | .optional inner, faithful, some value, found, described => by
      rw [Shape.faithful, Bool.and_eq_true] at faithful
      cases null : (inner.toJson value).isNull with
      | true =>
          rw [Shape.dropNulls_of_null null]
          trivial
      | false =>
          rw [Shape.dropNulls_of_solid null]
          cases found with
          | none =>
              -- what is not null is not read as null either
              have written : (inner.toJson value).reread = .leaf .null := described
              rw [← Json.reread_isNull, written] at null
              cases null
          | some found => exact inner.finite_of_describes_toJson faithful.2 value described.2
  | .list item, faithful, values, found, described => by
      obtain ⟨items, same, each⟩ := described
      cases same
      have finite := forall_mem_of_rereadItems each fun value _ described =>
        item.finite_of_describes_toJson faithful value described
      exact List.forall_iff_forall_mem.2 (List.forall_mem_map.2 finite)
  | .record label extra fields, faithful, values, found, described => by
      rw [Shape.faithful, Bool.and_eq_true] at faithful
      rcases described with ⟨items, same, -⟩ | ⟨members, same, byName⟩
      · cases same
      · cases same
        exact fields.finite_of_describes_toMembers faithful.2 values byName
  | .choice variants, faithful, value, found, described =>
      variants.finite_of_describes_toJson faithful value described
  | .tagged label tag cases, faithful, value, found, described => by
      obtain ⟨name, others, member, written, absent⟩ := cases.reread_toMembers faithful value
      rcases described with ⟨name', items, same, -⟩ | ⟨name', members, same, once, byName⟩
      · cases same
      · cases same
        rw [written, (apart_of_absent absent _).1] at once
        rw [written, (apart_of_absent absent _).2] at byName
        cases once
        exact cases.finite_of_describes_toMembers faithful value written byName

theorem Fields.finite_of_describes_toMembers : (fields : Fields) → fields.faithful = true →
    (values : fields.Value) → {found : fields.Value} →
    fields.DescribesMembers (rereadMembers (fields.toMembers values)) found →
    fields.Finite (fields.dropNulls values)
  | .nil, _, (), _, _ => trivial
  | .required name shape rest, faithful, (value, values), (_, _), described => by
      simp only [Fields.faithful, Bool.and_eq_true, Bool.not_eq_true'] at faithful
      obtain ⟨⟨absent, faithfulShape⟩, faithfulRest⟩ := faithful
      obtain ⟨own, others⟩ := apart_of_absent (Fields.absent_of_toMembers absent values)
        (shape.toJson value).reread
      obtain ⟨⟨j, same, first⟩, behind⟩ := described
      obtain rfl := List.singleton_injective (own.symm.trans same)
      exact ⟨shape.finite_of_describes_toJson faithfulShape value first,
        rest.finite_of_describes_toMembers faithfulRest values (others ▸ behind)⟩
  | .optional name shape rest, faithful, (none, values), (_, _), described => by
      simp only [Fields.faithful, Bool.and_eq_true, Bool.not_eq_true'] at faithful
      obtain ⟨⟨absent, -⟩, faithfulRest⟩ := faithful
      have others := othersThan_of_absent (Fields.absent_of_toMembers absent values)
      have behind := described.2
      exact ⟨nofun, rest.finite_of_describes_toMembers faithfulRest values (others ▸ behind)⟩
  | .optional name shape rest, faithful, (some value, values), (slot, _), described => by
      simp only [Fields.faithful, Bool.and_eq_true, Bool.not_eq_true'] at faithful
      obtain ⟨⟨absent, faithfulShape⟩, faithfulRest⟩ := faithful
      obtain ⟨own, others⟩ := apart_of_absent (Fields.absent_of_toMembers absent values)
        (shape.toJson value).reread
      obtain ⟨first, behind⟩ := described
      refine ⟨?_, rest.finite_of_describes_toMembers faithfulRest values (others ▸ behind)⟩
      rintro _ ⟨⟩
      cases slot with
      | none => cases own.symm.trans first
      | some v =>
          obtain ⟨j, same, first⟩ := first
          obtain rfl := List.singleton_injective (own.symm.trans same)
          exact shape.finite_of_describes_toJson faithfulShape value first

theorem Variants.finite_of_describes_toJson : (variants : Variants) → variants.faithful = true →
    (value : variants.Value) → {found : variants.Value} →
    (Shape.choice variants).Describes (variants.toJson value).reread found →
    variants.Finite (variants.dropNulls value)
  | .bare _ _, _, .inl (), _, _ => trivial
  | .carrying name way shape rest, faithful, .inl value, found, described => by
      simp only [Variants.faithful, Bool.and_eq_true] at faithful
      rcases described with ⟨name', same, -⟩ | ⟨name', j, same, carried⟩
      · cases same
      · cases same
        cases found with
        | inl v => exact shape.finite_of_describes_toJson faithful.1.2 value carried.2
        | inr v => exact absurd rfl carried.1
  | .bare known rest, faithful, .inr value, found, described => by
      simp only [Variants.faithful, Bool.and_eq_true] at faithful
      obtain ⟨v, described⟩ := Variants.describes_behind faithful.1 (Variants.named_bare known)
        (Variants.describes_bare known) described
      exact rest.finite_of_describes_toJson faithful.2 value described
  | .carrying known way shape rest, faithful, .inr value, found, described => by
      simp only [Variants.faithful, Bool.and_eq_true] at faithful
      obtain ⟨v, described⟩ := Variants.describes_behind faithful.1.1
        (Variants.named_carrying known way) (Variants.describes_carrying known way) described
      exact rest.finite_of_describes_toJson faithful.2 value described

theorem Cases.finite_of_describes_toMembers {tag : String} : (cases : Cases) →
    cases.faithful tag = true → (value : cases.Value) → {name : String} →
    {others : List (String × Json)} → {found : cases.Value} →
    rereadMembers (cases.toMembers tag value) = (tag, .leaf (.text name)) :: others →
    cases.Describes name (.members others) found → cases.Finite (cases.dropNulls value)
  | .cons name label fields rest, faithful, .inl values, _, _, found, written, described => by
      simp only [Cases.faithful, Bool.and_eq_true] at faithful
      cases written
      cases found with
      | inl found => exact fields.finite_of_describes_toMembers faithful.1.2 values described.2
      | inr found => exact absurd rfl described.1
  | .cons known label fields rest, faithful, .inr value, name, _, found, written, described => by
      simp only [Cases.faithful, Bool.and_eq_true] at faithful
      obtain ⟨own, others, member, same, -⟩ := rest.reread_toMembers faithful.2 value
      cases same.symm.trans written
      cases found with
      | inl found =>
          obtain rfl : known = name := described.1
          exact absurd rfl (not_contains_mem faithful.1.1.1.1 (List.contains_iff_mem.2 member))
      | inr found =>
          exact rest.finite_of_describes_toMembers faithful.2 value written described.2

end

section Text

variable {shape : Shape} {value : shape.Value}

/-- The text of a value is read as the value with such numbers left out, if all others are finite. -/
theorem Shape.ofText_compact_dropNulls {inside : Nat} (plain : shape.plain = true)
    (faithful : shape.faithful = true) (low : shape.height inside ≤ maxDepth)
    (writable : shape.Writable inside (shape.dropNulls value)) :
    shape.ofText (shape.toJson value).compact = .ok (shape.reread (shape.dropNulls value)) := by
  rw [← shape.toJson_dropNulls value]
  exact ofText_compact plain faithful low writable

theorem Shape.finite_of_ofText_compact (plain : shape.plain = true)
    (faithful : shape.faithful = true) {found : shape.Value}
    (read : shape.ofText (shape.toJson value).compact = .ok found) :
    shape.Finite (shape.dropNulls value) := by
  obtain ⟨j, whole, described⟩ := (ofText_eq_ok_iff_describes plain).1 read
  obtain rfl := eq_reread_of_readWhole whole
  exact shape.finite_of_describes_toJson faithful value described

end Text

end GeoQuery
