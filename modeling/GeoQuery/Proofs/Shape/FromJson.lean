import GeoQuery.Proofs.Shape.Described

namespace GeoQuery

open Json Outcome

theorem Fields.putMember_required {known : List String} {field : String} {shape : Shape}
    {rest : Fields} :
    (fun name j => (Fields.required field shape rest).putMember known name j) =
      putSlot field (fun j => shape.ofJson j) fun name j => rest.putMember known name j := by
  funext name j ⟨slot, slots⟩
  cases slot <;> simp only [putMember] <;> rfl

theorem Fields.putMember_optional {known : List String} {field : String} {shape : Shape}
    {rest : Fields} :
    (fun name j => (Fields.optional field shape rest).putMember known name j) =
      putSlot field (fun j => shape.ofJson j) fun name j => rest.putMember known name j := by
  funext name j ⟨slot, slots⟩
  cases slot <;> simp only [putMember] <;> rfl

theorem Carrying.accept_eq_ok {α : Type} {way : Carrying} {ofJson : Json → Except Mismatch α}
    {j : Json} {value : α} (h : way.accept ofJson j = .ok value) : ofJson j = .ok value := by
  cases j with
  | object members => exact h
  | leaf | array =>
      cases way with
      | value => exact h
      | fields => cases h

mutual

/-- What is read from a JSON value is what that describes. -/
theorem Shape.describes_of_ofJson : (shape : Shape) → shape.plain = true → (j : Json) →
    (value : shape.Value) → shape.ofJson j = .ok value → shape.Describes j value
  | .scalar kind, _, j, value, accepted => accepted
  | .json, _, j, value, accepted => Except.ok.inj accepted
  | .optional inner, plain, j, none, accepted => asOptional_eq_ok_iff.1 accepted
  | .optional inner, plain, j, some value, accepted => by
      obtain ⟨solid, accepted⟩ := asOptional_eq_ok_iff.1 accepted
      exact ⟨solid, inner.describes_of_ofJson plain j value accepted⟩
  | .list item, plain, j, values, accepted => by
      obtain ⟨items, rfl, all⟩ := asList_eq_ok_iff.1 accepted
      exact ⟨items, rfl, all.imp fun j value => item.describes_of_ofJson plain j value⟩
  | .record label extra fields, plain, j, values, accepted => by
      rw [Shape.plain, Bool.and_eq_true, beq_iff_eq] at plain
      obtain ⟨rfl, plain⟩ := plain
      rcases asRecord_eq_ok_iff.1 accepted with ⟨items, rfl, inOrder⟩ | ⟨members, rfl, byName⟩
      · exact .inl ⟨items, rfl, fields.describesItems_of_ofItems _ plain 0 items values inOrder⟩
      · exact .inr ⟨members, rfl, fields.describesMembers_of_putMember _ plain members values
          (Fields.ofMembers_eq_ok_iff.1 byName)⟩
  | .choice variants, plain, j, value, accepted => by
      rcases asChoice_eq_ok_iff.1 accepted with ⟨name, rfl, -, named⟩ | ⟨name, inner, rfl, -, carried⟩
      · exact .inl ⟨name, rfl, (variants.ofName_eq_ok_iff name value).1 named⟩
      · exact .inr ⟨name, inner, rfl,
          variants.describes_of_ofCarried plain name inner value carried⟩
  | .tagged label tag cases, flat, j, value, accepted => by
      -- The two readers of tagged records are one.
      exact (Shape.ofWritten_eq_ok_iff (.tagged label tag cases) flat j value).1 accepted

theorem Fields.describesItems_of_ofItems (expected : String) : (fields : Fields) →
    fields.plain = true → (index : Nat) → (items : List Json) →
    (values : fields.Value) → fields.ofItems expected index items = .ok (values, []) →
    fields.DescribesItems items values
  | .nil, _, index, items, (), accepted => by
      cases accepted
      exact rfl
  | .required name shape rest, plain, index, [], (value, values), accepted => by
      cases accepted
  | .required name shape rest, plain, index, j :: items, (value, values), accepted => by
      obtain ⟨plainShape, plainRest⟩ := Bool.and_eq_true_iff.1 plain
      obtain ⟨⟨_, first, rfl⟩, others⟩ := (item_then_eq_ok_iff (f := id)).1 accepted
      exact ⟨j, items, rfl, shape.describes_of_ofJson plainShape j _ first,
        rest.describesItems_of_ofItems expected plainRest (index + 1) items values others⟩
  | .optional name shape rest, plain, index, [], (value, values), accepted => by
      obtain ⟨-, plainRest⟩ := Bool.and_eq_true_iff.1 plain
      obtain ⟨rfl, others⟩ := missing_then_eq_ok_iff.1 accepted
      exact ⟨rfl, rest.describesItems_of_ofItems expected plainRest (index + 1) [] values others⟩
  | .optional name shape rest, plain, index, j :: items, (value, values), accepted => by
      obtain ⟨plainShape, plainRest⟩ := Bool.and_eq_true_iff.1 plain
      obtain ⟨⟨_, first, rfl⟩, others⟩ := (item_then_eq_ok_iff (f := some)).1 accepted
      exact ⟨j, items, rfl, shape.describes_of_ofJson plainShape j _ first,
        rest.describesItems_of_ofItems expected plainRest (index + 1) items values others⟩

theorem Fields.describesMembers_of_putMember (known : List String) : (fields : Fields) →
    fields.plain = true → (members : List (String × Json)) →
    (values : fields.Value) →
    fields.FilledBy (fun name j => fields.putMember known name j) members values →
    fields.DescribesMembers members values
  | .nil, _, [], (), _ => rfl
  | .nil, _, m :: members, (), ⟨_, refused, _⟩ => nomatch refused
  | .required name shape rest, plain, members, (value, values), filled => by
      obtain ⟨plainShape, plainRest⟩ := Bool.and_eq_true_iff.1 plain
      rw [Fields.putMember_required] at filled
      obtain ⟨⟨j, once, accepted⟩, others⟩ := Fields.filledBy_required_iff.1 filled
      exact ⟨⟨j, once, shape.describes_of_ofJson plainShape j _ accepted⟩,
        rest.describesMembers_of_putMember known plainRest _ values others⟩
  | .optional name shape rest, plain, members, (value, values), filled => by
      obtain ⟨plainShape, plainRest⟩ := Bool.and_eq_true_iff.1 plain
      rw [Fields.putMember_optional] at filled
      obtain ⟨own, others⟩ := Fields.filledBy_optional_iff.1 filled
      have described := rest.describesMembers_of_putMember known plainRest _ values others
      cases value with
      | none => exact ⟨own, described⟩
      | some value =>
          obtain ⟨j, once, accepted⟩ := own
          exact ⟨⟨j, once, shape.describes_of_ofJson plainShape j value accepted⟩, described⟩

theorem Variants.describes_of_ofCarried : (variants : Variants) → variants.plain = true →
    (name : String) → (j : Json) → (value : variants.Value) →
    variants.ofCarried name j = .ok value → variants.Describes name j value
  | .bare known rest, plain, name, j, .inl (), accepted => by
      obtain ⟨same, null⟩ := first_alternative_iff.1 accepted
      exact ⟨same, Scalar.accept_nothing_iff.1 null⟩
  | .bare known rest, plain, name, j, .inr value, accepted => by
      obtain ⟨other, accepted⟩ := other_alternative_iff.1 accepted
      exact ⟨other, rest.describes_of_ofCarried plain name j value accepted⟩
  | .carrying known way shape rest, plain, name, j, .inl value, accepted => by
      obtain ⟨both, -⟩ := Bool.and_eq_true_iff.1 plain
      obtain ⟨plainShape, -⟩ := Bool.and_eq_true_iff.1 both
      obtain ⟨same, accepted⟩ := first_alternative_iff.1 accepted
      exact ⟨same, shape.describes_of_ofJson plainShape j value
        (Carrying.accept_eq_ok accepted)⟩
  | .carrying known way shape rest, plain, name, j, .inr value, accepted => by
      obtain ⟨both, -⟩ := Bool.and_eq_true_iff.1 plain
      obtain ⟨-, plainRest⟩ := Bool.and_eq_true_iff.1 both
      obtain ⟨other, accepted⟩ := other_alternative_iff.1 accepted
      exact ⟨other, rest.describes_of_ofCarried plainRest name j value accepted⟩

end

end GeoQuery
