import GeoQuery.Proofs.Shape.Described

namespace GeoQuery

open Json

theorem Json.Number.isFinite_toBinary64 (n : Json.Number) : n.toBinary64.isFinite = true := by
  cases n with
  | fraction x => rfl
  | integer i =>
      have fits : i.val.natAbs < 0x10000000000000000 := by
        have := i.ge_min
        have := i.lt_max
        omega
      obtain ⟨x, inRange⟩ := Json.Numeral.ofNat?_of_fits fits
      rw [Json.Number.toBinary64, Binary64.ofInt, inRange]
      rfl

theorem Scalar.writable_of_accept {kind : Scalar} {found : Found} {value : kind.Value}
    (accepted : kind.accept found = .ok value) : kind.Writable value := by
  cases kind with
  | number =>
      obtain ⟨l, rfl⟩ := Scalar.leaf_of_accept accepted
      cases l with
      | number n =>
          cases accepted
          exact n.isFinite_toBinary64
      | null | boolean | text => cases accepted
  | text | word64 | word32 | flag | nothing => trivial

mutual

/-- All numbers outside of what is kept as JSON are finite. -/
def Shape.Finite : (shape : Shape) → shape.Value → Prop
  | .scalar kind, value => kind.Writable value
  | .json, _ => True
  | .optional inner, value =>
    match value with
    | none => True
    | some value => inner.Finite value
  | .list item, values => values.Forall fun value => item.Finite value
  | .record _ _ fields, values => fields.Finite values
  | .choice variants, value => variants.Finite value
  | .tagged _ _ cases, value => cases.Finite value

def Fields.Finite : (fields : Fields) → fields.Value → Prop
  | .nil, () => True
  | .required _ shape rest, (value, values) => shape.Finite value ∧ rest.Finite values
  | .optional _ shape rest, (value, values) =>
    (∀ v, value = some v → shape.Finite v) ∧ rest.Finite values

def Variants.Finite : (variants : Variants) → variants.Value → Prop
  | .bare _ _, .inl () => True
  | .bare _ rest, .inr value => rest.Finite value
  | .carrying _ _ shape _, .inl value => shape.Finite value
  | .carrying _ _ _ rest, .inr value => rest.Finite value

def Cases.Finite : (cases : Cases) → cases.Value → Prop
  | .cons _ _ fields _, .inl values => fields.Finite values
  | .cons _ _ _ rest, .inr value => rest.Finite value

end

mutual

theorem Shape.finite_of_describes : (shape : Shape) → {j : Json} → {value : shape.Value} →
    shape.Describes j value → shape.Finite value
  | .scalar _, _, _, accepted => Scalar.writable_of_accept accepted
  | .json, _, _, _ => trivial
  | .optional _, _, none, _ => trivial
  | .optional inner, _, some _, described => inner.finite_of_describes described.2
  | .list item, j, values, described => by
      obtain ⟨items, -, each⟩ := described
      exact List.forall_iff_forall_mem.2 <|
        forall_mem_of_forall₂ each.flip fun _ _ described => item.finite_of_describes described
  | .record _ _ fields, j, values, described => by
      rcases described with ⟨items, -, inOrder⟩ | ⟨members, -, byName⟩
      · exact fields.finite_of_describesItems inOrder
      · exact fields.finite_of_describesMembers byName
  | .choice variants, j, value, described => by
      rcases described with ⟨name, -, named⟩ | ⟨name, inner, -, carried⟩
      · exact variants.finite_of_named named
      · exact variants.finite_of_describes carried
  | .tagged _ _ cases, j, value, described => by
      rcases described with ⟨name, items, -, inOrder⟩ | ⟨name, members, -, -, byName⟩
      · exact cases.finite_of_describes inOrder
      · exact cases.finite_of_describes byName

theorem Fields.finite_of_describesItems : (fields : Fields) → {items : List Json} →
    {values : fields.Value} → fields.DescribesItems items values → fields.Finite values
  | .nil, _, (), _ => trivial
  | .required _ shape rest, items, (value, values), described => by
      obtain ⟨j, left, -, first, others⟩ := described
      exact ⟨shape.finite_of_describes first, rest.finite_of_describesItems others⟩
  | .optional _ _ rest, _, (none, _), described =>
      ⟨nofun, rest.finite_of_describesItems described.2⟩
  | .optional _ shape rest, items, (some value, values), described => by
      obtain ⟨j, left, -, first, others⟩ := described
      refine ⟨?_, rest.finite_of_describesItems others⟩
      rintro _ ⟨⟩
      exact shape.finite_of_describes first

theorem Fields.finite_of_describesMembers : (fields : Fields) → {members : List (String × Json)} →
    {values : fields.Value} → fields.DescribesMembers members values → fields.Finite values
  | .nil, _, (), _ => trivial
  | .required _ shape rest, members, (value, values), described => by
      obtain ⟨⟨j, -, own⟩, others⟩ := described
      exact ⟨shape.finite_of_describes own, rest.finite_of_describesMembers others⟩
  | .optional _ _ rest, _, (none, _), described =>
      ⟨nofun, rest.finite_of_describesMembers described.2⟩
  | .optional _ shape rest, members, (some value, values), described => by
      obtain ⟨⟨j, -, own⟩, others⟩ := described
      refine ⟨?_, rest.finite_of_describesMembers others⟩
      rintro _ ⟨⟩
      exact shape.finite_of_describes own

theorem Variants.finite_of_named : (variants : Variants) → {name : String} →
    {value : variants.Value} → variants.Named name value → variants.Finite value
  | .bare _ _, _, .inl (), _ => trivial
  | .bare _ rest, _, .inr _, named | .carrying _ _ _ rest, _, .inr _, named =>
      rest.finite_of_named named.2

theorem Variants.finite_of_describes : (variants : Variants) → {name : String} → {j : Json} →
    {value : variants.Value} → variants.Describes name j value → variants.Finite value
  | .bare _ _, _, _, .inl (), _ => trivial
  | .carrying _ _ shape _, _, _, .inl _, described => shape.finite_of_describes described.2
  | .bare _ rest, _, _, .inr _, described | .carrying _ _ _ rest, _, _, .inr _, described =>
      rest.finite_of_describes described.2

theorem Cases.finite_of_describes : (cases : Cases) → {name : String} → {content : Content} →
    {value : cases.Value} → cases.Describes name content value → cases.Finite value
  | .cons _ _ fields _, _, .items _, .inl _, described =>
      fields.finite_of_describesItems described.2
  | .cons _ _ fields _, _, .members _, .inl _, described =>
      fields.finite_of_describesMembers described.2
  | .cons _ _ _ rest, _, _, .inr _, described => rest.finite_of_describes described.2

end

end GeoQuery
