import GeoQuery.Proofs.Shape.RoundTrip
import Mathlib.Data.List.Forall2

/-!
Which JSON values describe which values of a shape, as a relation: what stands at each place, without
an order among the members of an object and without a reader that goes through them. Reading a value
as it is written finds exactly what it describes.
-/

namespace GeoQuery

open Json Outcome

namespace Json

def valuesOf (name : String) (members : List (String × Json)) : List Json :=
  (members.filter (·.1 = name)).map Prod.snd

def othersThan (name : String) (members : List (String × Json)) : List (String × Json) :=
  members.filter (·.1 ≠ name)

section

variable {name key : String} {j : Json} {members : List (String × Json)}

@[simp] theorem valuesOf_nil : valuesOf name [] = [] := rfl

@[simp] theorem othersThan_nil : othersThan name [] = [] := rfl

theorem valuesOf_cons_same : valuesOf name ((name, j) :: members) = j :: valuesOf name members := by
  simp [valuesOf]

theorem othersThan_cons_same :
    othersThan name ((name, j) :: members) = othersThan name members := by
  simp [othersThan]

theorem valuesOf_cons_other (other : key ≠ name) :
    valuesOf name ((key, j) :: members) = valuesOf name members := by
  simp [valuesOf, other]

theorem othersThan_cons_other (other : key ≠ name) :
    othersThan name ((key, j) :: members) = (key, j) :: othersThan name members := by
  simp [othersThan, other]

end

theorem mem_of_valuesOf {name : String} {members : List (String × Json)} {j : Json}
    (h : j ∈ valuesOf name members) : (name, j) ∈ members := by
  obtain ⟨⟨key, value⟩, member, rfl⟩ := List.mem_map.1 h
  obtain ⟨own, same⟩ := List.mem_filter.1 member
  obtain rfl : key = name := of_decide_eq_true same
  exact own

theorem mem_othersThan {name : String} {members : List (String × Json)} {m : String × Json} :
    m ∈ othersThan name members ↔ m ∈ members ∧ m.1 ≠ name := by
  simp [othersThan]

end Json

/-- The value is the one that the variant of this name has on its own. -/
def Variants.Named : (variants : Variants) → String → variants.Value → Prop
  | .bare known _, name, .inl () => known = name
  | .bare known rest, name, .inr value => known ≠ name ∧ rest.Named name value
  | .carrying _ _ _ _, _, .inl _ => False
  | .carrying known _ _ rest, name, .inr value => known ≠ name ∧ rest.Named name value

mutual

/-- The JSON value, as it is written, describes the value. -/
def Shape.Describes : (shape : Shape) → Json → shape.Value → Prop
  | .scalar kind, j, value => kind.accept j.found = .ok value
  | .json, j, value => Json.Value.ofJson j = value
  | .optional inner, j, value =>
    match value with
    | none => j = .leaf .null
    | some value => j ≠ .leaf .null ∧ inner.Describes j value
  | .list item, j, values =>
    ∃ items, j = .array items ∧ List.Forall₂ (fun j value => item.Describes j value) items values
  | .record _ _ fields, j, values =>
    (∃ items, j = .array items ∧ fields.DescribesItems items values) ∨
      ∃ members, j = .object members ∧ fields.DescribesMembers members values
  | .choice variants, j, value =>
    (∃ name, j = .leaf (.text name) ∧ variants.Named name value) ∨
      ∃ name inner, j = .object [(name, inner)] ∧ variants.Describes name inner value
  | .tagged _ tag cases, j, value =>
    (∃ name items, j = .array (.leaf (.text name) :: items) ∧
        cases.Describes name (.items items) value) ∨
      ∃ name members, j = .object members ∧ valuesOf tag members = [.leaf (.text name)] ∧
        cases.Describes name (.members (othersThan tag members)) value

/-- The items are those of the fields in order. Only optional fields may be missing at the end. -/
def Fields.DescribesItems : (fields : Fields) → List Json → fields.Value → Prop
  | .nil, items, _ => items = []
  | .required _ shape rest, items, (value, values) =>
    ∃ j left, items = j :: left ∧ shape.Describes j value ∧ rest.DescribesItems left values
  | .optional _ shape rest, items, (value, values) =>
    match value with
    | none => items = [] ∧ rest.DescribesItems [] values
    | some value =>
      ∃ j left, items = j :: left ∧ shape.Describes j value ∧ rest.DescribesItems left values

/-- Each field has at most one member of its name, and no other members are there. -/
def Fields.DescribesMembers : (fields : Fields) → List (String × Json) → fields.Value → Prop
  | .nil, members, _ => members = []
  | .required name shape rest, members, (value, values) =>
    (∃ j, valuesOf name members = [j] ∧ shape.Describes j value) ∧
      rest.DescribesMembers (othersThan name members) values
  | .optional name shape rest, members, (value, values) =>
    (match value with
      | none => valuesOf name members = []
      | some value => ∃ j, valuesOf name members = [j] ∧ shape.Describes j value) ∧
      rest.DescribesMembers (othersThan name members) values

def Variants.Describes : (variants : Variants) → String → Json → variants.Value → Prop
  | .bare known _, name, j, .inl () => known = name ∧ j = .leaf .null
  | .bare known rest, name, j, .inr value => known ≠ name ∧ rest.Describes name j value
  | .carrying known _ shape _, name, j, .inl value => known = name ∧ shape.Describes j value
  | .carrying known _ _ rest, name, j, .inr value => known ≠ name ∧ rest.Describes name j value

def Cases.Describes : (cases : Cases) → String → Content → cases.Value → Prop
  | .cons known _ fields _, name, content, .inl values =>
    known = name ∧
      match content with
      | .items items => fields.DescribesItems items values
      | .members members => fields.DescribesMembers members values
  | .cons known _ _ rest, name, content, .inr value =>
    known ≠ name ∧ rest.Describes name content value

end

theorem acceptName_eq_ok_iff {known : List String} {found : Found} {name : String} :
    acceptName known found = .ok name ↔ found = .leaf (.text name) ∧ known.contains name = true := by
  constructor
  · intro h
    obtain ⟨l, rfl⟩ := leaf_of_acceptName h
    cases l with
    | text s =>
        obtain ⟨member, rfl⟩ := acceptName_text_iff.1 h
        exact ⟨rfl, member⟩
    | null | boolean | number => cases h
  · rintro ⟨rfl, member⟩
    exact acceptName_text_iff.2 ⟨member, rfl⟩

theorem found_eq_leaf_iff {j : Json} {l : Leaf} : j.found = .leaf l ↔ j = .leaf l := by
  cases j with
  | leaf l' => simp [found]
  | array | object => simp [found]

theorem Scalar.accept_nothing_iff {j : Json} :
    Scalar.nothing.accept j.found = .ok () ↔ j = .leaf .null := by
  cases j with
  | leaf l => cases l <;> simp [found, accept]
  | array | object => simp [found, accept]

theorem forall_mem_of_forall₂ {α β : Type} {r : α → β → Prop} {p : α → Prop} {l : List α}
    {l' : List β} (h : List.Forall₂ r l l') (each : ∀ a b, r a b → p a) : ∀ a ∈ l, p a :=
  ((List.forall₂_and_left ..).1 (h.imp fun a b related => And.intro (each a b related) related)).1

section Combinators

variable {α : Type} {j : Json}

theorem asOptional_eq_ok_iff {inner : Json → Except Mismatch α} {value : Option α} :
    asOptional inner j = .ok value ↔
      match value with
      | none => j = .leaf .null
      | some value => j ≠ .leaf .null ∧ inner j = .ok value := by
  by_cases null : j = .leaf .null
  · subst null
    cases value <;> simp [asOptional]
  · rw [asOptional_of_ne_null inner null, map_eq_ok_iff]
    cases value <;> simp [null]

theorem asList_eq_ok_iff {item : Json → Except Mismatch α} {values : List α} :
    asList item j = .ok values ↔ ∃ items, j = .array items ∧
      List.Forall₂ (fun j value => item j = .ok value) items values := by
  cases j with
  | array items => simp [asList, mapM_eq_ok_iff]
  | leaf | object => simp [asList]

theorem asRecord_eq_ok_iff {label : String}
    {ofItems : List Json → Except Mismatch (α × List Json)}
    {ofMembers : List (String × Json) → Except Mismatch α} {value : α} :
    asRecord label ofItems ofMembers j = .ok value ↔
      (∃ items, j = .array items ∧ ofItems items = .ok (value, [])) ∨
        ∃ members, j = .object members ∧ ofMembers members = .ok value := by
  cases j with
  | leaf => simp [asRecord]
  | array items => simp [asRecord_array_iff]
  | object members => simp [asRecord]

theorem asChoice_eq_ok_iff {names : List String} {ofName : String → Except Mismatch α}
    {ofCarried : String → Json → Except Mismatch α} {value : α} :
    asChoice names ofName ofCarried j = .ok value ↔
      (∃ name, j = .leaf (.text name) ∧ names.contains name = true ∧ ofName name = .ok value) ∨
        ∃ name inner, j = .object [(name, inner)] ∧ names.contains name = true ∧
          ofCarried name inner = .ok value := by
  cases j with
  | leaf l =>
      cases l with
      | text s => simp [asChoice, bind_eq_ok_iff, acceptName_text_iff]
      | null | boolean | number => simp [asChoice]
  | array => simp [asChoice]
  | object members =>
      rw [asChoice_object_iff]
      simp

/-- The tag is split off if it is there once, as the name of a case. -/
theorem splitTag_eq_ok_iff {tag name : String} {known : List String} {found : Option String}
    {members others : List (String × Json)} :
    splitTag tag known found members = .ok (name, others) ↔
      othersThan tag members = others ∧
        match found with
        | some own => own = name ∧ valuesOf tag members = []
        | none => valuesOf tag members = [.leaf (.text name)] ∧ known.contains name = true := by
  induction members generalizing found others with
  | nil => cases found <;> simp [splitTag, and_comm]
  | cons m members ih =>
      obtain ⟨key, j⟩ := m
      rw [splitTag]
      by_cases isTag : key = tag
      · subst isTag
        rw [if_pos rfl, othersThan_cons_same, valuesOf_cons_same]
        cases found with
        | some own => simp
        | none =>
            simp only [Option.isSome_none, Bool.false_eq_true, if_false, bind_eq_ok_iff, ih,
              acceptName_eq_ok_iff, found_eq_leaf_iff, List.cons.injEq]
            constructor
            · rintro ⟨own, ⟨rfl, member⟩, rest, rfl, none⟩
              exact ⟨rest, ⟨rfl, none⟩, member⟩
            · rintro ⟨rest, ⟨rfl, none⟩, member⟩
              exact ⟨name, ⟨rfl, member⟩, rest, rfl, none⟩
      · rw [if_neg isTag, othersThan_cons_other isTag, valuesOf_cons_other isTag, map_eq_ok_iff]
        constructor
        · rintro ⟨⟨own, rest⟩, split, heq⟩
          cases heq
          obtain ⟨rfl, tagged⟩ := ih.1 split
          exact ⟨rfl, tagged⟩
        · rintro ⟨rfl, tagged⟩
          exact ⟨(name, othersThan tag members), ih.2 ⟨rfl, tagged⟩, rfl⟩

theorem asTagged_eq_ok_iff {label tag : String} {names : List String}
    {ofContent : String → Content → Except Mismatch α} {value : α} :
    asTagged label tag names ofContent j = .ok value ↔
      (∃ name items, j = .array (.leaf (.text name) :: items) ∧ names.contains name = true ∧
          ofContent name (.items items) = .ok value) ∨
        ∃ name members, j = .object members ∧ valuesOf tag members = [.leaf (.text name)] ∧
          names.contains name = true ∧
            ofContent name (.members (othersThan tag members)) = .ok value := by
  match j with
  | .leaf l => simp [asTagged]
  | .array [] => simp [asTagged]
  | .array (first :: items) =>
      simp only [asTagged, bind_eq_ok_iff, acceptName_eq_ok_iff, found_eq_leaf_iff, Json.array.injEq,
        List.cons.injEq, reduceCtorEq, false_and, exists_false, or_false]
      constructor
      · rintro ⟨name, ⟨rfl, member⟩, accepted⟩
        exact ⟨name, items, ⟨rfl, rfl⟩, member, accepted⟩
      · rintro ⟨name, items', ⟨rfl, rfl⟩, member, accepted⟩
        exact ⟨name, ⟨rfl, member⟩, accepted⟩
  | .object members =>
      simp only [asTagged, bind_eq_ok_iff, Prod.exists, splitTag_eq_ok_iff, Json.object.injEq,
        reduceCtorEq, false_and, exists_false, false_or]
      constructor
      · rintro ⟨name, others, ⟨rfl, once, member⟩, accepted⟩
        exact ⟨name, members, rfl, once, member, accepted⟩
      · rintro ⟨name, members', rfl, once, member, accepted⟩
        exact ⟨name, _, ⟨rfl, once, member⟩, accepted⟩

end Combinators

section Slots

variable {α σ : Type} {field : String} {accept : Json → Except Mismatch α}
variable {members : List (String × Json)}

def fillSlot (field : String) (accept : Json → Except Mismatch α) (slot : Option α) (j : Json) :
    Except Mismatch (Option α) :=
  match slot with
  | some _ => .error (.duplicateField field)
  | none => (accept j).map some

theorem fillSlot_foldlM_iff {values : List Json} {slot filled : Option α} :
    values.foldlM (fillSlot field accept) slot = .ok filled ↔
      (values = [] ∧ filled = slot) ∨
        ∃ j value, slot = none ∧ values = [j] ∧ accept j = .ok value ∧ filled = some value := by
  cases values with
  | nil => simp [pure, Except.pure, eq_comm]
  | cons j values =>
      rw [List.foldlM_cons, bind_eq_ok_iff]
      cases slot with
      | some value => simp [fillSlot]
      | none =>
          cases values with
          | nil =>
              simp only [fillSlot, map_eq_ok_iff]
              simp [pure, Except.pure, eq_comm]
          | cons j' values =>
              simp only [fillSlot, map_eq_ok_iff]
              constructor
              · rintro ⟨slot, ⟨value, -, rfl⟩, rest⟩
                rw [List.foldlM_cons] at rest
                cases rest
              · simp

def putSlot (field : String) (accept : Json → Except Mismatch α)
    (put : String → Json → σ → Except Mismatch σ) (name : String) (j : Json) :
    Option α × σ → Except Mismatch (Option α × σ)
  | (slot, slots) =>
    if field = name then
      match slot with
      | some _ => .error (.duplicateField name)
      | none => (accept j).map fun value => (some value, slots)
    else (put name j slots).map fun slots => (slot, slots)

variable {put : String → Json → σ → Except Mismatch σ}

theorem putSlot_own {j : Json} {slot : Option α} {slots : σ} :
    putSlot field accept put field j (slot, slots) =
      (fillSlot field accept slot j).map fun slot => (slot, slots) := by
  unfold putSlot
  dsimp only
  rw [if_pos rfl]
  cases slot with
  | some value => rfl
  | none =>
      rw [fillSlot]
      cases accept j <;> rfl

theorem putSlot_behind {name : String} (other : field ≠ name) {j : Json} {slot : Option α}
    {slots : σ} :
    putSlot field accept put name j (slot, slots) =
      (put name j slots).map fun slots => (slot, slots) := by
  unfold putSlot
  dsimp only
  rw [if_neg other]

/-- Members of one name go to the first slot and all others to the slots behind it, in whatever order
they come. -/
theorem putSlot_foldlM_iff {slot filled : Option α} {slots all : σ} :
    members.foldlM (fun both m => putSlot field accept put m.1 m.2 both) (slot, slots) =
        .ok (filled, all) ↔
      (valuesOf field members).foldlM (fillSlot field accept) slot = .ok filled ∧
        (othersThan field members).foldlM (fun slots m => put m.1 m.2 slots) slots = .ok all := by
  induction members generalizing slot slots with
  | nil => simp [pure, Except.pure]
  | cons m members ih =>
      obtain ⟨name, j⟩ := m
      rw [List.foldlM_cons, bind_eq_ok_iff]
      by_cases same : field = name
      · subst same
        simp only [putSlot_own, valuesOf_cons_same, othersThan_cons_same, List.foldlM_cons,
          bind_eq_ok_iff, map_eq_ok_iff]
        constructor
        · rintro ⟨-, ⟨slot, put, rfl⟩, rest⟩
          exact ⟨⟨slot, put, (ih.1 rest).1⟩, (ih.1 rest).2⟩
        · rintro ⟨⟨slot, put, values⟩, others⟩
          exact ⟨_, ⟨slot, put, rfl⟩, ih.2 ⟨values, others⟩⟩
      · simp only [putSlot_behind same, valuesOf_cons_other (Ne.symm same),
          othersThan_cons_other (Ne.symm same), List.foldlM_cons, bind_eq_ok_iff, map_eq_ok_iff]
        constructor
        · rintro ⟨-, ⟨slots, put, rfl⟩, rest⟩
          exact ⟨(ih.1 rest).1, slots, put, (ih.1 rest).2⟩
        · rintro ⟨values, slots, put, others⟩
          exact ⟨_, ⟨slots, put, rfl⟩, ih.2 ⟨values, others⟩⟩

end Slots

/-- The members fill the slots of the fields, and no required slot stays empty. -/
def Fields.FilledBy (fields : Fields)
    (put : String → Json → fields.Slots → Except Mismatch fields.Slots)
    (members : List (String × Json)) (values : fields.Value) : Prop :=
  ∃ slots, members.foldlM (fun slots m => put m.1 m.2 slots) fields.emptySlots = .ok slots ∧
    fields.ofSlots slots = .ok values

theorem Fields.ofMembers_eq_ok_iff {fields : Fields} {values : fields.Value}
    {put : String → Json → fields.Slots → Except Mismatch fields.Slots}
    {members : List (String × Json)} :
    fields.ofMembers .refused put members = .ok values ↔ fields.FilledBy put members values := by
  have none : ∀ name, ¬ (Extra.refused = .ignored ∧ (!fields.names.contains name) = true) :=
    fun name h => nomatch h.1
  simp only [ofMembers, none, if_false, bind_eq_ok_iff]
  rfl

theorem Content.accept_items_iff {α : Type}
    {ofItems : List Json → Except Mismatch (α × List Json)}
    {ofMembers : List (String × Json) → Except Mismatch α} {items : List Json} {value : α} :
    (Content.items items).accept ofItems ofMembers = .ok value ↔ ofItems items = .ok (value, []) := by
  rw [Content.accept, bind_eq_ok_iff]
  constructor
  · rintro ⟨⟨value', left⟩, all, finished⟩
    cases left with
    | nil =>
        cases finished
        exact all
    | cons j left => cases finished
  · exact fun all => ⟨(value, []), all, rfl⟩

theorem Content.accept_members_iff {fields : Fields} {values : fields.Value}
    {ofItems : List Json → Except Mismatch (fields.Value × List Json)}
    {put : String → Json → fields.Slots → Except Mismatch fields.Slots}
    {members : List (String × Json)} :
    (Content.members members).accept ofItems (fields.ofMembers .refused put) = .ok values ↔
      fields.FilledBy put members values :=
  Fields.ofMembers_eq_ok_iff

section Filled

variable {name : String} {shape : Shape} {rest : Fields}
variable {accept : Json → Except Mismatch shape.Value}
variable {put : String → Json → rest.Slots → Except Mismatch rest.Slots}
variable {members : List (String × Json)} {values : rest.Value}

theorem Fields.filledBy_required_iff {value : shape.Value} :
    (Fields.required name shape rest).FilledBy (putSlot name accept put) members (value, values) ↔
      (∃ j, valuesOf name members = [j] ∧ accept j = .ok value) ∧
        rest.FilledBy put (othersThan name members) values := by
  constructor
  · rintro ⟨⟨slot, slots⟩, folded, whole⟩
    obtain ⟨own, others⟩ := putSlot_foldlM_iff.1 folded
    cases slot with
    | none => cases whole
    | some first =>
        obtain ⟨values', ofSlots, heq⟩ := map_eq_ok_iff.1 whole
        cases heq
        rcases fillSlot_foldlM_iff.1 own with ⟨-, none⟩ | ⟨j, first, -, once, accepted, same⟩
        · cases none
        · cases same
          exact ⟨⟨j, once, accepted⟩, slots, others, ofSlots⟩
  · rintro ⟨⟨j, once, accepted⟩, slots, others, ofSlots⟩
    have own : (valuesOf name members).foldlM (fillSlot name accept) none = .ok (some value) :=
      fillSlot_foldlM_iff.2 (.inr ⟨j, value, rfl, once, accepted, rfl⟩)
    exact ⟨(some value, slots), putSlot_foldlM_iff.2 ⟨own, others⟩,
      map_eq_ok_iff.2 ⟨values, ofSlots, rfl⟩⟩

theorem Fields.filledBy_optional_iff {value : Option shape.Value} :
    (Fields.optional name shape rest).FilledBy (putSlot name accept put) members (value, values) ↔
      (match value with
        | none => valuesOf name members = []
        | some value => ∃ j, valuesOf name members = [j] ∧ accept j = .ok value) ∧
        rest.FilledBy put (othersThan name members) values := by
  have filled : (valuesOf name members).foldlM (fillSlot name accept) none = .ok value ↔
      match value with
      | none => valuesOf name members = []
      | some value => ∃ j, valuesOf name members = [j] ∧ accept j = .ok value := by
    rw [fillSlot_foldlM_iff]
    cases value <;> simp
  rw [← filled]
  constructor
  · rintro ⟨⟨slot, slots⟩, folded, whole⟩
    obtain ⟨own, others⟩ := putSlot_foldlM_iff.1 folded
    obtain ⟨values', ofSlots, heq⟩ := map_eq_ok_iff.1 whole
    cases heq
    exact ⟨own, slots, others, ofSlots⟩
  · rintro ⟨own, slots, others, ofSlots⟩
    exact ⟨(value, slots), putSlot_foldlM_iff.2 ⟨own, others⟩,
      map_eq_ok_iff.2 ⟨values, ofSlots, rfl⟩⟩

end Filled

theorem Fields.putWritten_required {known : List String} {field : String} {shape : Shape}
    {rest : Fields} :
    (fun name j => (Fields.required field shape rest).putWritten known name j) =
      putSlot field (fun j => shape.ofWritten j) fun name j => rest.putWritten known name j := by
  funext name j ⟨slot, slots⟩
  cases slot <;> simp only [putWritten] <;> rfl

theorem Fields.putWritten_optional {known : List String} {field : String} {shape : Shape}
    {rest : Fields} :
    (fun name j => (Fields.optional field shape rest).putWritten known name j) =
      putSlot field (fun j => shape.ofWritten j) fun name j => rest.putWritten known name j := by
  funext name j ⟨slot, slots⟩
  cases slot <;> simp only [putWritten] <;> rfl

theorem Fields.plain_of_flat : (fields : Fields) → fields.flat = true → fields.plain = true
  | .nil, _ => rfl
  | .required _ (.scalar _) rest, flat | .optional _ (.scalar _) rest, flat =>
      rest.plain_of_flat flat

theorem Fields.ofItems_eq_ofWrittenItems (expected : String) : (fields : Fields) →
    fields.flat = true → (index : Nat) → (items : List Json) →
    fields.ofItems expected index items = fields.ofWrittenItems expected index items
  | .nil, _, _, _ => rfl
  | .required _ (.scalar _) _, _, _, [] => rfl
  | .required _ (.scalar kind) rest, flat, index, j :: items
  | .optional _ (.scalar kind) rest, flat, index, j :: items => by
      have others := rest.ofItems_eq_ofWrittenItems expected flat (index + 1) items
      simp only [ofItems, ofWrittenItems, Shape.ofJson, Shape.ofWritten, others]
  | .optional _ (.scalar kind) rest, flat, index, [] => by
      have others := rest.ofItems_eq_ofWrittenItems expected flat (index + 1) []
      simp only [ofItems, ofWrittenItems, others]

section Alternatives

variable {ε α β : Type} {first : Prop} [Decidable first] {x : Except ε α} {y : Except ε β}

theorem first_alternative_iff {a : α} :
    (if first then x.map Sum.inl else y.map Sum.inr) = .ok (.inl a : α ⊕ β) ↔
      first ∧ x = .ok a := by
  by_cases h : first
  · simp [h, map_eq_ok_iff]
  · simp [h, map_eq_ok_iff]

theorem other_alternative_iff {b : β} :
    (if first then x.map Sum.inl else y.map Sum.inr) = .ok (.inr b : α ⊕ β) ↔
      ¬ first ∧ y = .ok b := by
  by_cases h : first
  · simp [h, map_eq_ok_iff]
  · simp [h, map_eq_ok_iff]

end Alternatives

theorem Variants.ofName_eq_ok_iff : (variants : Variants) → (name : String) →
    (value : variants.Value) → (variants.ofName name = .ok value ↔ variants.Named name value)
  | .bare known rest, name, .inl () => by
      refine Iff.trans (first_alternative_iff (x := .ok ())) ?_
      exact and_iff_left rfl
  | .bare known rest, name, .inr value => by
      refine Iff.trans (other_alternative_iff (x := .ok ())) ?_
      exact and_congr_right fun _ => rest.ofName_eq_ok_iff name value
  | .carrying known way shape rest, name, .inl value => by
      refine Iff.trans (first_alternative_iff
        (x := (.error (.bareVariant way.label) : Except Mismatch shape.Value))) ?_
      constructor
      · rintro ⟨-, accepted⟩
        cases accepted
      · exact False.elim
  | .carrying known way shape rest, name, .inr value => by
      refine Iff.trans (other_alternative_iff
        (x := (.error (.bareVariant way.label) : Except Mismatch shape.Value))) ?_
      exact and_congr_right fun _ => rest.ofName_eq_ok_iff name value

theorem Variants.contains_of_named : {variants : Variants} → {name : String} →
    {value : variants.Value} → variants.Named name value → variants.names.contains name = true
  | .bare known rest, name, .inl (), same => by
      rw [← (show known = name from same)]
      simp [names]
  | .bare known rest, name, .inr value, ⟨_, named⟩ => contains_behind known (contains_of_named named)
  | .carrying known _ _ rest, name, .inr value, ⟨_, named⟩ =>
      contains_behind known (contains_of_named named)

theorem Variants.contains_of_describes : {variants : Variants} → {name : String} → {j : Json} →
    {value : variants.Value} → variants.Describes name j value →
    variants.names.contains name = true
  | .bare known rest, name, _, .inl (), ⟨same, _⟩ => by simp [names, same]
  | .carrying known _ _ rest, name, _, .inl value, ⟨same, _⟩ => by simp [names, same]
  | .bare known rest, name, _, .inr value, ⟨_, described⟩
  | .carrying known _ _ rest, name, _, .inr value, ⟨_, described⟩ =>
      contains_behind known (contains_of_describes described)

theorem Cases.contains_of_describes : {cases : Cases} → {name : String} → {content : Content} →
    {value : cases.Value} → cases.Describes name content value → cases.names.contains name = true
  | .cons known _ _ rest, name, _, .inl values, ⟨same, _⟩ => by simp [names, same]
  | .cons known _ _ rest, name, _, .inr value, ⟨_, described⟩ =>
      contains_behind known (contains_of_describes described)

section

variable {ε α β γ δ : Type} {x : Except ε α} {y : Except ε (β × List δ)} {f : α → γ}

theorem item_then_eq_ok_iff {value : γ} {values : β} :
    (do
        let a ← x
        let (b, left) ← y
        return ((f a, b), left)) = .ok ((value, values), []) ↔
      (∃ a, x = .ok a ∧ f a = value) ∧ y = .ok (values, []) := by
  simp only [bind_eq_ok_iff, Prod.exists]
  constructor
  · rintro ⟨a, first, b, left, others, heq⟩
    cases heq
    exact ⟨⟨a, first, rfl⟩, others⟩
  · rintro ⟨⟨a, first, rfl⟩, others⟩
    exact ⟨a, first, values, [], others, rfl⟩

theorem missing_then_eq_ok_iff {value : Option α} {values : β} :
    (do
        let (b, left) ← y
        return ((none, b), left)) = .ok ((value, values), []) ↔
      value = none ∧ y = .ok (values, []) := by
  simp only [bind_eq_ok_iff, Prod.exists]
  constructor
  · rintro ⟨b, left, others, heq⟩
    cases heq
    exact ⟨rfl, others⟩
  · rintro ⟨rfl, others⟩
    exact ⟨values, [], others, rfl⟩

end

mutual

/-- What is read from a JSON value as it is written is what that describes. -/
theorem Shape.ofWritten_eq_ok_iff : (shape : Shape) → shape.plain = true → (j : Json) →
    (value : shape.Value) → (shape.ofWritten j = .ok value ↔ shape.Describes j value)
  | .scalar kind, _, j, value => Iff.rfl
  | .json, _, j, value => ⟨Except.ok.inj, congrArg Except.ok⟩
  | .optional inner, plain, j, none => asOptional_eq_ok_iff
  | .optional inner, plain, j, some value =>
      Iff.trans asOptional_eq_ok_iff <|
        and_congr_right fun _ => inner.ofWritten_eq_ok_iff plain j value
  | .list item, plain, j, values => by
      have each : (fun j value => item.ofWritten j = .ok value) =
          fun j value => item.Describes j value :=
        funext₂ fun j value => propext (item.ofWritten_eq_ok_iff plain j value)
      refine Iff.trans asList_eq_ok_iff ?_
      rw [each]
      exact Iff.rfl
  | .record label extra fields, plain, j, values => by
      rw [Shape.plain, Bool.and_eq_true, beq_iff_eq] at plain
      obtain ⟨rfl, plain⟩ := plain
      refine Iff.trans asRecord_eq_ok_iff (or_congr ?_ ?_)
      · exact exists_congr fun items => and_congr_right fun _ =>
          fields.ofWrittenItems_eq_ok_iff _ plain 0 items values
      · exact exists_congr fun members => and_congr_right fun _ =>
          Fields.ofMembers_eq_ok_iff.trans (fields.filledBy_putWritten_iff _ plain members values)
  | .choice variants, plain, j, value => by
      refine Iff.trans asChoice_eq_ok_iff (or_congr ?_ ?_)
      · refine exists_congr fun name => and_congr_right fun _ => ?_
        have named := variants.ofName_eq_ok_iff name value
        exact (and_congr_right fun _ => named).trans
          (and_iff_right_of_imp Variants.contains_of_named)
      · refine exists_congr fun name => exists_congr fun inner => and_congr_right fun _ => ?_
        have carried := variants.ofWritten_eq_ok_iff plain name inner value
        exact (and_congr_right fun _ => carried).trans
          (and_iff_right_of_imp Variants.contains_of_describes)
  | .tagged label tag cases, flat, j, value => by
      have described (name : String) (content : Content) :
          (cases.names.contains name = true ∧ cases.ofContent name content = .ok value) ↔
            cases.Describes name content value :=
        (and_congr_right fun _ => cases.ofContent_eq_ok_iff flat name content value).trans
          (and_iff_right_of_imp Cases.contains_of_describes)
      refine Iff.trans asTagged_eq_ok_iff (or_congr ?_ ?_)
      · exact exists_congr fun name => exists_congr fun items => and_congr_right fun _ =>
          described name _
      · exact exists_congr fun name => exists_congr fun members => and_congr_right fun _ =>
          and_congr_right fun _ => described name _

theorem Fields.ofWrittenItems_eq_ok_iff (expected : String) : (fields : Fields) →
    fields.plain = true → (index : Nat) → (items : List Json) → (values : fields.Value) →
    (fields.ofWrittenItems expected index items = .ok (values, []) ↔
      fields.DescribesItems items values)
  | .nil, _, index, items, () => by
      constructor
      · intro h
        cases h
        exact rfl
      · intro none
        rw [(show items = [] from none)]
        rfl
  | .required name shape rest, plain, index, [], (value, values) => by
      constructor
      · exact nofun
      · rintro ⟨j, left, missing, -⟩
        cases missing
  | .required name shape rest, plain, index, j :: items, (value, values) => by
      obtain ⟨plainShape, plainRest⟩ := Bool.and_eq_true_iff.1 plain
      have first := shape.ofWritten_eq_ok_iff plainShape j value
      have others := rest.ofWrittenItems_eq_ok_iff expected plainRest (index + 1) items values
      refine Iff.trans (item_then_eq_ok_iff (f := id)) ?_
      constructor
      · rintro ⟨⟨_, read, rfl⟩, readRest⟩
        exact ⟨j, items, rfl, first.1 read, others.1 readRest⟩
      · rintro ⟨_, _, ⟨rfl, rfl⟩, described, describedRest⟩
        exact ⟨⟨value, first.2 described, rfl⟩, others.2 describedRest⟩
  | .optional name shape rest, plain, index, [], (value, values) => by
      obtain ⟨-, plainRest⟩ := Bool.and_eq_true_iff.1 plain
      have others := rest.ofWrittenItems_eq_ok_iff expected plainRest (index + 1) [] values
      refine Iff.trans missing_then_eq_ok_iff ?_
      cases value with
      | none => exact ⟨fun h => ⟨rfl, others.1 h.2⟩, fun h => ⟨rfl, others.2 h.2⟩⟩
      | some value =>
          constructor
          · rintro ⟨missing, -⟩
            cases missing
          · rintro ⟨_, _, more, -⟩
            cases more
  | .optional name shape rest, plain, index, j :: items, (none, values) => by
      refine Iff.trans (item_then_eq_ok_iff (f := some)) ?_
      constructor
      · rintro ⟨⟨_, -, other⟩, -⟩
        cases other
      · rintro ⟨more, -⟩
        cases more
  | .optional name shape rest, plain, index, j :: items, (some value, values) => by
      obtain ⟨plainShape, plainRest⟩ := Bool.and_eq_true_iff.1 plain
      have first := shape.ofWritten_eq_ok_iff plainShape j value
      have others := rest.ofWrittenItems_eq_ok_iff expected plainRest (index + 1) items values
      refine Iff.trans (item_then_eq_ok_iff (f := some)) ?_
      constructor
      · rintro ⟨⟨_, read, same⟩, readRest⟩
        cases same
        exact ⟨j, items, rfl, first.1 read, others.1 readRest⟩
      · rintro ⟨_, _, ⟨rfl, rfl⟩, described, describedRest⟩
        exact ⟨⟨value, first.2 described, rfl⟩, others.2 describedRest⟩

theorem Fields.filledBy_putWritten_iff (known : List String) : (fields : Fields) →
    fields.plain = true → (members : List (String × Json)) → (values : fields.Value) →
    (fields.FilledBy (fun name j => fields.putWritten known name j) members values ↔
      fields.DescribesMembers members values)
  | .nil, _, [], () => by
      constructor
      · exact fun _ => rfl
      · exact fun _ => ⟨(), rfl, rfl⟩
  | .nil, _, m :: members, () => by
      constructor
      · rintro ⟨_, refused, -⟩
        cases refused
      · exact nofun
  | .required name shape rest, plain, members, (value, values) => by
      obtain ⟨plainShape, plainRest⟩ := Bool.and_eq_true_iff.1 plain
      rw [Fields.putWritten_required]
      refine Iff.trans Fields.filledBy_required_iff (and_congr ?_ ?_)
      · exact exists_congr fun j => and_congr_right fun _ =>
          shape.ofWritten_eq_ok_iff plainShape j value
      · exact rest.filledBy_putWritten_iff known plainRest _ values
  | .optional name shape rest, plain, members, (value, values) => by
      obtain ⟨plainShape, plainRest⟩ := Bool.and_eq_true_iff.1 plain
      rw [Fields.putWritten_optional]
      refine Iff.trans Fields.filledBy_optional_iff (and_congr ?_ ?_)
      · cases value with
        | none => exact Iff.rfl
        | some value =>
            exact exists_congr fun j => and_congr_right fun _ =>
              shape.ofWritten_eq_ok_iff plainShape j value
      · exact rest.filledBy_putWritten_iff known plainRest _ values

theorem Variants.ofWritten_eq_ok_iff : (variants : Variants) → variants.plain = true →
    (name : String) → (j : Json) → (value : variants.Value) →
    (variants.ofWritten name j = .ok value ↔ variants.Describes name j value)
  | .bare known rest, plain, name, j, .inl () => by
      refine Iff.trans first_alternative_iff (and_congr_right fun _ => ?_)
      exact Scalar.accept_nothing_iff
  | .bare known rest, plain, name, j, .inr value =>
      Iff.trans other_alternative_iff <|
        and_congr_right fun _ => rest.ofWritten_eq_ok_iff plain name j value
  | .carrying known way shape rest, plain, name, j, .inl value => by
      obtain ⟨both, -⟩ := Bool.and_eq_true_iff.1 plain
      obtain ⟨plainShape, -⟩ := Bool.and_eq_true_iff.1 both
      exact Iff.trans first_alternative_iff <|
        and_congr_right fun _ => shape.ofWritten_eq_ok_iff plainShape j value
  | .carrying known way shape rest, plain, name, j, .inr value => by
      obtain ⟨both, -⟩ := Bool.and_eq_true_iff.1 plain
      obtain ⟨-, plainRest⟩ := Bool.and_eq_true_iff.1 both
      exact Iff.trans other_alternative_iff <|
        and_congr_right fun _ => rest.ofWritten_eq_ok_iff plainRest name j value

theorem Cases.ofContent_eq_ok_iff : (cases : Cases) → cases.flat = true → (name : String) →
    (content : Content) → (value : cases.Value) →
    (cases.ofContent name content = .ok value ↔ cases.Describes name content value)
  | .cons known label fields rest, flat, name, content, .inl values => by
      obtain ⟨flatFields, -⟩ := Bool.and_eq_true_iff.1 flat
      have plain := fields.plain_of_flat flatFields
      refine Iff.trans first_alternative_iff (and_congr_right fun _ => ?_)
      cases content with
      | items items =>
          have all := fields.ofWrittenItems_eq_ok_iff (fields.counted label) plain 0 items values
          rw [← fields.ofItems_eq_ofWrittenItems _ flatFields] at all
          exact Iff.trans Content.accept_items_iff all
      | members members =>
          have all := fields.filledBy_putWritten_iff fields.names plain members values
          have same : (fun name j => fields.putMember fields.names name j) =
              fun name j => fields.putWritten fields.names name j := by
            funext name j slots
            exact fields.putMember_eq_putWritten fields.names name j flatFields slots
          rw [← same] at all
          exact Iff.trans Content.accept_members_iff all
  | .cons known label fields rest, flat, name, content, .inr value => by
      obtain ⟨-, flatRest⟩ := Bool.and_eq_true_iff.1 flat
      exact Iff.trans other_alternative_iff <|
        and_congr_right fun _ => rest.ofContent_eq_ok_iff flatRest name content value

end

/-- A text has the values of a shape that its JSON value, as it is written, describes. -/
theorem Shape.ofText_eq_ok_iff_describes {shape : Shape} (plain : shape.plain = true) {text : String}
    {value : shape.Value} :
    shape.ofText text = .ok value ↔
      ∃ j, readWhole (Json.read maxDepth) text = .ok j ∧ shape.Describes j value := by
  simp only [Shape.ofText_eq_ok_iff plain, shape.ofWritten_eq_ok_iff plain]

end GeoQuery
