import GeoQuery.Proofs.Shape.Written
import Mathlib.Data.List.Nodup

namespace GeoQuery

open Json Outcome

namespace Json

theorem collapseItems_eq_map (items : List Json) : collapseItems items = items.map collapse := by
  induction items with
  | nil => rfl
  | cons item items ih => rw [collapseItems, ih, List.map_cons]

theorem collapseMembers_eq_map (members : List (String × Json)) :
    collapseMembers members = members.map fun m => (m.1, m.2.collapse) := by
  induction members with
  | nil => rfl
  | cons m members ih => rw [collapseMembers, ih, List.map_cons]

theorem putMember_new {name : String} (value : Json) {members : List (String × Json)}
    (new : name ∉ members.map Prod.fst) :
    putMember name value members = members ++ [(name, value)] := by
  induction members with
  | nil => rfl
  | cons m members ih =>
      rw [List.map_cons, List.mem_cons, not_or] at new
      rw [putMember, if_neg (Ne.symm new.1), ih new.2, List.cons_append]

theorem foldl_putMember_distinct {members before : List (String × Json)}
    (distinct : ((before ++ members).map Prod.fst).Nodup) :
    members.foldl (fun all m => putMember m.1 m.2 all) before = before ++ members := by
  induction members generalizing before with
  | nil => exact (List.append_nil before).symm
  | cons m members ih =>
      have new : m.1 ∉ before.map Prod.fst := by
        rw [List.map_append, List.map_cons] at distinct
        exact fun member => (List.disjoint_of_nodup_append distinct) member (List.mem_cons_self ..)
      rw [List.foldl_cons, putMember_new m.2 new, ih (by simpa using distinct), List.append_assoc]
      rfl

@[simp] theorem collapse_array (items : List Json) :
    collapse (.array items) = .array (items.map collapse) := by
  rw [collapse, collapseItems_eq_map]

theorem collapse_object {members : List (String × Json)}
    (distinct : (members.map Prod.fst).Nodup) :
    collapse (.object members) = .object (members.map fun m => (m.1, m.2.collapse)) := by
  rw [collapse, collapseMembers_eq_map, foldl_putMember_distinct]
  · rfl
  · simpa [Function.comp_def] using distinct

mutual

theorem collapse_of_distinct : (j : Json) → j.Distinct → j.collapse = j
  | .leaf l, _ => rfl
  | .array items, distinct => by
      rw [collapse, collapseItems_of_distinct items distinct]
  | .object members, ⟨names, distinct⟩ => by
      rw [collapse_object names, ← collapseMembers_eq_map, collapseMembers_of_distinct members distinct]

theorem collapseItems_of_distinct : (items : List Json) → DistinctItems items →
    collapseItems items = items
  | [], _ => rfl
  | item :: items, ⟨head, tail⟩ => by
      rw [collapseItems, item.collapse_of_distinct head, collapseItems_of_distinct items tail]

theorem collapseMembers_of_distinct : (members : List (String × Json)) → DistinctMembers members →
    collapseMembers members = members
  | [], _ => rfl
  | (name, value) :: members, ⟨head, tail⟩ => by
      rw [collapseMembers, value.collapse_of_distinct head, collapseMembers_of_distinct members tail]

end

theorem Value.ofJson_of_distinct {j : Json} (distinct : j.Distinct) : ofJson j = ⟨j, distinct⟩ :=
  Value.ext (collapse_of_distinct j distinct)

@[simp] theorem Value.ofJson_collapse (j : Json) : ofJson j.collapse = ofJson j :=
  ofJson_of_distinct j.distinct_collapse

@[simp] theorem found_collapse (j : Json) : j.collapse.found = j.found := by
  cases j <;> rfl

end Json

mutual

/-- Outside of what is kept as JSON, no object has a repeated name, and no variant with fields of its
own is written as an array. Only what the shape has a place for is looked at. -/
def Shape.Regular : Shape → Json → Prop
  | .scalar _, _ | .json, _ => True
  | .optional inner, j => inner.Regular j
  | .list item, .array items => ∀ j ∈ items, item.Regular j
  | .record _ _ fields, .array items => fields.RegularItems items
  | .record _ _ fields, .object members =>
    (members.map Prod.fst).Nodup ∧ ∀ m ∈ members, fields.RegularMember m.1 m.2
  | .choice variants, .object members =>
    (members.map Prod.fst).Nodup ∧ ∀ m ∈ members, variants.Regular m.1 m.2
  | .tagged _ _ _, .object members => (members.map Prod.fst).Nodup
  | _, _ => True

def Fields.RegularItems : Fields → List Json → Prop
  | .required _ shape rest, j :: items | .optional _ shape rest, j :: items =>
    shape.Regular j ∧ rest.RegularItems items
  | _, _ => True

def Fields.RegularMember : Fields → String → Json → Prop
  | .nil, _, _ => True
  | .required field shape rest, name, j | .optional field shape rest, name, j =>
    (field = name → shape.Regular j) ∧ rest.RegularMember name j

def Variants.Regular : Variants → String → Json → Prop
  | .nil, _, _ => True
  | .bare _ rest, name, j => rest.Regular name j
  | .carrying known way shape rest, name, j =>
    (known = name → shape.Regular j ∧ (way = .fields → ∀ items, j ≠ .array items)) ∧
      rest.Regular name j

end

theorem splitTag_collapse (tag : String) (known : List String) (found : Option String)
    (members : List (String × Json)) :
    splitTag tag known found (members.map fun m => (m.1, m.2.collapse)) =
      (splitTag tag known found members).map fun (name, others) =>
        (name, others.map fun m => (m.1, m.2.collapse)) := by
  induction members generalizing found with
  | nil => cases found <;> rfl
  | cons m members ih =>
      obtain ⟨key, value⟩ := m
      rw [List.map_cons, splitTag, splitTag]
      by_cases isTag : key = tag
      · simp only [isTag, if_true, found_collapse]
        cases found with
        | some name => rfl
        | none =>
            cases accepted : acceptName known value.found with
            | error mismatch => rfl
            | ok name => exact ih (some name)
      · simp only [isTag, if_false, ih]
        cases splitTag tag known found members <;> rfl

theorem Fields.ofItems_collapse (expected : String) : (fields : Fields) → fields.flat = true →
    (index : Nat) → (items : List Json) →
    fields.ofItems expected index (items.map collapse) =
      (fields.ofItems expected index items).map fun (values, left) => (values, left.map collapse)
  | .nil, _, _, _ => rfl
  | .required _ (.scalar kind) rest, flat, index, [] => rfl
  | .required _ (.scalar kind) rest, flat, index, j :: items
  | .optional _ (.scalar kind) rest, flat, index, j :: items => by
      have others := rest.ofItems_collapse expected flat (index + 1) items
      simp only [List.map_cons, Fields.ofItems, Shape.ofJson, found_collapse, others]
      cases kind.accept j.found with
      | error mismatch => rfl
      | ok value => cases rest.ofItems expected (index + 1) items <;> rfl
  | .optional _ (.scalar kind) rest, flat, index, [] => by
      have others := rest.ofItems_collapse expected flat (index + 1) []
      rw [List.map_nil] at others ⊢
      rw [Fields.ofItems]
      cases all : rest.ofItems expected (index + 1) [] with
      | error mismatch => rfl
      | ok pair =>
          rw [all] at others
          obtain ⟨values, left⟩ := pair
          have same : left = left.map collapse := congrArg Prod.snd (Except.ok.inj others)
          exact congrArg (fun l => Except.ok ((none, values), l)) same

theorem Fields.putMember_collapse (known : List String) (name : String) (j : Json) :
    (fields : Fields) → fields.flat = true → (slots : fields.Slots) →
    fields.putMember known name j.collapse slots = fields.putMember known name j slots
  | .nil, _, () => rfl
  | .required field (.scalar kind) rest, flat, (slot, slots)
  | .optional field (.scalar kind) rest, flat, (slot, slots) => by
      have others := rest.putMember_collapse known name j flat slots
      simp only [Fields.putMember, Shape.ofJson, found_collapse, others]

def Content.collapse : Content → Content
  | .items all => .items (all.map Json.collapse)
  | .members all => .members (all.map fun m => (m.1, m.2.collapse))

theorem Fields.ofMembers_collapse (known : List String) {fields : Fields} (flat : fields.flat = true)
    (members : List (String × Json)) :
    fields.ofMembers .refused (fun name json => fields.putMember known name json)
        (members.map fun m => (m.1, m.2.collapse)) =
      fields.ofMembers .refused (fun name json => fields.putMember known name json) members := by
  simp [Fields.ofMembers, List.foldlM_map, fields.putMember_collapse known _ _ flat]

theorem Cases.ofContent_collapse : (cases : Cases) → cases.flat = true → (name : String) →
    (content : Content) → cases.ofContent name content.collapse = cases.ofContent name content
  | .nil, _, _, _ => rfl
  | .cons known label fields rest, flat, name, content => by
      obtain ⟨flatFields, flatRest⟩ := Bool.and_eq_true_iff.1 flat
      rw [Cases.ofContent, Cases.ofContent, rest.ofContent_collapse flatRest]
      cases content with
      | items items =>
          have all := fields.ofItems_collapse (fields.counted label) flatFields 0 items
          simp only [Content.collapse, Content.accept, all, List.length_map]
          cases fields.ofItems (fields.counted label) 0 items with
          | error mismatch => rfl
          | ok pair =>
              obtain ⟨values, left⟩ := pair
              cases left <;> simp [Except.map, bind, Except.bind]
      | members members =>
          simp only [Content.collapse, Content.accept, Fields.ofMembers_collapse _ flatFields]

theorem asOptional_agrees {α : Type} {ofWritten ofJson : Json → Except Mismatch α} {j : Json}
    (inner : Agree (ofWritten j) (ofJson j.collapse)) :
    Agree (asOptional ofWritten j) (asOptional ofJson j.collapse) := by
  match j with
  | .leaf .null => exact Agree.refl _
  | .leaf (.boolean _) | .leaf (.number _) | .leaf (.text _) => exact inner.map some
  | .array _ | .object _ => exact inner.map some

theorem asList_agrees {α : Type} {ofWritten ofJson : Json → Except Mismatch α} {j : Json}
    (each : ∀ items, j = .array items → ∀ i ∈ items, Agree (ofWritten i) (ofJson i.collapse)) :
    Agree (asList ofWritten j) (asList ofJson j.collapse) := by
  cases j with
  | leaf l => exact Agree.refl _
  | array items =>
      rw [collapse_array]
      exact Agree.mapM (each items rfl)
  | object members => exact Agree.of_errors

theorem asRecord_agrees {α : Type} {label : String}
    {writtenItems ofItems : List Json → Except Mismatch (α × List Json)}
    {writtenMembers ofMembers : List (String × Json) → Except Mismatch α} {j : Json}
    (inOrder : ∀ items, j = .array items → ∀ value,
      writtenItems items = .ok (value, []) ↔ ofItems (items.map collapse) = .ok (value, []))
    (byName : ∀ members, j = .object members → (members.map Prod.fst).Nodup ∧
      Agree (writtenMembers members) (ofMembers (members.map fun m => (m.1, m.2.collapse)))) :
    Agree (asRecord label writtenItems writtenMembers j)
      (asRecord label ofItems ofMembers j.collapse) := by
  cases j with
  | leaf l => exact Agree.refl _
  | array items =>
      intro value
      rw [collapse_array, asRecord_array_iff, asRecord_array_iff]
      exact inOrder items rfl value
  | object members =>
      obtain ⟨distinct, agree⟩ := byName members rfl
      rw [collapse_object distinct]
      exact agree

theorem asChoice_agrees {α : Type} {names : List String} {ofName : String → Except Mismatch α}
    {ofWritten ofCarried : String → Json → Except Mismatch α} {j : Json}
    (byName : ∀ members, j = .object members → (members.map Prod.fst).Nodup ∧
      ∀ m ∈ members, Agree (ofWritten m.1 m.2) (ofCarried m.1 m.2.collapse)) :
    Agree (asChoice names ofName ofWritten j) (asChoice names ofName ofCarried j.collapse) := by
  match j with
  | .leaf (.text s) => exact Agree.refl _
  | .leaf .null | .leaf (.boolean _) | .leaf (.number _) | .array _ => exact Agree.of_errors
  | .object members =>
      obtain ⟨distinct, agree⟩ := byName members rfl
      intro value
      rw [collapse_object distinct, asChoice_object_iff, asChoice_object_iff]
      constructor
      · intro h
        obtain ⟨name, j, rfl, member, accepted⟩ := h
        exact ⟨name, j.collapse, rfl, member, (agree (name, j) (List.mem_singleton.2 rfl) _).1 accepted⟩
      · intro h
        obtain ⟨name, j', heq, member, accepted⟩ := h
        obtain ⟨⟨name', j⟩, rfl, pair⟩ := List.map_eq_singleton_iff.1 heq
        cases pair
        exact ⟨name', j, rfl, member, (agree (name', j) (List.mem_singleton.2 rfl) _).2 accepted⟩

theorem Carrying.accept_agrees {α : Type} {way : Carrying}
    {ofWritten ofJson : Json → Except Mismatch α} {j : Json}
    (noLeaf : way = .fields → ∀ l value, ofWritten (.leaf l) ≠ .ok value)
    (noArray : way = .fields → ∀ items, j ≠ .array items)
    (agree : Agree (ofWritten j) (ofJson j.collapse)) :
    Agree (ofWritten j) (way.accept ofJson j.collapse) := by
  cases j with
  | leaf l =>
      cases way with
      | value => exact agree
      | fields =>
          intro value
          constructor
          · exact fun h => absurd h (noLeaf rfl l value)
          · exact fun h => by cases h
  | array items =>
      cases way with
      | value => exact agree
      | fields => exact absurd rfl (noArray rfl items)
  | object members => exact agree

theorem Shape.ofWritten_record_leaf {shape : Shape} (isRecord : shape.isRecord = true) (l : Leaf)
    (value : shape.Value) : shape.ofWritten (.leaf l) ≠ .ok value := by
  cases shape with
  | record label extra fields => exact fun h => by cases h
  | _ => cases isRecord

theorem asTagged_collapse {α : Type} (label tag : String) (names : List String)
    {ofContent : String → Content → Except Mismatch α}
    (same : ∀ name content, ofContent name content.collapse = ofContent name content) {j : Json}
    (distinct : ∀ members, j = .object members → (members.map Prod.fst).Nodup) :
    asTagged label tag names ofContent j.collapse = asTagged label tag names ofContent j := by
  match j with
  | .leaf l => rfl
  | .array [] => rfl
  | .array (first :: items) =>
      rw [collapse_array, List.map_cons]
      unfold asTagged
      simp only [found_collapse]
      exact congrArg (acceptName names first.found >>= ·) (funext fun name => same name (.items items))
  | .object members =>
      rw [collapse_object (distinct members rfl)]
      unfold asTagged
      simp only [splitTag_collapse]
      cases splitTag tag names none members with
      | error mismatch => rfl
      | ok pair => exact same pair.1 (.members pair.2)

theorem item_then_iff {ε α β γ δ : Type} {x x' : Except ε α} {y y' : Except ε (β × List δ)}
    (f : α → γ) (head : Agree x x') (tail : ∀ values, y = .ok (values, []) ↔ y' = .ok (values, []))
    {values : γ × β} :
    (do
        let value ← x
        let (values, items) ← y
        return ((f value, values), items)) = .ok (values, []) ↔
      (do
        let value ← x'
        let (values, items) ← y'
        return ((f value, values), items)) = .ok (values, []) := by
  simp only [bind_eq_ok_iff, head _, Prod.exists]
  refine exists_congr fun value => and_congr_right fun _ => ?_
  constructor
  · intro h
    obtain ⟨others, left, all, heq⟩ := h
    cases heq
    exact ⟨others, [], (tail others).1 all, rfl⟩
  · intro h
    obtain ⟨others, left, all, heq⟩ := h
    cases heq
    exact ⟨others, [], (tail others).2 all, rfl⟩

mutual

/-- A shape is read alike from a regular JSON value as it is written and from the value collapsed. -/
theorem Shape.ofWritten_agrees : (shape : Shape) → shape.plain = true → (j : Json) →
    shape.Regular j → Agree (shape.ofWritten j) (shape.ofJson j.collapse)
  | .scalar kind, _, j, _ => by
      rw [Shape.ofWritten, Shape.ofJson, found_collapse]
      exact Agree.refl _
  | .json, _, j, _ => by
      rw [Shape.ofWritten, Shape.ofJson, Value.ofJson_collapse]
      exact Agree.refl _
  | .optional inner, plain, j, regular => asOptional_agrees (inner.ofWritten_agrees plain j regular)
  | .list item, plain, j, regular => by
      refine asList_agrees fun items heq i member => ?_
      subst heq
      exact item.ofWritten_agrees plain i (regular i member)
  | .record label extra fields, plain, j, regular => by
      rw [Shape.plain, Bool.and_eq_true, beq_iff_eq] at plain
      obtain ⟨rfl, plain⟩ := plain
      refine asRecord_agrees (fun items heq value => ?_) (fun members heq => ?_)
      · subst heq
        exact fields.ofWrittenItems_iff _ plain 0 items regular value
      · subst heq
        obtain ⟨distinct, each⟩ := regular
        refine ⟨distinct, Agree.bind (Agree.foldlM (fun m member slots => ?_) _)
          fun slots => Agree.refl _⟩
        exact fields.putWritten_agrees _ plain m.1 m.2 (each m member) slots
  | .choice variants, plain, j, regular => by
      refine asChoice_agrees fun members heq => ?_
      subst heq
      exact ⟨regular.1, fun m member => variants.ofWritten_agrees plain m.1 m.2 (regular.2 m member)⟩
  | .tagged label tag cases, flat, j, regular => by
      have same := asTagged_collapse label tag cases.names
        (cases.ofContent_collapse flat) (j := j) fun members heq => by
          subst heq
          exact regular
      exact fun value => Iff.of_eq (congrArg (· = Except.ok value) same.symm)

theorem Fields.ofWrittenItems_iff (expected : String) : (fields : Fields) → fields.plain = true →
    (index : Nat) → (items : List Json) → fields.RegularItems items → (values : fields.Value) →
    (fields.ofWrittenItems expected index items = .ok (values, []) ↔
      fields.ofItems expected index (items.map collapse) = .ok (values, []))
  | .nil, _, _, [], _, () => Iff.rfl
  | .nil, _, _, _ :: _, _, () => by
      constructor
      · intro h
        cases h
      · intro h
        cases h
  | .required _ shape rest, plain, index, [], regular, values => by
      simp [Fields.ofWrittenItems, Fields.ofItems]
  | .required _ shape rest, plain, index, j :: items, regular, values => by
      obtain ⟨plainShape, plainRest⟩ := Bool.and_eq_true_iff.1 plain
      exact item_then_iff id (shape.ofWritten_agrees plainShape j regular.1)
        (rest.ofWrittenItems_iff expected plainRest (index + 1) items regular.2)
  | .optional _ shape rest, plain, index, [], regular, (value, values) => by
      obtain ⟨-, plainRest⟩ := Bool.and_eq_true_iff.1 plain
      have regularRest : rest.RegularItems [] := by
        cases rest <;> trivial
      have others := rest.ofWrittenItems_iff expected plainRest (index + 1) [] regularRest
      constructor
      · intro h
        obtain ⟨⟨values', left⟩, all, heq⟩ := bind_eq_ok_iff.1 h
        cases heq
        exact bind_eq_ok_iff.2 ⟨_, (others _).1 all, rfl⟩
      · intro h
        obtain ⟨⟨values', left⟩, all, heq⟩ := bind_eq_ok_iff.1 h
        cases heq
        exact bind_eq_ok_iff.2 ⟨_, (others _).2 all, rfl⟩
  | .optional _ shape rest, plain, index, j :: items, regular, values => by
      obtain ⟨plainShape, plainRest⟩ := Bool.and_eq_true_iff.1 plain
      exact item_then_iff some (shape.ofWritten_agrees plainShape j regular.1)
        (rest.ofWrittenItems_iff expected plainRest (index + 1) items regular.2)

theorem Fields.putWritten_agrees (known : List String) : (fields : Fields) →
    fields.plain = true → (name : String) → (j : Json) → fields.RegularMember name j →
    (slots : fields.Slots) →
    Agree (fields.putWritten known name j slots) (fields.putMember known name j.collapse slots)
  | .nil, _, _, _, _, () => Agree.refl _
  | .required field shape rest, plain, name, j, regular, (slot, slots)
  | .optional field shape rest, plain, name, j, regular, (slot, slots) => by
      obtain ⟨plainShape, plainRest⟩ := Bool.and_eq_true_iff.1 plain
      simp only [Fields.putWritten, Fields.putMember]
      by_cases same : field = name
      · rw [if_pos same, if_pos same]
        cases slot with
        | some value => exact Agree.refl _
        | none => exact (shape.ofWritten_agrees plainShape j (regular.1 same)).map _
      · rw [if_neg same, if_neg same]
        exact (rest.putWritten_agrees known plainRest name j regular.2 slots).map _

theorem Variants.ofWritten_agrees : (variants : Variants) → variants.plain = true →
    (name : String) → (j : Json) → variants.Regular name j →
    Agree (variants.ofWritten name j) (variants.ofCarried name j.collapse)
  | .nil, _, _, _, _ => Agree.refl _
  | .bare known rest, plain, name, j, regular => by
      rw [Variants.ofWritten, Variants.ofCarried, found_collapse]
      by_cases same : known = name
      · rw [if_pos same, if_pos same]
        exact Agree.refl _
      · rw [if_neg same, if_neg same]
        exact (rest.ofWritten_agrees plain name j regular).map _
  | .carrying known way shape rest, plain, name, j, regular => by
      obtain ⟨both, isRecord⟩ := Bool.and_eq_true_iff.1 plain
      obtain ⟨plainShape, plainRest⟩ := Bool.and_eq_true_iff.1 both
      rw [Variants.ofWritten, Variants.ofCarried]
      by_cases same : known = name
      · rw [if_pos same, if_pos same]
        obtain ⟨regularShape, noArray⟩ := regular.1 same
        refine (Carrying.accept_agrees ?_ noArray
          (shape.ofWritten_agrees plainShape j regularShape)).map _
        rintro rfl
        exact Shape.ofWritten_record_leaf isRecord
      · rw [if_neg same, if_neg same]
        exact (rest.ofWritten_agrees plainRest name j regular.2).map _

end

end GeoQuery
