import GeoQuery.Proofs.Json.Render
import GeoQuery.Proofs.Shape.Collapse
import GeoQuery.Shape.Write

/-!
What a shape writes is what it reads. The writer and the reader of a shape go through its names on
their own; where no name stands for two things, and null stands for nothing else than a value left
out, the reader gives back every value, with its numbers as their texts are read.
-/

namespace GeoQuery

open Json Outcome

/-- What the reader of JSON numbers takes from the text of a number. Only finite numbers have one. -/
def Binary64.reread : Binary64 → Binary64
  | .finite x => .finite x.reread
  | x => x

namespace Json

theorem rereadMembers_eq_map (members : List (String × Json)) :
    rereadMembers members = members.map fun m => (m.1, m.2.reread) := by
  induction members with
  | nil => rfl
  | cons m members ih => rw [rereadMembers, ih, List.map_cons]

theorem rereadMembers_names (members : List (String × Json)) :
    (rereadMembers members).map Prod.fst = members.map Prod.fst := by
  rw [rereadMembers_eq_map, List.map_map]
  rfl

mutual

theorem distinct_reread : (j : Json) → j.Distinct → j.reread.Distinct
  | .leaf _, _ => trivial
  | .array items, distinct => distinct_rereadItems items distinct
  | .object members, ⟨names, distinct⟩ => by
      refine ⟨?_, distinct_rereadMembers members distinct⟩
      rw [rereadMembers_names]
      exact names

theorem distinct_rereadItems : (items : List Json) → DistinctItems items →
    DistinctItems (rereadItems items)
  | [], _ => trivial
  | item :: items, ⟨head, tail⟩ => ⟨item.distinct_reread head, distinct_rereadItems items tail⟩

theorem distinct_rereadMembers : (members : List (String × Json)) → DistinctMembers members →
    DistinctMembers (rereadMembers members)
  | [], _ => trivial
  | (_, value) :: members, ⟨head, tail⟩ =>
      ⟨value.distinct_reread head, distinct_rereadMembers members tail⟩

end

def Value.reread (v : Value) : Value := ⟨v.json.reread, v.json.distinct_reread v.distinct⟩

end Json

def Scalar.reread : (kind : Scalar) → kind.Value → kind.Value
  | .number, x => x.reread
  | .text, s => s
  | .word64, n => n
  | .word32, n => n
  | .flag, b => b
  | .nothing, () => ()

mutual

/-- The value with its numbers as their texts are read, those inside its JSON values too. -/
def Shape.reread : (shape : Shape) → shape.Value → shape.Value
  | .scalar kind, value => kind.reread value
  | .json, value => Json.Value.reread value
  | .optional inner, value => Option.map (fun value => inner.reread value) value
  | .list item, values => List.map (fun value => item.reread value) values
  | .record _ _ fields, values => fields.reread values
  | .choice variants, value => variants.reread value
  | .tagged _ _ cases, value => cases.reread value

def Fields.reread : (fields : Fields) → fields.Value → fields.Value
  | .nil, () => ()
  | .required _ shape rest, (value, values) => (shape.reread value, rest.reread values)
  | .optional _ shape rest, (value, values) =>
    (Option.map (fun value => shape.reread value) value, rest.reread values)

def Variants.reread : (variants : Variants) → variants.Value → variants.Value
  | .bare _ _, .inl () => .inl ()
  | .bare _ rest, .inr value => .inr (rest.reread value)
  | .carrying _ _ shape _, .inl value => .inl (shape.reread value)
  | .carrying _ _ _ rest, .inr value => .inr (rest.reread value)

def Cases.reread : (cases : Cases) → cases.Value → cases.Value
  | .cons _ _ fields _, .inl values => .inl (fields.reread values)
  | .cons _ _ _ rest, .inr value => .inr (rest.reread value)

end

section Writable

variable (inside : Nat)

def Scalar.Writable : (kind : Scalar) → kind.Value → Prop
  | .number, x => x.isFinite = true
  | _, _ => True

mutual

/-- All numbers of the value are finite, and its JSON values open no more than `inside` brackets. -/
def Shape.Writable : (shape : Shape) → shape.Value → Prop
  | .scalar kind, value => kind.Writable value
  | .json, value => nesting (Json.Value.json value) ≤ inside
  | .optional inner, value =>
    match value with
    | none => True
    | some value => inner.Writable value
  | .list item, values => values.Forall fun value => item.Writable value
  | .record _ _ fields, values => fields.Writable values
  | .choice variants, value => variants.Writable value
  | .tagged _ _ cases, value => cases.Writable value

def Fields.Writable : (fields : Fields) → fields.Value → Prop
  | .nil, () => True
  | .required _ shape rest, (value, values) => shape.Writable value ∧ rest.Writable values
  | .optional _ shape rest, (value, values) =>
    match value with
    | none => rest.Writable values
    | some value => shape.Writable value ∧ rest.Writable values

def Variants.Writable : (variants : Variants) → variants.Value → Prop
  | .bare _ _, .inl () => True
  | .bare _ rest, .inr value => rest.Writable value
  | .carrying _ _ shape _, .inl value => shape.Writable value
  | .carrying _ _ _ rest, .inr value => rest.Writable value

def Cases.Writable : (cases : Cases) → cases.Value → Prop
  | .cons _ _ fields _, .inl values => fields.Writable values
  | .cons _ _ _ rest, .inr value => rest.Writable value

end

end Writable

/-- No value of the shape is written as null. -/
def Shape.solid : Shape → Bool
  | .scalar .nothing | .json | .optional _ => false
  | _ => true

mutual

/-- No name stands for two things, and a null for a value left out only. -/
def Shape.faithful : Shape → Bool
  | .scalar _ | .json => true
  | .optional inner => inner.solid && inner.faithful
  | .list item => item.faithful
  | .record _ extra fields => extra == .refused && fields.faithful
  | .choice variants => variants.faithful
  | .tagged _ tag cases => cases.faithful tag

def Fields.faithful : Fields → Bool
  | .nil => true
  | .required name shape rest | .optional name shape rest =>
    !rest.names.contains name && shape.faithful && rest.faithful

def Variants.faithful : Variants → Bool
  | .nil => true
  | .bare name rest => !rest.names.contains name && rest.faithful
  | .carrying name _ shape rest => !rest.names.contains name && shape.faithful && rest.faithful

def Cases.faithful (tag : String) : Cases → Bool
  | .nil => true
  | .cons name _ fields rest =>
    !rest.names.contains name && !fields.names.contains tag && fields.flat && fields.faithful &&
      rest.faithful tag

end

theorem Scalar.accept_toJson (kind : Scalar) (value : kind.Value)
    (writable : kind.Writable value) :
    kind.accept (kind.toJson value).reread.found = .ok (kind.reread value) := by
  cases kind with
  | text | flag | nothing => rfl
  | number =>
      cases value with
      | finite x => rfl
      | infinite negative => cases writable
      | nan => cases writable
  | word64 =>
      simp only [Scalar.toJson, Json.reread, Leaf.reread, Number.reread, Json.found, Scalar.accept,
        Integer.ofUInt64, Integer.ofNat, Scalar.reread, Int.natCast_nonneg, if_true, Int.toNat_natCast]
      exact congrArg Except.ok UInt64.ofNat_toNat
  | word32 =>
      have small : ((UInt32.toNat value : Nat) : Int) < 0x100000000 := by
        have := UInt32.toNat_lt value
        omega
      simp only [Scalar.toJson, Json.reread, Leaf.reread, Number.reread, Json.found, Scalar.accept,
        Integer.ofUInt32, Integer.ofNat, Scalar.reread, Int.natCast_nonneg, small, and_self, if_true,
        Int.toNat_natCast]
      exact congrArg Except.ok UInt32.ofNat_toNat

def Fields.slotsOf : (fields : Fields) → fields.Value → fields.Slots
  | .nil, () => ()
  | .required _ _ rest, (value, values) => (some value, rest.slotsOf values)
  | .optional _ _ rest, (value, values) => (value, rest.slotsOf values)

theorem Fields.ofSlots_slotsOf : (fields : Fields) → (values : fields.Value) →
    fields.ofSlots (fields.slotsOf values) = .ok values
  | .nil, () => rfl
  | .required _ _ rest, (value, values) => by
      rw [slotsOf, ofSlots, rest.ofSlots_slotsOf values]
      rfl
  | .optional _ _ rest, (value, values) => by
      rw [slotsOf, ofSlots, rest.ofSlots_slotsOf values]
      rfl

theorem Fields.name_mem_of_toMembers : (fields : Fields) → (values : fields.Value) →
    ∀ m ∈ rereadMembers (fields.toMembers values), m.1 ∈ fields.names
  | .nil, () => fun m member => nomatch member
  | .required name shape rest, (value, values)
  | .optional name shape rest, (some value, values) => by
      intro m member
      rw [toMembers, rereadMembers] at member
      rcases List.mem_cons.1 member with rfl | member
      · exact List.mem_cons_self ..
      · exact List.mem_cons_of_mem _ (rest.name_mem_of_toMembers values m member)
  | .optional name shape rest, (none, values) => by
      intro m member
      exact List.mem_cons_of_mem _ (rest.name_mem_of_toMembers values m member)

section Slots

variable {α σ ε : Type} (put : String → Json → σ → Except ε σ)
variable (putBoth : String → Json → α × σ → Except ε (α × σ)) {members : List (String × Json)}
variable {slot : α} {slots filled : σ}

theorem foldlM_behind
    (behind : ∀ m ∈ members, ∀ slot slots,
      putBoth m.1 m.2 (slot, slots) = (put m.1 m.2 slots).map fun slots => (slot, slots))
    (rest : members.foldlM (fun slots m => put m.1 m.2 slots) slots = .ok filled) :
    members.foldlM (fun both m => putBoth m.1 m.2 both) (slot, slots) = .ok (slot, filled) := by
  induction members generalizing slots with
  | nil =>
      cases rest
      rfl
  | cons m members ih =>
      obtain ⟨next, head, tail⟩ := bind_eq_ok_iff.1 rest
      have head : put m.1 m.2 slots = .ok next := head
      rw [List.foldlM_cons, behind m (List.mem_cons_self ..), head]
      exact ih (fun m member => behind m (List.mem_cons_of_mem _ member)) tail

theorem foldlM_first {name : String} {j : Json} {empty : α × σ}
    (own : putBoth name j empty = .ok (slot, slots))
    (behind : ∀ m ∈ members, ∀ slot slots,
      putBoth m.1 m.2 (slot, slots) = (put m.1 m.2 slots).map fun slots => (slot, slots))
    (rest : members.foldlM (fun slots m => put m.1 m.2 slots) slots = .ok filled) :
    ((name, j) :: members).foldlM (fun both m => putBoth m.1 m.2 both) empty =
      .ok (slot, filled) := by
  rw [List.foldlM_cons]
  exact bind_eq_ok_iff.2 ⟨_, own, foldlM_behind put putBoth behind rest⟩

end Slots

theorem Fields.putMember_eq_putWritten (known : List String) (name : String) (j : Json) :
    (fields : Fields) → fields.flat = true → (slots : fields.Slots) →
    fields.putMember known name j slots = fields.putWritten known name j slots
  | .nil, _, () => rfl
  | .required field (.scalar kind) rest, flat, (slot, slots)
  | .optional field (.scalar kind) rest, flat, (slot, slots) => by
      have others := rest.putMember_eq_putWritten known name j flat slots
      cases slot <;>
        simp only [Fields.putMember, Fields.putWritten, Shape.ofJson, Shape.ofWritten, others]

theorem Fields.putWritten_required_behind {known : List String} {field name : String}
    {shape : Shape} {rest : Fields} (other : field ≠ name) (j : Json) (slot : Option shape.Value)
    (slots : rest.Slots) :
    (Fields.required field shape rest).putWritten known name j (slot, slots) =
      (rest.putWritten known name j slots).map (fun slots => (slot, slots)) := by
  simp only [Fields.putWritten, if_neg other]
  rfl

theorem Fields.putWritten_optional_behind {known : List String} {field name : String}
    {shape : Shape} {rest : Fields} (other : field ≠ name) (j : Json) (slot : Option shape.Value)
    (slots : rest.Slots) :
    (Fields.optional field shape rest).putWritten known name j (slot, slots) =
      (rest.putWritten known name j slots).map (fun slots => (slot, slots)) := by
  simp only [Fields.putWritten, if_neg other]
  rfl

theorem Variants.toJson_ne_null : (variants : Variants) → (value : variants.Value) →
    (variants.toJson value).reread ≠ .leaf .null
  | .bare _ _, .inl () => fun h => nomatch h
  | .bare _ rest, .inr value => rest.toJson_ne_null value
  | .carrying _ _ _ _, .inl _ => fun h => nomatch h
  | .carrying _ _ _ rest, .inr value => rest.toJson_ne_null value

theorem splitTag_absent {tag name : String} {known : List String} {others : List (String × Json)}
    (absent : ∀ m ∈ others, m.1 ≠ tag) :
    splitTag tag known (some name) others = .ok (name, others) := by
  induction others with
  | nil => rfl
  | cons m others ih =>
      obtain ⟨key, value⟩ := m
      rw [splitTag, if_neg (absent _ (List.mem_cons_self ..)),
        ih fun m member => absent m (List.mem_cons_of_mem _ member)]
      rfl

/-- A tagged record is read by its tag, if that comes first and is no name of a field. -/
theorem asTagged_of_tag_first {α : Type} (label : String) {tag name : String}
    {names : List String} (ofContent : String → Content → Except Mismatch α)
    {others : List (String × Json)}
    (known : names.contains name = true) (absent : ∀ m ∈ others, m.1 ≠ tag) :
    asTagged label tag names ofContent (.object ((tag, .leaf (.text name)) :: others)) =
      ofContent name (.members others) := by
  simp only [asTagged, splitTag, if_true, Json.found, acceptName, known, Option.isSome_none,
    Bool.false_eq_true, if_false, bind, Except.bind, splitTag_absent absent]

theorem Shape.toJson_ne_null {inside : Nat} : {shape : Shape} → shape.solid = true →
    (value : shape.Value) → shape.Writable inside value → (shape.toJson value).reread ≠ .leaf .null
  | .scalar .text, _, _, _ | .scalar .word64, _, _, _ | .scalar .word32, _, _, _
  | .scalar .flag, _, _, _ => fun h => nomatch h
  | .scalar .number, _, .finite _, _ => fun h => nomatch h
  | .list _, _, _, _ | .record _ _ _, _, _, _ | .tagged _ _ _, _, _, _ => fun h => nomatch h
  | .choice variants, _, value, _ => variants.toJson_ne_null value

theorem mapM_reread {α : Type} {write : α → Json} {read : Json → Except Mismatch α} {f : α → α}
    {values : List α} (each : ∀ value ∈ values, read (write value).reread = .ok (f value)) :
    (rereadItems (values.map write)).mapM read = .ok (values.map f) := by
  induction values with
  | nil => rfl
  | cons value values ih =>
      rw [List.map_cons, rereadItems, List.mapM_cons, each value (List.mem_cons_self ..),
        ih fun value member => each value (List.mem_cons_of_mem _ member)]
      rfl

theorem Fields.ofMembers_of_slots {fields : Fields} {values : fields.Value}
    (put : String → Json → fields.Slots → Except Mismatch fields.Slots)
    {members : List (String × Json)}
    (filled : members.foldlM (fun slots m => put m.1 m.2 slots) fields.emptySlots =
      .ok (fields.slotsOf values)) :
    fields.ofMembers .refused put members = .ok values := by
  have none : ∀ name, ¬ (Extra.refused = .ignored ∧ (!fields.names.contains name) = true) :=
    fun name h => nomatch h.1
  simp only [ofMembers, none, if_false, filled]
  exact fields.ofSlots_slotsOf values

theorem Fields.other_of_toMembers {name : String} {rest : Fields}
    (absent : rest.names.contains name = false) (values : rest.Value) :
    ∀ m ∈ rereadMembers (rest.toMembers values), name ≠ m.1 := by
  rintro m member rfl
  have known := rest.name_mem_of_toMembers values m member
  rw [List.contains_iff_mem.2 known] at absent
  cases absent

theorem contains_behind {names : List String} {name : String} (first : String)
    (known : names.contains name = true) : (first :: names).contains name = true := by
  rw [List.contains_cons, known, Bool.or_true]

theorem not_contains_mem {names : List String} {name other : String}
    (absent : (!names.contains name) = true) (known : names.contains other = true) :
    name ≠ other := by
  rintro rfl
  rw [known] at absent
  cases absent

mutual

/-- What a shape writes is read back by the shape. -/
theorem Shape.ofWritten_toJson {inside : Nat} : (shape : Shape) → shape.faithful = true →
    (value : shape.Value) → shape.Writable inside value →
    shape.ofWritten (shape.toJson value).reread = .ok (shape.reread value)
  | .scalar kind, _, value, writable => kind.accept_toJson value writable
  | .json, _, value, _ => congrArg Except.ok (Value.ofJson_of_distinct (Value.reread value).distinct)
  | .optional inner, faithful, none, _ => rfl
  | .optional inner, faithful, some value, writable => by
      rw [Shape.faithful, Bool.and_eq_true] at faithful
      have solid := Shape.toJson_ne_null faithful.1 value writable
      have read := inner.ofWritten_toJson faithful.2 value writable
      have all := asOptional_of_ne_null (fun json => inner.ofWritten json) solid
      rw [read] at all
      exact all
  | .list item, faithful, values, writable => by
      have each : ∀ value ∈ (show List item.Value from values), item.Writable inside value :=
        List.forall_iff_forall_mem.1 writable
      exact mapM_reread fun value member => item.ofWritten_toJson faithful value (each value member)
  | .record label extra fields, faithful, values, writable => by
      rw [Shape.faithful, Bool.and_eq_true, beq_iff_eq] at faithful
      obtain ⟨rfl, faithful⟩ := faithful
      exact Fields.ofMembers_of_slots (fun name json => fields.putWritten fields.names name json)
        (fields.put_toMembers fields.names faithful values writable)
  | .choice variants, faithful, value, writable => by
      obtain ⟨name, text, known, read⟩ | ⟨name, j, object, known, read⟩ :=
        variants.ofWritten_toJson faithful value writable
      · change asChoice _ _ _ (variants.toJson value).reread = .ok (variants.reread value)
        simpa only [text, asChoice, acceptName, known, if_true, bind, Except.bind] using read
      · change asChoice _ _ _ (variants.toJson value).reread = .ok (variants.reread value)
        simpa only [object, asChoice, acceptName, known, if_true, bind, Except.bind] using read
  | .tagged label tag cases, faithful, value, writable => by
      obtain ⟨name, others, known, text, absent, content⟩ :=
        cases.ofContent_toMembers faithful value writable
      have first := asTagged_of_tag_first label (fun name content => cases.ofContent name content)
        known absent
      rw [content, ← text] at first
      exact first

theorem Fields.put_toMembers {inside : Nat} (known : List String) : (fields : Fields) →
    fields.faithful = true → (values : fields.Value) → fields.Writable inside values →
    (rereadMembers (fields.toMembers values)).foldlM
      (fun slots m => fields.putWritten known m.1 m.2 slots) fields.emptySlots =
        .ok (fields.slotsOf (fields.reread values))
  | .nil, _, (), _ => rfl
  | .required name shape rest, faithful, (value, values), writable => by
      simp only [Fields.faithful, Bool.and_eq_true, Bool.not_eq_true'] at faithful
      obtain ⟨⟨absent, faithfulShape⟩, faithfulRest⟩ := faithful
      have read := shape.ofWritten_toJson faithfulShape value writable.1
      have filled := rest.put_toMembers known faithfulRest values writable.2
      have first : (Fields.required name shape rest).putWritten known name
          (shape.toJson value).reread (none, rest.emptySlots) =
            .ok (some (shape.reread value), rest.emptySlots) := by
        simp only [Fields.putWritten, if_true, read]
        rfl
      -- The names behind the first one are those of other fields.
      exact foldlM_first (fun field json => rest.putWritten known field json)
        (fun field json => (Fields.required name shape rest).putWritten known field json) first
        (fun m member => Fields.putWritten_required_behind
          (Fields.other_of_toMembers absent values m member) m.2) filled
  | .optional name shape rest, faithful, (none, values), writable => by
      simp only [Fields.faithful, Bool.and_eq_true, Bool.not_eq_true'] at faithful
      obtain ⟨⟨absent, -⟩, faithfulRest⟩ := faithful
      have filled := rest.put_toMembers known faithfulRest values writable
      exact foldlM_behind (fun field json => rest.putWritten known field json)
        (fun field json => (Fields.optional name shape rest).putWritten known field json)
        (fun m member => Fields.putWritten_optional_behind
          (Fields.other_of_toMembers absent values m member) m.2) filled
  | .optional name shape rest, faithful, (some value, values), writable => by
      simp only [Fields.faithful, Bool.and_eq_true, Bool.not_eq_true'] at faithful
      obtain ⟨⟨absent, faithfulShape⟩, faithfulRest⟩ := faithful
      have read := shape.ofWritten_toJson faithfulShape value writable.1
      have filled := rest.put_toMembers known faithfulRest values writable.2
      have first : (Fields.optional name shape rest).putWritten known name
          (shape.toJson value).reread (none, rest.emptySlots) =
            .ok (some (shape.reread value), rest.emptySlots) := by
        simp only [Fields.putWritten, if_true, read]
        rfl
      exact foldlM_first (fun field json => rest.putWritten known field json)
        (fun field json => (Fields.optional name shape rest).putWritten known field json) first
        (fun m member => Fields.putWritten_optional_behind
          (Fields.other_of_toMembers absent values m member) m.2) filled

theorem Variants.ofWritten_toJson {inside : Nat} : (variants : Variants) →
    variants.faithful = true → (value : variants.Value) → variants.Writable inside value →
    (∃ name, (variants.toJson value).reread = .leaf (.text name) ∧
        variants.names.contains name = true ∧
        variants.ofName name = .ok (variants.reread value)) ∨
      ∃ name j, (variants.toJson value).reread = .object [(name, j)] ∧
        variants.names.contains name = true ∧
        variants.ofWritten name j = .ok (variants.reread value)
  | .bare name rest, _, .inl (), _ =>
      .inl ⟨name, rfl, by simp [Variants.names], by simp [Variants.ofName]; rfl⟩
  | .bare name rest, faithful, .inr value, writable => by
      rw [Variants.faithful, Bool.and_eq_true] at faithful
      obtain ⟨absent, faithful⟩ := faithful
      -- The name that is written is one of the rest, so it is not taken for this variant.
      obtain ⟨found, text, known, read⟩ | ⟨found, j, object, known, read⟩ :=
        rest.ofWritten_toJson faithful value writable
      · refine .inl ⟨found, text, contains_behind name known, ?_⟩
        rw [Variants.ofName, if_neg (not_contains_mem absent known), read]
        rfl
      · refine .inr ⟨found, j, object, contains_behind name known, ?_⟩
        rw [Variants.ofWritten, if_neg (not_contains_mem absent known), read]
        rfl
  | .carrying name way shape rest, faithful, .inl value, writable => by
      simp only [Variants.faithful, Bool.and_eq_true] at faithful
      have read := shape.ofWritten_toJson faithful.1.2 value writable
      refine .inr ⟨name, _, rfl, by simp [Variants.names], ?_⟩
      rw [Variants.ofWritten, if_pos rfl, read]
      rfl
  | .carrying name way shape rest, faithful, .inr value, writable => by
      simp only [Variants.faithful, Bool.and_eq_true] at faithful
      obtain ⟨⟨absent, -⟩, faithful⟩ := faithful
      obtain ⟨found, text, known, read⟩ | ⟨found, j, object, known, read⟩ :=
        rest.ofWritten_toJson faithful value writable
      · refine .inl ⟨found, text, contains_behind name known, ?_⟩
        rw [Variants.ofName, if_neg (not_contains_mem absent known), read]
        rfl
      · refine .inr ⟨found, j, object, contains_behind name known, ?_⟩
        rw [Variants.ofWritten, if_neg (not_contains_mem absent known), read]
        rfl

theorem Cases.ofContent_toMembers {inside : Nat} {tag : String} : (cases : Cases) →
    cases.faithful tag = true → (value : cases.Value) → cases.Writable inside value →
    ∃ name others, cases.names.contains name = true ∧
      rereadMembers (cases.toMembers tag value) = (tag, .leaf (.text name)) :: others ∧
      (∀ m ∈ others, m.1 ≠ tag) ∧
      cases.ofContent name (.members others) = .ok (cases.reread value)
  | .cons name label fields rest, faithful, .inl values, writable => by
      simp only [Cases.faithful, Bool.and_eq_true, Bool.not_eq_true'] at faithful
      obtain ⟨⟨⟨⟨-, absent⟩, flat⟩, faithful⟩, -⟩ := faithful
      have filled := fields.put_toMembers fields.names faithful values writable
      simp only [← fields.putMember_eq_putWritten _ _ _ flat] at filled
      have read := Fields.ofMembers_of_slots
        (fun name json => fields.putMember fields.names name json) filled
      refine ⟨name, _, by simp [Cases.names], rfl,
        fun m member => (Fields.other_of_toMembers absent values m member).symm, ?_⟩
      rw [Cases.ofContent, if_pos rfl, Content.accept, read]
      rfl
  | .cons name label fields rest, faithful, .inr value, writable => by
      simp only [Cases.faithful, Bool.and_eq_true] at faithful
      obtain ⟨⟨⟨⟨other, -⟩, -⟩, -⟩, faithful⟩ := faithful
      obtain ⟨found, others, known, text, absent, content⟩ :=
        rest.ofContent_toMembers faithful value writable
      refine ⟨found, others, contains_behind name known, text, absent, ?_⟩
      rw [Cases.ofContent, if_neg (not_contains_mem other known), content]
      rfl

end

section Height

variable (inside : Nat)

mutual

/-- How many brackets a value of the shape opens at once at most, where a JSON value in it opens no
more than `inside`. -/
def Shape.height : Shape → Nat
  | .scalar _ => 0
  | .json => inside
  | .optional inner => inner.height
  | .list item => item.height + 1
  | .record _ _ fields => fields.height + 1
  | .choice variants => variants.height
  | .tagged _ _ cases => cases.height + 1

def Fields.height : Fields → Nat
  | .nil => 0
  | .required _ shape rest | .optional _ shape rest => max shape.height rest.height

def Variants.height : Variants → Nat
  | .nil => 0
  | .bare _ rest => rest.height
  | .carrying _ _ shape rest => max (shape.height + 1) rest.height

def Cases.height : Cases → Nat
  | .nil => 0
  | .cons _ _ fields rest => max fields.height rest.height

end

end Height

theorem nestingItems_le {items : List Json} {n : Nat} (h : ∀ j ∈ items, j.nesting ≤ n) :
    nestingItems items ≤ n := by
  induction items with
  | nil => exact Nat.zero_le n
  | cons item items ih =>
      rw [nestingItems, Nat.max_le]
      exact ⟨h item (List.mem_cons_self ..), ih fun j member => h j (List.mem_cons_of_mem _ member)⟩

theorem Scalar.nesting_toJson (kind : Scalar) (value : kind.Value) :
    (kind.toJson value).nesting = 0 := by
  cases kind with
  | number => cases value <;> rfl
  | text | word64 | word32 | flag | nothing => rfl

mutual

theorem Shape.nesting_toJson {inside : Nat} : (shape : Shape) → (value : shape.Value) →
    shape.Writable inside value → (shape.toJson value).nesting ≤ shape.height inside
  | .scalar kind, value, _ => Nat.le_of_eq (kind.nesting_toJson value)
  | .json, _, writable => writable
  | .optional inner, none, _ => Nat.zero_le _
  | .optional inner, some value, writable => inner.nesting_toJson value writable
  | .list item, values, writable => by
      have each : ∀ value ∈ (show List item.Value from values), item.Writable inside value :=
        List.forall_iff_forall_mem.1 writable
      refine Nat.succ_le_succ (nestingItems_le fun j member => ?_)
      obtain ⟨value, own, rfl⟩ := List.mem_map.1 member
      exact item.nesting_toJson value (each value own)
  | .record _ _ fields, values, writable => Nat.succ_le_succ (fields.nesting_toMembers values writable)
  | .choice variants, value, writable => variants.nesting_toJson value writable
  | .tagged _ _ cases, value, writable => Nat.succ_le_succ (cases.nesting_toMembers value writable)

theorem Fields.nesting_toMembers {inside : Nat} : (fields : Fields) → (values : fields.Value) →
    fields.Writable inside values → nestingMembers (fields.toMembers values) ≤ fields.height inside
  | .nil, (), _ => Nat.le_refl 0
  | .required _ shape rest, (value, values), writable
  | .optional _ shape rest, (some value, values), writable =>
      Nat.max_le.2
        ⟨Nat.le_trans (shape.nesting_toJson value writable.1) (Nat.le_max_left ..),
          Nat.le_trans (rest.nesting_toMembers values writable.2) (Nat.le_max_right ..)⟩
  | .optional _ _ rest, (none, values), writable =>
      Nat.le_trans (rest.nesting_toMembers values writable) (Nat.le_max_right ..)

theorem Variants.nesting_toJson {inside : Nat} : (variants : Variants) →
    (value : variants.Value) → variants.Writable inside value →
    (variants.toJson value).nesting ≤ variants.height inside
  | .bare _ _, .inl (), _ => Nat.zero_le _
  | .bare _ rest, .inr value, writable => rest.nesting_toJson value writable
  | .carrying _ _ shape rest, .inl value, writable => by
      have carried := shape.nesting_toJson value writable
      simp only [Variants.toJson, nesting, nestingMembers, Variants.height]
      omega
  | .carrying _ _ shape rest, .inr value, writable =>
      Nat.le_trans (rest.nesting_toJson value writable) (Nat.le_max_right ..)

theorem Cases.nesting_toMembers {inside : Nat} {tag : String} : (cases : Cases) →
    (value : cases.Value) → cases.Writable inside value →
    nestingMembers (cases.toMembers tag value) ≤ cases.height inside
  | .cons _ _ fields rest, .inl values, writable => by
      have members := fields.nesting_toMembers values writable
      simp only [Cases.toMembers, nestingMembers, Json.text, nesting, Cases.height]
      omega
  | .cons _ _ fields rest, .inr value, writable =>
      Nat.le_trans (rest.nesting_toMembers value writable) (Nat.le_max_right ..)

end

/-- The text of a value of a shape is read back as the value, if the brackets that the shape can open
are not too many. -/
theorem Shape.ofText_compact {inside : Nat} {shape : Shape} (plain : shape.plain = true)
    (faithful : shape.faithful = true) (low : shape.height inside ≤ maxDepth) {value : shape.Value}
    (writable : shape.Writable inside value) :
    shape.ofText (shape.toJson value).compact = .ok (shape.reread value) :=
  (Shape.ofText_eq_ok_iff plain).2
    ⟨_, readWhole_compact (Nat.le_trans (shape.nesting_toJson value writable) low),
      shape.ofWritten_toJson faithful value writable⟩

end GeoQuery
