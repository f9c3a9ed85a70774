import GeoQuery.Proofs.Json.Rows
import GeoQuery.Shape.Text

/-!
Reading a shape from a text is reading the text as a JSON value, with its members as they are
written, and then reading the shape from that value. So two ways to read a text can be compared on
JSON values alone.
-/

namespace GeoQuery

open Json Outcome

mutual

/-- Read a value of a shape from a JSON value as it is written: repeated names count as repeated,
fields that belong to a variant may stand in order, and only what is kept as JSON is collapsed. -/
def Shape.ofWritten : (shape : Shape) → Json → Except Mismatch shape.Value
  | .scalar kind, json => kind.accept json.found
  | .json, json => .ok (.ofJson json)
  | .optional inner, json => asOptional (fun json => inner.ofWritten json) json
  | .list item, json => asList (fun json => item.ofWritten json) json
  | .record label extra fields, json =>
    asRecord label (fun items => fields.ofWrittenItems (fields.counted label) 0 items)
      (fields.ofMembers extra fun name json => fields.putWritten fields.names name json) json
  | .choice variants, json =>
    asChoice variants.names variants.ofName (fun name json => variants.ofWritten name json) json
  | .tagged label tag cases, json =>
    asTagged label tag cases.names (fun name content => cases.ofContent name content) json

def Fields.ofWrittenItems (expected : String) :
    (fields : Fields) → Nat → List Json → Except Mismatch (fields.Value × List Json)
  | .nil, _, items => .ok ((), items)
  | .required _ _ _, index, [] => .error (.invalidLength index expected)
  | .required _ shape rest, index, json :: items => do
    let value ← shape.ofWritten json
    let (values, items) ← rest.ofWrittenItems expected (index + 1) items
    return ((value, values), items)
  | .optional _ _ rest, index, [] => do
    let (values, items) ← rest.ofWrittenItems expected (index + 1) []
    return ((none, values), items)
  | .optional _ shape rest, index, json :: items => do
    let value ← shape.ofWritten json
    let (values, items) ← rest.ofWrittenItems expected (index + 1) items
    return ((some value, values), items)

def Fields.putWritten (known : List String) (name : String) (json : Json) :
    (fields : Fields) → fields.Slots → Except Mismatch fields.Slots
  | .nil, () => .error (.unknownField name known)
  | .required field shape rest, (slot, slots) | .optional field shape rest, (slot, slots) =>
    if field = name then
      match slot with
      | some _ => .error (.duplicateField name)
      | none => (shape.ofWritten json).map fun value => (some value, slots)
    else (rest.putWritten known name json slots).map fun slots => (slot, slots)

def Variants.ofWritten :
    (variants : Variants) → String → Json → Except Mismatch variants.Value
  | .nil, name, _ => .error (.unknownVariant name [])
  | .bare known rest, name, json =>
    if known = name then (Scalar.nothing.accept json.found).map .inl
    else (rest.ofWritten name json).map .inr
  | .carrying known _ shape rest, name, json =>
    if known = name then (shape.ofWritten json).map .inl
    else (rest.ofWritten name json).map .inr

end

def Fields.flat : Fields → Bool
  | .nil => true
  | .required _ (.scalar _) rest | .optional _ (.scalar _) rest => rest.flat
  | .required _ _ _ | .optional _ _ _ => false

def Cases.flat : Cases → Bool
  | .nil => true
  | .cons _ _ fields rest => fields.flat && rest.flat

def Shape.isRecord : Shape → Bool
  | .record _ _ _ => true
  | _ => false

mutual

/-- No record of the shape skips members, tagged records have scalars only, and the fields that
belong to a variant are a record. -/
def Shape.plain : Shape → Bool
  | .scalar _ | .json => true
  | .optional inner => inner.plain
  | .list item => item.plain
  | .record _ extra fields => extra == .refused && fields.plain
  | .choice variants => variants.plain
  | .tagged _ _ cases => cases.flat

def Fields.plain : Fields → Bool
  | .nil => true
  | .required _ shape rest | .optional _ shape rest => shape.plain && rest.plain

def Variants.plain : Variants → Bool
  | .nil => true
  | .bare _ rest => rest.plain
  | .carrying _ way shape rest =>
    shape.plain && rest.plain && (way == .value || shape.isRecord)

end

/-- A reader reads what a function makes of the JSON value that stands in the text. -/
def ReadsAs {α : Type} (depth : Nat) (reader : Reader α) (ofWritten : Json → Except Mismatch α) :
    Prop :=
  ∀ text value rest, reader text = .ok (value, rest) ↔
    ∃ j, Json.read depth text = .ok (j, rest) ∧ ofWritten j = .ok value

section Single

variable {depth : Nat}

theorem readsAs_of_found {α : Type} {accept : Found → Except Mismatch α}
    (leaves : ∀ found value, accept found = .ok value → ∃ l, found = .leaf l)
    {reader : Reader α}
    (reads : ∀ text value rest, reader text = .ok (value, rest) ↔
      ∃ found, scanFound text = .ok (found, rest) ∧ accept found = .ok value) :
    ReadsAs depth reader fun j => accept j.found := by
  intro text value rest
  rw [reads]
  constructor
  · intro h
    obtain ⟨found, scanned, accepted⟩ := h
    obtain ⟨l, rfl⟩ := leaves found value accepted
    exact ⟨.leaf l, read_leaf scanned, accepted⟩
  · intro h
    obtain ⟨j, read, accepted⟩ := h
    obtain ⟨front, scanned, same⟩ := found_of_read read
    obtain ⟨l, leaf⟩ := leaves j.found value accepted
    have whole : j = .leaf l := by
      cases j <;> cases leaf
      rfl
    rw [same l whole] at scanned
    exact ⟨j.found, scanned, accepted⟩

theorem Scalar.leaf_of_accept {kind : Scalar} {found : Found} {value : kind.Value}
    (h : kind.accept found = .ok value) : ∃ l, found = .leaf l := by
  cases found with
  | leaf l => exact ⟨l, rfl⟩
  | array | object => cases kind <;> cases h

theorem Scalar.readsAs (kind : Scalar) (depth : Nat) :
    ReadsAs depth kind.read fun j => kind.accept j.found := by
  refine readsAs_of_found (fun found value => Scalar.leaf_of_accept) fun text value rest => ?_
  rw [Scalar.read]
  cases scanFound text with
  | error fault => simp
  | ok pair =>
      obtain ⟨found, front⟩ := pair
      cases accepted : kind.accept found <;> simp [accepted, and_comm]

theorem leaf_of_acceptName {known : List String} {found : Found} {name : String}
    (h : acceptName known found = .ok name) : ∃ l, found = .leaf l := by
  unfold acceptName at h
  split at h
  · exact ⟨_, rfl⟩
  · cases h

theorem readName_readsAs (known : List String) (depth : Nat) :
    ReadsAs depth (readName known) fun j => acceptName known j.found := by
  refine readsAs_of_found (fun found value => leaf_of_acceptName)
    fun text value rest => ?_
  rw [readName]
  cases scanFound text with
  | error fault => simp
  | ok pair =>
      obtain ⟨found, front⟩ := pair
      cases accepted : acceptName known found <;> simp [accepted, and_comm]

theorem json_readsAs :
    ReadsAs depth
      (fun text => (Json.read depth text).map fun (json, rest) => (Json.Value.ofJson json, rest))
      fun j => .ok (.ofJson j) := by
  intro text value rest
  simp only [map_eq_ok_iff, Except.ok.injEq, Prod.exists, Prod.mk.injEq]
  constructor
  · intro h
    obtain ⟨j, rest', read, rfl, rfl⟩ := h
    exact ⟨j, read, rfl⟩
  · intro h
    obtain ⟨j, read, rfl⟩ := h
    exact ⟨j, rest, read, rfl, rfl⟩

theorem read_skipBlanks (text : List Char) :
    Json.read depth (skipBlanks text) = Json.read depth text := by
  cases depth <;> simp only [Json.read, readWith, scanFound_skipBlanks]

theorem asOptional_of_ne_null {α : Type} (inner : Json → Except Mismatch α) {j : Json}
    (solid : j ≠ .leaf .null) : asOptional inner j = (inner j).map some := by
  unfold asOptional
  split
  · exact absurd rfl solid
  · rfl

theorem optional_readsAs {α : Type} {inner : Reader α} {ofWritten : Json → Except Mismatch α}
    (reads : ReadsAs depth inner ofWritten) :
    ReadsAs depth (fun text =>
      match skipBlanks text with
      | 'n' :: rest => (scanKeyword ['u', 'l', 'l'] rest).map fun rest => (none, rest)
      | rest => (inner rest).map fun (value, rest) => (some value, rest))
      (asOptional ofWritten) := by
  intro text value rest
  dsimp only
  split
  · next inside hb =>
      constructor
      · intro h
        obtain ⟨rest', scanned, heq⟩ := map_eq_ok_iff.1 h
        cases heq
        exact ⟨.leaf .null, (read_null_iff hb).2 ⟨scanned, rfl⟩, rfl⟩
      · intro h
        obtain ⟨j, read, accepted⟩ := h
        obtain ⟨scanned, rfl⟩ := (read_null_iff hb).1 read
        cases accepted
        exact map_eq_ok_iff.2 ⟨rest, scanned, rfl⟩
  · next other =>
      -- Only a text that begins with the keyword is read as null.
      have notNull {j : Json} (read : Json.read depth text = .ok (j, rest)) : j ≠ .leaf .null := by
        rintro rfl
        obtain ⟨front, scanned, -⟩ := found_of_read read
        obtain ⟨inside, hb, -⟩ := scanFound_null_iff.1 scanned
        exact other inside hb
      simp only [map_eq_ok_iff, Prod.exists, Prod.mk.injEq]
      constructor
      · intro h
        obtain ⟨v, rest', read, rfl, rfl⟩ := h
        obtain ⟨j, read, accepted⟩ := (reads ..).1 read
        rw [read_skipBlanks] at read
        exact ⟨j, read, by rw [asOptional_of_ne_null ofWritten (notNull read), accepted]; rfl⟩
      · intro h
        obtain ⟨j, read, accepted⟩ := h
        rw [asOptional_of_ne_null ofWritten (notNull read)] at accepted
        obtain ⟨v, inner, rfl⟩ := map_eq_ok_iff.1 accepted
        exact ⟨v, rest, (reads ..).2 ⟨j, by rw [read_skipBlanks]; exact read, inner⟩, rfl, rfl⟩

end Single

theorem descend_eq_ok_iff {α : Type} {inside : Nat → Reader α} {depth : Nat} {text rest : List Char}
    {a : α} :
    descend inside depth text = .ok (a, rest) ↔
      ∃ inner, depth = inner + 1 ∧ inside inner text.tail = .ok (a, rest) := by
  cases depth <;> simp [descend]

theorem ReadsAs.progresses {α : Type} {depth : Nat} {reader : Reader α}
    {ofWritten : Json → Except Mismatch α} (reads : ReadsAs depth reader ofWritten) :
    Progresses reader := by
  intro text value rest h
  obtain ⟨j, read, -⟩ := (reads ..).1 h
  exact read_progresses depth read

theorem ItemsRow.readsAs {α : Type} {depth : Nat} {reader : Reader α}
    {ofWritten : Json → Except Mismatch α} (reads : ReadsAs depth reader ofWritten) {first : Bool}
    {text rest : List Char} {values : List α} :
    ItemsRow reader first text values rest ↔
      ∃ items, ItemsRow (Json.read depth) first text items rest ∧
        items.mapM ofWritten = .ok values := by
  constructor
  · intro row
    induction row with
    | nil closed => exact ⟨[], .nil closed, rfl⟩
    | cons next read tail ih =>
        obtain ⟨j, read, accepted⟩ := (reads ..).1 read
        obtain ⟨items, row, all⟩ := ih
        refine ⟨j :: items, .cons next read row, ?_⟩
        rw [List.mapM_cons]
        exact bind_eq_ok_iff.2 ⟨_, accepted, bind_eq_ok_iff.2 ⟨_, all, rfl⟩⟩
  · intro h
    obtain ⟨items, row, all⟩ := h
    induction row generalizing values with
    | nil closed =>
        cases all
        exact .nil closed
    | cons next read tail ih =>
        rw [List.mapM_cons] at all
        obtain ⟨value, accepted, more⟩ := bind_eq_ok_iff.1 all
        obtain ⟨values', others, heq⟩ := bind_eq_ok_iff.1 more
        cases heq
        exact .cons next ((reads ..).2 ⟨_, read, accepted⟩) (ih others)

theorem readsAs_of_brackets {α : Type} {depth : Nat} {reader : Reader α}
    {ofWritten : Json → Except Mismatch α}
    (fault : ∀ text fault, scanFound text = .error fault → ∀ found, reader text ≠ .ok found)
    (leaf : ∀ text l front, scanFound text = .ok (.leaf l, front) → ∀ found, reader text ≠ .ok found)
    (noLeaf : ∀ l value, ofWritten (.leaf l) ≠ .ok value)
    (array : ∀ text front, scanFound text = .ok (.array, front) → ∀ value rest,
      reader text = .ok (value, rest) ↔ ∃ inner, depth = inner + 1 ∧ ∃ items,
        ItemsRow (Json.read inner) true front.tail items rest ∧
          ofWritten (.array items) = .ok value)
    (object : ∀ text front, scanFound text = .ok (.object, front) → ∀ value rest,
      reader text = .ok (value, rest) ↔ ∃ inner, depth = inner + 1 ∧ ∃ members,
        MembersRow (Json.read inner) true front.tail members rest ∧
          ofWritten (.object members) = .ok value) :
    ReadsAs depth reader ofWritten := by
  intro text value rest
  cases scanned : scanFound text with
  | error f => simp [fault text f scanned, read_fault scanned]
  | ok pair =>
      obtain ⟨found, front⟩ := pair
      cases found with
      | leaf l => simp [leaf text l front scanned, read_leaf scanned, noLeaf]
      | array =>
          simp only [array text front scanned, read_array_iff scanned]
          constructor
          · intro h
            obtain ⟨inner, rfl, items, row, accepted⟩ := h
            exact ⟨.array items, ⟨inner, items, rfl, row, rfl⟩, accepted⟩
          · intro h
            obtain ⟨j, ⟨inner, items, rfl, row, rfl⟩, accepted⟩ := h
            exact ⟨inner, rfl, items, row, accepted⟩
      | object =>
          simp only [object text front scanned, read_object_iff scanned]
          constructor
          · intro h
            obtain ⟨inner, rfl, members, row, accepted⟩ := h
            exact ⟨.object members, ⟨inner, members, rfl, row, rfl⟩, accepted⟩
          · intro h
            obtain ⟨j, ⟨inner, members, rfl, row, rfl⟩, accepted⟩ := h
            exact ⟨inner, rfl, members, row, accepted⟩

theorem list_readsAs {α : Type} {item : Nat → Reader α} {ofWritten : Json → Except Mismatch α}
    (reads : ∀ depth, ReadsAs depth (item depth) ofWritten) (depth : Nat) :
    ReadsAs depth (fun text => do
      match ← scanFound text with
      | (.array, rest) => descend (fun depth => withinArray (readItems true (item depth))) depth rest
      | (found, rest) => throw (.mismatch rest (.invalidType found "a sequence")))
      (asList ofWritten) := by
  refine readsAs_of_brackets ?_ ?_ (fun l value h => by cases h) ?_ ?_
  · intro text fault scanned found
    rw [scanned]
    exact nofun
  · intro text l front scanned found
    rw [scanned]
    exact nofun
  · intro text front scanned value rest
    simp only [scanned]
    change descend _ depth front = _ ↔ _
    rw [descend_eq_ok_iff]
    refine exists_congr fun inner => and_congr_right fun _ => ?_
    rw [withinArray_eq_ok_iff, readItems_eq_ok_iff (reads inner).progresses,
      ItemsRow.readsAs (reads inner)]
    rfl
  · intro text front scanned value rest
    simp only [scanned]
    constructor
    · exact nofun
    · intro h
      obtain ⟨inner, rfl, members, row, accepted⟩ := h
      cases accepted

theorem looseIn_eq_ok_iff {α : Type} {result : Except Mismatch α} {text rest : List Char} {a : α} :
    looseIn result text = .ok (a, rest) ↔ result = .ok a ∧ text = rest := by
  cases result <;> simp [looseIn]

theorem asRecord_array_iff {α : Type} {label : String}
    {ofItems : List Json → Except Mismatch (α × List Json)}
    {ofMembers : List (String × Json) → Except Mismatch α} {items : List Json} {value : α} :
    asRecord label ofItems ofMembers (.array items) = .ok value ↔
      ofItems items = .ok (value, []) := by
  rw [asRecord, bind_eq_ok_iff]
  constructor
  · intro h
    obtain ⟨⟨value', left⟩, ofAll, finished⟩ := h
    dsimp only at finished
    split at finished
    · next empty =>
        cases finished
        rw [ofAll, List.isEmpty_iff.1 empty]
    · cases finished
  · intro ofAll
    exact ⟨(value, []), ofAll, rfl⟩

theorem record_readsAs {α σ : Type} {label : String} {inside : Nat → Reader α}
    {ofItems : List Json → Except Mismatch (α × List Json)} {step : Nat → String → σ → Reader σ}
    {put : String → Json → σ → Except Mismatch σ} {start : σ} {ofSlots : σ → Except Mismatch α}
    (items : ∀ depth text value rest,
      (∃ close, inside depth text = .ok (value, close) ∧ endArray close = .ok rest) ↔
        ∃ items, ItemsRow (Json.read depth) true text items rest ∧ ofItems items = .ok (value, []))
    (puts : ∀ depth, StepPuts (Json.read depth) put (step depth)) (depth : Nat) :
    ReadsAs depth (fun text => do
      match ← scanFound text with
      | (.array, rest) => descend (fun depth => withinArray (inside depth)) depth rest
      | (.object, rest) =>
        descend (fun depth => withinObject fun text => do
          let (slots, rest) ← readMembers (step depth) start text
          looseIn (ofSlots slots) rest) depth rest
      | (found, rest) => throw (.mismatch rest (.invalidType found label)))
      (asRecord label ofItems fun members => do
        ofSlots (← members.foldlM (fun slots m => put m.1 m.2 slots) start)) := by
  refine readsAs_of_brackets ?_ ?_ (fun l value h => by cases h) ?_ ?_
  · intro text fault scanned found
    rw [scanned]
    exact nofun
  · intro text l front scanned found
    rw [scanned]
    exact nofun
  · intro text front scanned value rest
    simp only [scanned]
    change descend _ depth front = _ ↔ _
    rw [descend_eq_ok_iff]
    refine exists_congr fun inner => and_congr_right fun _ => ?_
    rw [withinArray_eq_ok_iff, items]
    simp only [asRecord_array_iff]
  · intro text front scanned value rest
    simp only [scanned]
    change descend _ depth front = _ ↔ _
    rw [descend_eq_ok_iff]
    refine exists_congr fun inner => and_congr_right fun _ => ?_
    have row := fun slots => readMembers_eq_ok_iff (read_progresses inner) (puts inner)
      start slots front.tail rest
    simp only [withinObject_eq_ok_iff, asRecord, bind_eq_ok_iff, Prod.exists, looseIn_eq_ok_iff]
    constructor
    · intro h
      obtain ⟨close, ⟨slots, close', folded, filled, rfl⟩, closed⟩ := h
      obtain ⟨members, members_row, all⟩ := (row slots).1 ⟨close', folded, closed⟩
      exact ⟨members, members_row, slots, all, filled⟩
    · intro h
      obtain ⟨members, members_row, slots, all, filled⟩ := h
      obtain ⟨close, folded, closed⟩ := (row slots).2 ⟨members, members_row, all⟩
      exact ⟨close, ⟨slots, close, folded, filled, rfl⟩, closed⟩

namespace Opened

variable {tag : String} {known : List String}

def put (tag : String) (known : List String) (key : String) (json : Json) (opened : Opened) :
    Except Mismatch Opened :=
  if key = tag then
    match opened.name with
    | some _ => .error (.duplicateField tag)
    | none => (acceptName known json.found).map fun name => ⟨some name, opened.others⟩
  else .ok ⟨opened.name, (key, json) :: opened.others⟩

theorem readMember_puts (depth : Nat) :
    StepPuts (Json.read depth) (put tag known) (readMember tag known depth) := by
  intro key opened text opened' rest
  by_cases isTag : key = tag
  · simp only [readMember, put, isTag, if_true]
    cases opened.name with
    | some name =>
        constructor
        · intro h
          cases h
        · intro h
          obtain ⟨front, j, -, -, stored⟩ := h
          cases stored
    | none =>
        constructor
        · intro h
          obtain ⟨front, separated, h⟩ := bind_eq_ok_iff.1 h
          obtain ⟨⟨name, back⟩, named, h⟩ := bind_eq_ok_iff.1 h
          cases h
          obtain ⟨j, read, accepted⟩ := (readName_readsAs known depth ..).1 named
          exact ⟨front, j, separated, read, map_eq_ok_iff.2 ⟨name, accepted, rfl⟩⟩
        · intro h
          obtain ⟨front, j, separated, read, stored⟩ := h
          obtain ⟨name, accepted, rfl⟩ := map_eq_ok_iff.1 stored
          have named := (readName_readsAs known depth ..).2 ⟨j, read, accepted⟩
          exact bind_eq_ok_iff.2 ⟨front, separated, bind_eq_ok_iff.2 ⟨_, named, rfl⟩⟩
  · simp only [readMember, put, isTag, if_false]
    constructor
    · intro h
      obtain ⟨front, separated, h⟩ := bind_eq_ok_iff.1 h
      obtain ⟨⟨j, back⟩, read, h⟩ := bind_eq_ok_iff.1 h
      cases h
      exact ⟨front, j, separated, read, rfl⟩
    · intro h
      obtain ⟨front, j, separated, read, stored⟩ := h
      cases stored
      exact bind_eq_ok_iff.2 ⟨front, separated, bind_eq_ok_iff.2 ⟨_, read, rfl⟩⟩

/-- Members taken up one by one, the tag among them, are the members with the tag split off. -/
theorem foldlM_put_iff {members : List (String × Json)} (opened : Opened) {final : Opened}
    {name : String} :
    (members.foldlM (fun opened m => put tag known m.1 m.2 opened) opened = .ok final ∧
        final.name = some name) ↔
      ∃ others, splitTag tag known opened.name members = .ok (name, others) ∧
        final = ⟨some name, others.reverse ++ opened.others⟩ := by
  induction members generalizing opened with
  | nil =>
      obtain ⟨found, before⟩ := opened
      rw [List.foldlM_nil]
      cases found with
      | none =>
          constructor
          · intro given
            obtain ⟨h, named⟩ := given
            cases h
            cases named
          · intro given
            obtain ⟨others, h, -⟩ := given
            cases h
      | some own =>
          constructor
          · intro given
            obtain ⟨h, named⟩ := given
            cases h
            cases named
            exact ⟨[], rfl, rfl⟩
          · intro given
            obtain ⟨others, h, rfl⟩ := given
            cases h
            exact ⟨rfl, rfl⟩
  | cons m members ih =>
      obtain ⟨key, json⟩ := m
      obtain ⟨found, before⟩ := opened
      rw [List.foldlM_cons, splitTag]
      by_cases isTag : key = tag
      · cases found with
        | some own =>
            -- A second tag is refused on both sides.
            simp only [put, isTag, if_true]
            constructor
            · intro given
              obtain ⟨h, -⟩ := given
              cases h
            · intro given
              obtain ⟨others, h, -⟩ := given
              cases h
        | none =>
            simp only [put, isTag, if_true]
            cases accepted : acceptName known json.found with
            | error mismatch =>
                constructor
                · intro given
                  obtain ⟨h, -⟩ := given
                  cases h
                · intro given
                  obtain ⟨others, h, -⟩ := given
                  cases h
            | ok own => exact ih ⟨some own, before⟩
      · simp only [put, isTag, if_false]
        refine (ih ⟨found, (key, json) :: before⟩).trans ?_
        constructor
        · intro h
          obtain ⟨others, split, rfl⟩ := h
          exact ⟨(key, json) :: others, map_eq_ok_iff.2 ⟨_, split, rfl⟩, by simp⟩
        · intro h
          obtain ⟨others, split, rfl⟩ := h
          obtain ⟨⟨own, rest⟩, splitRest, heq⟩ := map_eq_ok_iff.1 split
          cases heq
          exact ⟨rest, splitRest, by simp⟩

end Opened

theorem readTaggedObject_iff {tag : String} {known : List String} {depth : Nat} {name : String}
    {content : Content} {text rest : List Char} :
    withinObject (readTaggedObject tag known depth) text = .ok ((name, content), rest) ↔
      ∃ members, MembersRow (Json.read depth) true text members rest ∧
        ∃ others, splitTag tag known none members = .ok (name, others) ∧
          content = .members others := by
  have row := fun opened => readMembers_eq_ok_iff (read_progresses depth)
    (@Opened.readMember_puts tag known depth) ⟨none, []⟩ opened text rest
  rw [withinObject_eq_ok_iff]
  constructor
  · intro h
    obtain ⟨close, read, closed⟩ := h
    obtain ⟨⟨opened, close'⟩, folded, read⟩ := bind_eq_ok_iff.1 read
    dsimp only at read
    split at read
    · next own named =>
        cases read
        obtain ⟨members, members_row, all⟩ := (row opened).1 ⟨close, folded, closed⟩
        obtain ⟨others, split, rfl⟩ := (Opened.foldlM_put_iff _).1 ⟨all, named⟩
        exact ⟨members, members_row, others, split, by simp⟩
    · cases read
  · intro h
    obtain ⟨members, members_row, others, split, rfl⟩ := h
    obtain ⟨all, -⟩ := (Opened.foldlM_put_iff ⟨none, []⟩).2 ⟨others, split, rfl⟩
    obtain ⟨close, folded, closed⟩ := (row _).2 ⟨members, members_row, all⟩
    refine ⟨close, bind_eq_ok_iff.2 ⟨_, folded, ?_⟩, closed⟩
    simp [pure, Except.pure]

theorem readTaggedArray_iff {tag : String} {known : List String} {depth : Nat} {name : String}
    {content : Content} {text rest : List Char} :
    withinArray (readTaggedArray tag known depth) text = .ok ((name, content), rest) ↔
      ∃ first items, ItemsRow (Json.read depth) true text (first :: items) rest ∧
        acceptName known first.found = .ok name ∧ content = .items items := by
  rw [withinArray_eq_ok_iff]
  constructor
  · intro h
    obtain ⟨close, read, closed⟩ := h
    obtain ⟨⟨more, front⟩, next, read⟩ := bind_eq_ok_iff.1 read
    cases more with
    | false => cases read
    | true =>
        obtain ⟨⟨own, back⟩, named, read⟩ := bind_eq_ok_iff.1 read
        obtain ⟨⟨items, close'⟩, itemsRead, heq⟩ := bind_eq_ok_iff.1 read
        cases heq
        obtain ⟨j, read, accepted⟩ := (readName_readsAs known depth ..).1 named
        have tail := (readItems_eq_ok_iff (read_progresses depth)).1 ⟨close, itemsRead, closed⟩
        exact ⟨j, items, .cons next read tail, accepted, rfl⟩
  · intro h
    obtain ⟨j, items, row, accepted, rfl⟩ := h
    cases row with
    | cons next read tail =>
        have named := (readName_readsAs known depth ..).2 ⟨j, read, accepted⟩
        obtain ⟨close, itemsRead, closed⟩ :=
          (readItems_eq_ok_iff (read_progresses depth)).2 tail
        refine ⟨close, ?_, closed⟩
        refine bind_eq_ok_iff.2 ⟨_, next, ?_⟩
        refine bind_eq_ok_iff.2 ⟨_, named, ?_⟩
        exact bind_eq_ok_iff.2 ⟨_, itemsRead, rfl⟩

theorem tagged_readsAs {α : Type} {label tag : String} {known : List String}
    {ofContent : String → Content → Except Mismatch α} (depth : Nat) :
    ReadsAs depth (fun text => do
      let ((name, content), rest) ← match ← scanFound text with
        | (.array, rest) =>
          descend (fun depth => withinArray (readTaggedArray tag known depth)) depth rest
        | (.object, rest) =>
          descend (fun depth => withinObject (readTaggedObject tag known depth)) depth rest
        | (found, rest) => throw (.mismatch rest (.invalidType found label))
      looseIn (ofContent name content) rest)
      (asTagged label tag known ofContent) := by
  refine readsAs_of_brackets ?_ ?_ (fun l value h => by cases h) ?_ ?_
  · intro text fault scanned found
    rw [scanned]
    exact nofun
  · intro text l front scanned found
    rw [scanned]
    exact nofun
  · intro text front scanned value rest
    simp only [scanned]
    change (descend _ depth front >>= _) = _ ↔ _
    simp only [bind_eq_ok_iff, Prod.exists, descend_eq_ok_iff, readTaggedArray_iff,
      looseIn_eq_ok_iff]
    constructor
    · intro h
      obtain ⟨name, content, rest', ⟨inner, rfl, first, items, row, accepted, rfl⟩, filled,
        rfl⟩ := h
      exact ⟨inner, rfl, first :: items, row, bind_eq_ok_iff.2 ⟨name, accepted, filled⟩⟩
    · intro h
      obtain ⟨inner, rfl, items, row, filled⟩ := h
      cases items with
      | nil => cases filled
      | cons first items =>
          obtain ⟨name, accepted, filled⟩ := bind_eq_ok_iff.1 filled
          exact ⟨name, .items items, rest, ⟨inner, rfl, first, items, row, accepted, rfl⟩,
            filled, rfl⟩
  · intro text front scanned value rest
    simp only [scanned]
    change (descend _ depth front >>= _) = _ ↔ _
    simp only [bind_eq_ok_iff, Prod.exists, descend_eq_ok_iff, readTaggedObject_iff,
      looseIn_eq_ok_iff]
    constructor
    · intro h
      obtain ⟨name, content, rest', ⟨inner, rfl, members, row, others, split, rfl⟩, filled,
        rfl⟩ := h
      exact ⟨inner, rfl, members, row, bind_eq_ok_iff.2 ⟨_, split, filled⟩⟩
    · intro h
      obtain ⟨inner, rfl, members, row, filled⟩ := h
      obtain ⟨⟨name, others⟩, split, filled⟩ := bind_eq_ok_iff.1 filled
      exact ⟨name, .members others, rest, ⟨inner, rfl, members, row, others, split, rfl⟩,
        filled, rfl⟩

theorem endVariant_eq_ok_iff {text rest : List Char} :
    endVariant text = .ok rest ↔ skipBlanks text = '}' :: rest := by
  unfold endVariant
  split
  · next hb => simp [hb]
  · next hb => simp [hb]
  · next close =>
      simp only [reduceCtorEq, false_iff]
      exact close rest

theorem acceptName_text_iff {known : List String} {s name : String} :
    acceptName known (.leaf (.text s)) = .ok name ↔ known.contains s = true ∧ s = name := by
  unfold acceptName
  dsimp only
  split
  · next member => simp only [Except.ok.injEq, member, true_and]
  · next missing => simp only [reduceCtorEq, missing, Bool.false_eq_true, false_and]

theorem readName_quote_iff {known : List String} {name : String} {inside rest : List Char} :
    readName known ('"' :: inside) = .ok (name, rest) ↔
      scanString [] inside = .ok (name, rest) ∧ known.contains name = true := by
  rw [readName_readsAs known 0]
  simp only [read_text_iff (skipBlanks_cons (by decide) inside)]
  constructor
  · intro h
    obtain ⟨j, ⟨s, scanned, rfl⟩, accepted⟩ := h
    obtain ⟨member, rfl⟩ := acceptName_text_iff.1 accepted
    exact ⟨scanned, member⟩
  · intro h
    obtain ⟨scanned, member⟩ := h
    exact ⟨_, ⟨name, scanned, rfl⟩, acceptName_text_iff.2 ⟨member, rfl⟩⟩

theorem readVariantName_iff {known : List String} {name : String} {text rest : List Char} :
    readVariantName known text = .ok (name, rest) ↔
      nextMember true text = .ok (some name, rest) ∧ known.contains name = true := by
  have named (inside : List Char) :
      scanName inside = .ok (some name, rest) ↔ scanString [] inside = .ok (name, rest) := by
    simp [scanName, map_eq_ok_iff]
  unfold readVariantName nextMember
  cases hb : skipBlanks text with
  | nil => simp
  | cons c inside =>
      by_cases quote : c = '"'
      · subst quote
        simp [readName_quote_iff, named]
      · by_cases close : c = '}'
        · subst close
          simp
        · simp [quote, close]

theorem asChoice_object_iff {α : Type} {names : List String} {ofName : String → Except Mismatch α}
    {ofCarried : String → Json → Except Mismatch α} {members : List (String × Json)} {value : α} :
    asChoice names ofName ofCarried (.object members) = .ok value ↔
      ∃ name j, members = [(name, j)] ∧ names.contains name = true ∧
        ofCarried name j = .ok value := by
  match members with
  | [] => simp [asChoice]
  | [(name, j)] =>
      simp only [asChoice, bind_eq_ok_iff, acceptName_text_iff, List.cons.injEq, Prod.mk.injEq,
        and_true]
      constructor
      · intro h
        obtain ⟨name', ⟨member, rfl⟩, accepted⟩ := h
        exact ⟨name, j, ⟨rfl, rfl⟩, member, accepted⟩
      · intro h
        obtain ⟨name', j', ⟨rfl, rfl⟩, member, accepted⟩ := h
        exact ⟨name, ⟨member, rfl⟩, accepted⟩
  | _ :: _ :: _ => simp [asChoice]

section Choice

variable {α : Type} {names : List String} {ofName : String → Except Mismatch α}
variable {carried : Nat → String → Reader α} {ofCarried : String → Json → Except Mismatch α}
variable {depth : Nat} {text inside rest : List Char} {value : α}

theorem choice_begins {j : Json} (read : Json.read depth text = .ok (j, rest))
    (accepted : asChoice names ofName ofCarried j = .ok value) :
    ∃ inside, skipBlanks text = '"' :: inside ∨ skipBlanks text = '{' :: inside := by
  obtain ⟨front, scanned, -⟩ := found_of_read read
  cases j with
  | leaf l =>
      cases l with
      | text s =>
          obtain ⟨inside, hb, -⟩ := scanFound_text_iff.1 scanned
          exact ⟨inside, .inl hb⟩
      | _ => cases accepted
  | array items => cases accepted
  | object members =>
      obtain ⟨inside, hb, -⟩ := scanFound_object_iff.1 scanned
      exact ⟨inside, .inr hb⟩

theorem named_choice_iff (hb : skipBlanks text = '"' :: inside) :
    (do
        let (name, rest) ← readName names ('"' :: inside)
        looseIn (ofName name) rest) = .ok (value, rest) ↔
      ∃ j, Json.read depth text = .ok (j, rest) ∧ asChoice names ofName ofCarried j = .ok value := by
  simp only [bind_eq_ok_iff, Prod.exists, readName_quote_iff, looseIn_eq_ok_iff, read_text_iff hb]
  constructor
  · intro h
    obtain ⟨name, back, ⟨scanned, member⟩, accepted, rfl⟩ := h
    refine ⟨_, ⟨name, scanned, rfl⟩, ?_⟩
    exact bind_eq_ok_iff.2 ⟨name, acceptName_text_iff.2 ⟨member, rfl⟩, accepted⟩
  · intro h
    obtain ⟨j, ⟨s, scanned, rfl⟩, accepted⟩ := h
    obtain ⟨name, known, named⟩ := bind_eq_ok_iff.1 accepted
    obtain ⟨member, rfl⟩ := acceptName_text_iff.1 known
    exact ⟨_, rest, ⟨scanned, member⟩, named, rfl⟩

theorem carried_choice_iff
    (reads : ∀ depth name, ReadsAs depth (carried depth name) (ofCarried name))
    (hb : skipBlanks text = '{' :: inside) :
    descend (fun depth text => do
        let (name, rest) ← readVariantName names text
        let (value, rest) ← carried depth name (← scanColon rest)
        return (value, ← endVariant rest)) depth ('{' :: inside) = .ok (value, rest) ↔
      ∃ j, Json.read depth text = .ok (j, rest) ∧ asChoice names ofName ofCarried j = .ok value := by
  have scanned : scanFound text = .ok (.object, '{' :: inside) :=
    scanFound_object_iff.2 ⟨inside, hb, rfl⟩
  simp only [descend_eq_ok_iff, List.tail_cons, read_object_iff scanned, bind_eq_ok_iff,
    Prod.exists, readVariantName_iff, scanColon_eq_ok_iff, endVariant_eq_ok_iff]
  constructor
  · intro h
    obtain ⟨inner, rfl, name, colon, ⟨next, member⟩, front, separated, v, back, read, rest', closed,
      heq⟩ := h
    cases heq
    obtain ⟨j, read, accepted⟩ := (reads ..).1 read
    refine ⟨.object [(name, j)], ⟨inner, _, rfl, ?_, rfl⟩,
      asChoice_object_iff.2 ⟨name, j, rfl, member, accepted⟩⟩
    exact .cons next (scanColon_eq_ok_iff.2 separated) read (.nil closed)
  · intro h
    obtain ⟨j, ⟨inner, members, rfl, row, rfl⟩, accepted⟩ := h
    obtain ⟨name, j, rfl, member, accepted⟩ := asChoice_object_iff.1 accepted
    cases row with
    | cons next separated read tail =>
        cases tail with
        | nil closed =>
            exact ⟨inner, rfl, name, _, ⟨next, member⟩, _, scanColon_eq_ok_iff.1 separated, _, _,
              (reads ..).2 ⟨j, read, accepted⟩, _, closed, rfl⟩

theorem choice_readsAs
    (reads : ∀ depth name, ReadsAs depth (carried depth name) (ofCarried name)) (depth : Nat) :
    ReadsAs depth (fun text =>
      match skipBlanks text with
      | [] => .error (.atEnd .value)
      | '"' :: rest => do
        let (name, rest) ← readName names ('"' :: rest)
        looseIn (ofName name) rest
      | '{' :: rest =>
        descend (fun depth text => do
          let (name, rest) ← readVariantName names text
          let (value, rest) ← carried depth name (← scanColon rest)
          return (value, ← endVariant rest)) depth ('{' :: rest)
      | rest => .error (.looking rest .expectedValue))
      (asChoice names ofName ofCarried) := by
  intro text value rest
  dsimp only
  split
  · next hb =>
      constructor
      · exact nofun
      · intro h
        obtain ⟨j, read, accepted⟩ := h
        obtain ⟨inside, begins⟩ := choice_begins read accepted
        simp [hb] at begins
  · next inside hb => exact named_choice_iff hb
  · next inside hb => exact carried_choice_iff reads hb
  · next noEnd noQuote noBrace =>
      constructor
      · exact nofun
      · intro h
        obtain ⟨j, read, accepted⟩ := h
        obtain ⟨inside, quote | brace⟩ := choice_begins read accepted
        · exact absurd quote (noQuote inside)
        · exact absurd brace (noBrace inside)

end Choice

theorem map_readsAs {α β : Type} {depth : Nat} {reader : Reader α}
    {ofWritten : Json → Except Mismatch α} (reads : ReadsAs depth reader ofWritten) (f : α → β) :
    ReadsAs depth (fun text => (reader text).map fun (value, text) => (f value, text))
      fun j => (ofWritten j).map f := by
  intro text value rest
  simp only [map_eq_ok_iff, Prod.exists, Prod.mk.injEq]
  constructor
  · intro h
    obtain ⟨v, rest', read, rfl, rfl⟩ := h
    obtain ⟨j, read, accepted⟩ := (reads ..).1 read
    exact ⟨j, read, v, accepted, rfl⟩
  · intro h
    obtain ⟨j, read, v, accepted, rfl⟩ := h
    exact ⟨v, rest, (reads ..).2 ⟨j, read, accepted⟩, rfl, rfl⟩

theorem ItemsRow.closed_iff {α : Type} {item : Reader α} {first : Bool} {text inside rest : List Char}
    {items : List α} (closed : skipBlanks text = ']' :: inside) :
    ItemsRow item first text items rest ↔ items = [] ∧ rest = inside := by
  constructor
  · intro row
    cases row with
    | nil closed' =>
        rw [closed] at closed'
        cases closed'
        exact ⟨rfl, rfl⟩
    | cons next read tail =>
        rw [nextItem_false_iff.2 ⟨inside, closed, rfl⟩] at next
        cases next
  · intro h
    obtain ⟨rfl, rfl⟩ := h
    exact .nil closed

theorem readItem_then_iff {α β γ : Type} {depth : Nat} {reader : Reader α} {tail : Reader β}
    {ofWritten : Json → Except Mismatch α} {ofItems : List Json → Except Mismatch (β × List Json)}
    (f : α → γ) (reads : ReadsAs depth reader ofWritten)
    (tails : ∀ text values rest,
      (∃ close, tail text = .ok (values, close) ∧ endArray close = .ok rest) ↔
        ∃ items, ItemsRow (Json.read depth) false text items rest ∧ ofItems items = .ok (values, []))
    (front rest : List Char) (values : γ × β) :
    (∃ close, (do
        let (value, text) ← reader front
        let (values, text) ← tail text
        return ((f value, values), text)) = .ok (values, close) ∧ endArray close = .ok rest) ↔
      ∃ j back items, Json.read depth front = .ok (j, back) ∧
        ItemsRow (Json.read depth) false back items rest ∧ (do
          let value ← ofWritten j
          let (values, items) ← ofItems items
          return ((f value, values), items)) = .ok (values, []) := by
  constructor
  · intro h
    obtain ⟨close, read, closed⟩ := h
    obtain ⟨⟨value, back⟩, readValue, read⟩ := bind_eq_ok_iff.1 read
    obtain ⟨⟨others, close'⟩, readOthers, heq⟩ := bind_eq_ok_iff.1 read
    cases heq
    obtain ⟨j, readJson, accepted⟩ := (reads ..).1 readValue
    obtain ⟨items, row, all⟩ := (tails ..).1 ⟨close, readOthers, closed⟩
    exact ⟨j, back, items, readJson, row,
      bind_eq_ok_iff.2 ⟨_, accepted, bind_eq_ok_iff.2 ⟨_, all, rfl⟩⟩⟩
  · intro h
    obtain ⟨j, back, items, readJson, row, all⟩ := h
    obtain ⟨value, accepted, all⟩ := bind_eq_ok_iff.1 all
    obtain ⟨⟨others, left⟩, ofAll, heq⟩ := bind_eq_ok_iff.1 all
    cases heq
    obtain ⟨close, readOthers, closed⟩ := (tails ..).2 ⟨items, row, ofAll⟩
    have readValue := (reads ..).2 ⟨j, readJson, accepted⟩
    exact ⟨close, bind_eq_ok_iff.2 ⟨_, readValue, bind_eq_ok_iff.2 ⟨_, readOthers, rfl⟩⟩, closed⟩

theorem readSlot_puts {α σ : Type} {depth : Nat} (field : String) {reader : Reader α}
    {ofWritten : Json → Except Mismatch α} {others : String → σ → Reader σ}
    {put : String → Json → σ → Except Mismatch σ} (reads : ReadsAs depth reader ofWritten)
    (puts : StepPuts (Json.read depth) put others) :
    StepPuts (Json.read depth)
      (fun name json (slots : Option α × σ) =>
        if field = name then
          match slots.1 with
          | some _ => .error (.duplicateField name)
          | none => (ofWritten json).map fun value => (some value, slots.2)
        else (put name json slots.2).map fun rest => (slots.1, rest))
      (fun name slots text =>
        if field = name then
          match slots.1 with
          | some _ => .error (.loose (.duplicateField name) text)
          | none => do
            let (value, text) ← reader (← scanColon text)
            return ((some value, slots.2), text)
        else do
          let (rest, text) ← others name slots.2 text
          return ((slots.1, rest), text)) := by
  rintro name ⟨slot, slots⟩ text ⟨slot', slots'⟩ after
  by_cases same : field = name
  · simp only [if_pos same]
    cases slot with
    | some value =>
        constructor
        · exact nofun
        · intro h
          obtain ⟨front, j, -, -, stored⟩ := h
          cases stored
    | none =>
        constructor
        · intro h
          obtain ⟨front, separated, h⟩ := bind_eq_ok_iff.1 h
          obtain ⟨⟨value, back⟩, read, h⟩ := bind_eq_ok_iff.1 h
          cases h
          obtain ⟨j, readJson, accepted⟩ := (reads ..).1 read
          exact ⟨front, j, separated, readJson, map_eq_ok_iff.2 ⟨_, accepted, rfl⟩⟩
        · intro h
          obtain ⟨front, j, separated, readJson, stored⟩ := h
          obtain ⟨value, accepted, heq⟩ := map_eq_ok_iff.1 stored
          cases heq
          have read := (reads ..).2 ⟨j, readJson, accepted⟩
          exact bind_eq_ok_iff.2 ⟨front, separated, bind_eq_ok_iff.2 ⟨_, read, rfl⟩⟩
  · simp only [if_neg same]
    constructor
    · intro h
      obtain ⟨⟨rest, back⟩, read, heq⟩ := bind_eq_ok_iff.1 h
      cases heq
      obtain ⟨front, j, separated, readJson, stored⟩ := (puts ..).1 read
      exact ⟨front, j, separated, readJson, map_eq_ok_iff.2 ⟨_, stored, rfl⟩⟩
    · intro h
      obtain ⟨front, j, separated, readJson, stored⟩ := h
      obtain ⟨rest, stored, heq⟩ := map_eq_ok_iff.1 stored
      cases heq
      have read := (puts ..).2 ⟨front, j, separated, readJson, stored⟩
      exact bind_eq_ok_iff.2 ⟨_, read, rfl⟩

mutual

/-- Reading a shape from a text is reading it from the JSON value that stands there. -/
theorem Shape.readsAs : (shape : Shape) → shape.plain = true → (depth : Nat) →
    ReadsAs depth (shape.read depth) shape.ofWritten
  | .scalar kind, _, depth => kind.readsAs depth
  | .json, _, _ => json_readsAs
  | .optional inner, plain, depth => optional_readsAs (inner.readsAs plain depth)
  | .list item, plain, depth => list_readsAs (item.readsAs plain) depth
  | .record label extra fields, plain, depth => by
      rw [Shape.plain, Bool.and_eq_true, beq_iff_eq] at plain
      obtain ⟨rfl, plain⟩ := plain
      exact record_readsAs
        (fun depth text value rest => fields.readItems_iff _ plain depth true 0 text value rest)
        (fields.readMember_puts _ plain) depth
  | .choice variants, plain, depth => choice_readsAs (variants.readCarried_readsAs plain) depth
  | .tagged _ _ _, _, depth => tagged_readsAs depth

theorem Fields.readItems_iff (expected : String) : (fields : Fields) → fields.plain = true →
    (depth : Nat) → (first : Bool) → (index : Nat) → (text : List Char) →
    (values : fields.Value) → (rest : List Char) →
    ((∃ close, fields.readItems expected depth first index text = .ok (values, close) ∧
        endArray close = .ok rest) ↔
      ∃ items, ItemsRow (Json.read depth) first text items rest ∧
        fields.ofWrittenItems expected index items = .ok (values, []))
  | .nil, _, depth, first, index, text, (), rest => by
      constructor
      · intro h
        obtain ⟨close, read, closed⟩ := h
        cases read
        exact ⟨[], .nil (endArray_eq_ok_iff.1 closed), rfl⟩
      · intro h
        obtain ⟨items, row, finished⟩ := h
        cases finished
        cases row with
        | nil closed => exact ⟨text, rfl, endArray_eq_ok_iff.2 closed⟩
  | .required _ shape rest, plain, depth, first, index, text, values, after => by
      obtain ⟨plainShape, plainRest⟩ := Bool.and_eq_true_iff.1 plain
      have item (front : List Char) := readItem_then_iff id (shape.readsAs plainShape depth)
        (fun text values after =>
          rest.readItems_iff expected plainRest depth false (index + 1) text values after)
        front after values
      constructor
      · intro h
        obtain ⟨close, read, closed⟩ := h
        obtain ⟨⟨more, front⟩, next, read⟩ := bind_eq_ok_iff.1 read
        cases more with
        | false => cases read
        | true =>
            obtain ⟨j, back, items, readJson, row, all⟩ := (item _).1 ⟨close, read, closed⟩
            exact ⟨j :: items, .cons next readJson row, all⟩
      · intro h
        obtain ⟨items, row, all⟩ := h
        cases row with
        | nil closed => cases all
        | cons next readJson tail =>
            obtain ⟨close, read, closed⟩ := (item _).2 ⟨_, _, _, readJson, tail, all⟩
            exact ⟨close, bind_eq_ok_iff.2 ⟨_, next, read⟩, closed⟩
  | .optional _ shape rest, plain, depth, first, index, text, values, after => by
      obtain ⟨plainShape, plainRest⟩ := Bool.and_eq_true_iff.1 plain
      have item (front : List Char) := readItem_then_iff some (shape.readsAs plainShape depth)
        (fun text values after =>
          rest.readItems_iff expected plainRest depth false (index + 1) text values after)
        front after values
      constructor
      · intro h
        obtain ⟨close, read, closed⟩ := h
        obtain ⟨⟨more, front⟩, next, read⟩ := bind_eq_ok_iff.1 read
        cases more with
        | false =>
            -- Where the array ends before an optional field, it has ended for all fields behind it.
            obtain ⟨inside, hb, rfl⟩ := nextItem_false_iff.1 next
            obtain ⟨⟨others, close'⟩, readOthers, heq⟩ := bind_eq_ok_iff.1 read
            cases heq
            obtain ⟨items, row, all⟩ :=
              (rest.readItems_iff expected plainRest depth ..).1 ⟨close, readOthers, closed⟩
            obtain ⟨rfl, rfl⟩ := (ItemsRow.closed_iff rfl).1 row
            exact ⟨[], .nil hb, bind_eq_ok_iff.2 ⟨_, all, rfl⟩⟩
        | true =>
            obtain ⟨j, back, items, readJson, row, all⟩ := (item _).1 ⟨close, read, closed⟩
            exact ⟨j :: items, .cons next readJson row, all⟩
      · intro h
        obtain ⟨items, row, all⟩ := h
        cases row with
        | nil closed =>
            obtain ⟨⟨others, left⟩, ofNone, heq⟩ := bind_eq_ok_iff.1 all
            cases heq
            obtain ⟨close, readOthers, ended⟩ :=
              (rest.readItems_iff expected plainRest depth first (index + 1) (']' :: after) ..).2
                ⟨[], .nil rfl, ofNone⟩
            exact ⟨close, bind_eq_ok_iff.2 ⟨_, nextItem_false_iff.2 ⟨_, closed, rfl⟩,
              bind_eq_ok_iff.2 ⟨_, readOthers, rfl⟩⟩, ended⟩
        | cons next readJson tail =>
            obtain ⟨close, read, closed⟩ := (item _).2 ⟨_, _, _, readJson, tail, all⟩
            exact ⟨close, bind_eq_ok_iff.2 ⟨_, next, read⟩, closed⟩

theorem Fields.readMember_puts (known : List String) : (fields : Fields) → fields.plain = true →
    (depth : Nat) → StepPuts (Json.read depth)
      (fun name json slots => fields.putWritten known name json slots)
      (fun name slots text => fields.readMember known depth name slots text)
  | .nil, _, depth => by
      intro name slots text slots' rest
      constructor
      · exact fun h => by cases h
      · intro h
        obtain ⟨front, j, -, -, stored⟩ := h
        cases stored
  | .required field shape rest, plain, depth | .optional field shape rest, plain, depth => by
      obtain ⟨plainShape, plainRest⟩ := Bool.and_eq_true_iff.1 plain
      rintro name ⟨slot, slots⟩ text slots' after
      have puts := readSlot_puts field (shape.readsAs plainShape depth)
        (rest.readMember_puts known plainRest depth) name (slot, slots) text slots' after
      cases slot with
      | none => exact puts
      | some value => exact puts

theorem Variants.readCarried_readsAs : (variants : Variants) → variants.plain = true →
    (depth : Nat) → (name : String) →
    ReadsAs depth (variants.readCarried depth name) (variants.ofWritten name)
  | .nil, _, depth, name => by
      intro text value rest
      cases value
  | .bare known rest, plain, depth, name => by
      intro text value after
      by_cases same : known = name
      · have reads := map_readsAs (Scalar.readsAs .nothing depth)
          (Sum.inl : Unit → Unit ⊕ rest.Value)
        simp only [Variants.readCarried, Variants.ofWritten, if_pos same]
        exact reads text value after
      · have reads := map_readsAs (rest.readCarried_readsAs plain depth name)
          (Sum.inr : rest.Value → Unit ⊕ rest.Value)
        simp only [Variants.readCarried, Variants.ofWritten, if_neg same]
        exact reads text value after
  | .carrying known way shape rest, plain, depth, name => by
      obtain ⟨both, -⟩ := Bool.and_eq_true_iff.1 plain
      obtain ⟨plainShape, plainRest⟩ := Bool.and_eq_true_iff.1 both
      intro text value after
      by_cases same : known = name
      · have reads := map_readsAs (shape.readsAs plainShape depth)
          (Sum.inl : shape.Value → shape.Value ⊕ rest.Value)
        simp only [Variants.readCarried, Variants.ofWritten, if_pos same]
        exact reads text value after
      · have reads := map_readsAs (rest.readCarried_readsAs plainRest depth name)
          (Sum.inr : rest.Value → shape.Value ⊕ rest.Value)
        simp only [Variants.readCarried, Variants.ofWritten, if_neg same]
        exact reads text value after

end

/-- A text has a value of a shape exactly if it is a JSON text and its value, as it is written, has
one. -/
theorem Shape.ofText_eq_ok_iff {shape : Shape} (plain : shape.plain = true) {text : String}
    {value : shape.Value} :
    shape.ofText text = .ok value ↔
      ∃ j, readWhole (Json.read maxDepth) text = .ok j ∧ shape.ofWritten j = .ok value := by
  simp only [Shape.ofText, readWhole_eq_ok_iff]
  constructor
  · intro h
    obtain ⟨rest, read, blank⟩ := h
    obtain ⟨j, readJson, accepted⟩ := (shape.readsAs plain maxDepth ..).1 read
    exact ⟨j, ⟨rest, readJson, blank⟩, accepted⟩
  · intro h
    obtain ⟨j, ⟨rest, readJson, blank⟩, accepted⟩ := h
    exact ⟨rest, (shape.readsAs plain maxDepth ..).2 ⟨j, readJson, accepted⟩, blank⟩

end GeoQuery
