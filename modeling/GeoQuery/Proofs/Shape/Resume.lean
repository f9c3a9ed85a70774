import GeoQuery.Proofs.Json.Resume
import GeoQuery.Proofs.Shape.Written

/-!
Reading a shape goes on as it began when more text follows. Members that are skipped are read by
looser rules than the others, so the shapes are those that skip none.
-/

namespace GeoQuery

open Json Outcome

section Single

variable {α : Type} {depth : Nat}

/-- What a value found at the front of a text is taken for. -/
def accepting (accept : Found → Except Mismatch α) (found : Found) : Reader α := fun rest =>
  match accept found with
  | .ok value => .ok (value, rest)
  | .error mismatch => .error (.mismatch rest mismatch)

theorem accepting_resumes (accept : Found → Except Mismatch α) {reader : Reader α}
    (fails : ∀ {text fault}, scanFound text = .error fault → reader text = .error fault)
    (reads : ∀ {text found rest}, scanFound text = .ok (found, rest) →
      reader text = accepting accept found rest) : Resumes reader := by
  have step (found : Found) : Resumes (accepting accept found) := by
    unfold accepting
    cases accept found with
    | ok value => exact .pure value
    | error mismatch => exact .refuse fun _ => ⟨_, rfl⟩
  refine .congr (fun text => ?_)
    (scanFound_resumes.bind (g := fun (found, rest) => accepting accept found rest) step)
  cases scanned : scanFound text with
  | error fault => exact fails scanned
  | ok pair => exact reads scanned

theorem Scalar.read_resumes (kind : Scalar) : Resumes kind.read := by
  refine accepting_resumes kind.accept (fun scanned => ?_)
    fun {text found rest} scanned => ?_
  · rw [Scalar.read, scanned]
  · rw [Scalar.read, scanned, accepting]
    dsimp only
    cases kind.accept found <;> rfl

theorem readName_resumes (known : List String) : Resumes (readName known) := by
  refine accepting_resumes (acceptName known) (fun scanned => ?_)
    fun {text found rest} scanned => ?_
  · rw [readName, scanned]
  · rw [readName, scanned, accepting]
    dsimp only
    cases acceptName known found <;> rfl

theorem looseIn_resumes (result : Except Mismatch α) : Resumes (looseIn result) := by
  cases result with
  | ok value => exact .pure value
  | error mismatch => exact .refuse fun _ => ⟨_, rfl⟩

theorem optional_resumes {inner : Reader α} (h : Resumes inner)
    (atEnd : ∃ fault, inner [] = .error fault ∧ fault.cause.category = .unfinished) :
    Resumes fun text =>
      match skipBlanks text with
      | 'n' :: rest => (scanKeyword ['u', 'l', 'l'] rest).map fun rest => (none, rest)
      | rest => (inner rest).map fun (value, rest) => (some value, rest) := by
  obtain ⟨fault, ended, unfinished⟩ := atEnd
  refine .ofBlanks (fun text => by simp)
    ⟨fault, by simp [skipBlanks, ended, Except.map], unfinished⟩ fun c rest solid => ?_
  by_cases n : c = 'n'
  · subst n
    exact .cons (by decide) (fun _ => rfl) ((scanKeyword_resumes (by simp)).marking none rest)
  · refine .congr (fun more => ?_) (h.map (f := some) (c :: rest))
    simp only [List.cons_append, skipBlanks_cons solid]
    split
    · next same => exact absurd (List.cons.inj same).1 n
    · rfl

end Single

section Brackets

variable {α : Type} {depth : Nat}

theorem descend_resumes {inside : Nat → Reader α} (h : ∀ depth, Resumes (inside depth)) {c : Char}
    (other : c ≠ '"') (depth : Nat) (rest : List Char) :
    ResumesAt (descend inside depth) (c :: rest) := by
  cases depth with
  | zero => exact .refuse fun _ => ⟨_, rfl⟩
  | succ depth => exact .cons other (fun _ => rfl) (h depth rest)

theorem list_resumes {item : Nat → Reader α} (h : ∀ depth, Resumes (item depth)) (depth : Nat) :
    Resumes (fun text => do
      match ← scanFound text with
      | (.array, rest) => descend (fun depth => withinArray (readItems true (item depth))) depth rest
      | (found, rest) => throw (.mismatch rest (.invalidType found "a sequence"))) := by
  refine .behindFound (fun l => ?_) (fun inside => ?_) fun inside => ?_
  · exact .refuse fun _ => ⟨_, rfl⟩
  · exact descend_resumes (fun depth => withinArray_resumes (readItems_resumes (h depth) true))
      (by decide) depth inside
  · exact .refuse fun _ => ⟨_, rfl⟩

theorem record_resumes {items : Nat → Reader α} {members : Nat → Reader α}
    (hitems : ∀ depth, Resumes (items depth)) (hmembers : ∀ depth, Resumes (members depth))
    (label : String) (depth : Nat) :
    Resumes (fun text => do
      match ← scanFound text with
      | (.array, rest) => descend (fun depth => withinArray (items depth)) depth rest
      | (.object, rest) => descend (fun depth => withinObject (members depth)) depth rest
      | (found, rest) => throw (.mismatch rest (.invalidType found label))) := by
  refine .behindFound (fun l => ?_) (fun inside => ?_) fun inside => ?_
  · exact .refuse fun _ => ⟨_, rfl⟩
  · exact descend_resumes (fun depth => withinArray_resumes (hitems depth)) (by decide) depth inside
  · exact descend_resumes (fun depth => withinObject_resumes (hmembers depth)) (by decide) depth
      inside

theorem endVariant_resumes : Resumes (past endVariant) :=
  past_resumes (by decide) endVariant_eq_ok_iff (fun text => by simp [endVariant]) ⟨_, rfl, rfl⟩

theorem readVariantName_resumes (known : List String) : Resumes (readVariantName known) := by
  refine .ofBlanks (fun text => by simp [readVariantName]) ⟨_, rfl, rfl⟩ fun c rest solid => ?_
  by_cases quote : c = '"'
  · subst quote
    refine (readName_resumes known _).congr ?_
    exact fun _ => rfl
  by_cases brace : c = '}'
  · subst brace
    exact .refuse fun _ => ⟨_, rfl⟩
  · refine .refuse fun more => ?_
    simp only [readVariantName, List.cons_append, skipBlanks_cons solid]
    split
    · next same => cases same
    · next same => exact absurd (List.cons.inj same).1 quote
    · next same => exact absurd (List.cons.inj same).1 brace
    · exact ⟨_, rfl⟩

theorem choice_resumes {names : List String} (ofName : String → Except Mismatch α)
    {carried : Nat → String → Reader α} (h : ∀ depth name, Resumes (carried depth name))
    (depth : Nat) :
    Resumes (fun text =>
      match skipBlanks text with
      | [] => .error (.atEnd .value)
      | '"' :: rest => do
        let (name, rest) ← readName names ('"' :: rest)
        looseIn (ofName name) rest
      | '{' :: rest =>
        descend (fun depth text => do
          let (name, rest) ← readVariantName names text
          let (value, rest) ← carried depth name (← scanColon rest)
          return (value, ← endVariant rest)) depth ('{' :: rest)
      | rest => .error (.looking rest .expectedValue)) := by
  refine .ofBlanks (fun text => by simp) ⟨_, rfl, rfl⟩ fun c rest solid => ?_
  by_cases quote : c = '"'
  · subst quote
    refine .congr (fun _ => rfl) (((readName_resumes names).bind fun name => ?_) ('"' :: rest))
    exact looseIn_resumes (ofName name)
  by_cases brace : c = '{'
  · subst brace
    refine .congr (fun _ => rfl) (descend_resumes (fun depth => ?_) (by decide) depth rest)
    refine (readVariantName_resumes names).bind fun name => ?_
    refine scanColon_resumes.behind ((h depth name).bind fun value => ?_)
    exact endVariant_resumes.behind (.pure value)
  · refine .refuse fun more => ?_
    simp only [List.cons_append, skipBlanks_cons solid]
    split
    · next same => cases same
    · next same => exact absurd (List.cons.inj same).1 quote
    · next same => exact absurd (List.cons.inj same).1 brace
    · exact ⟨_, rfl⟩

end Brackets

section Tagged

variable {tag : String} {known : List String}

theorem Opened.readMember_resumes (depth : Nat) (key : String) (opened : Opened) :
    Resumes (opened.readMember tag known depth key) := by
  unfold Opened.readMember
  by_cases same : key = tag
  · simp only [if_pos same]
    cases opened.name with
    | some name => exact .refuse fun _ => ⟨_, rfl⟩
    | none =>
        apply scanColon_resumes.behind
        refine (readName_resumes known).bind fun name => ?_
        exact .pure (Opened.mk (some name) opened.others)
  · simp only [if_neg same]
    apply scanColon_resumes.behind
    refine (read_resumes depth).bind fun value => ?_
    exact .pure (Opened.mk opened.name ((key, value) :: opened.others))

theorem readTaggedObject_resumes (depth : Nat) : Resumes (readTaggedObject tag known depth) := by
  refine (readMembers_resumes (Opened.readMember_resumes depth) ⟨none, []⟩).bind fun opened => ?_
  dsimp only
  cases opened.name with
  | some name => exact .pure _
  | none => exact .refuse fun _ => ⟨_, rfl⟩

theorem readTaggedArray_resumes (depth : Nat) : Resumes (readTaggedArray tag known depth) := by
  refine (nextItem_resumes true).bind fun found => ?_
  cases found with
  | false => exact .refuse fun _ => ⟨_, rfl⟩
  | true =>
      refine (readName_resumes known).bind fun name => ?_
      refine (readItems_resumes (read_resumes depth) false).bind fun items => ?_
      exact .pure _

end Tagged

theorem Shape.read_nil : (shape : Shape) → (depth : Nat) →
    ∃ fault, shape.read depth [] = .error fault ∧ fault.cause.category = .unfinished
  | .scalar _, _ | .list _, _ | .record _ _ _, _ | .choice _, _ | .tagged _ _ _, _ => ⟨_, rfl, rfl⟩
  | .json, depth => by cases depth <;> exact ⟨_, rfl, rfl⟩
  | .optional inner, depth => by
      obtain ⟨fault, ended, unfinished⟩ := inner.read_nil depth
      refine ⟨fault, ?_, unfinished⟩
      change (inner.read depth []).map _ = _
      rw [ended]
      rfl

mutual

theorem Shape.read_resumes : (shape : Shape) → shape.plain = true → (depth : Nat) →
    Resumes (shape.read depth)
  | .scalar kind, _, _ => kind.read_resumes
  | .json, _, depth => (Json.read_resumes depth).map
  | .optional inner, plain, depth =>
      optional_resumes (inner.read_resumes plain depth) (inner.read_nil depth)
  | .list item, plain, depth => list_resumes (item.read_resumes plain) depth
  | .record label extra fields, plain, depth => by
      rw [Shape.plain, Bool.and_eq_true, beq_iff_eq] at plain
      obtain ⟨rfl, plain⟩ := plain
      refine record_resumes (fun depth => fields.readItems_resumes _ plain depth true 0)
        (fun depth => ?_) label depth
      refine (readMembers_resumes (fun name slots => ?_) fields.emptySlots).bind fun slots =>
        looseIn_resumes (fields.ofSlots slots)
      exact fields.readMember_resumes _ plain depth name slots
  | .choice variants, plain, depth =>
      choice_resumes variants.ofName (variants.readCarried_resumes plain) depth
  | .tagged label tag cases, _, depth => by
      refine .behindFound (fun l => ?_) (fun inside => ?_) fun inside => ?_
      · exact .refuse fun _ => ⟨_, rfl⟩
      · exact (descend_resumes (fun depth => withinArray_resumes (readTaggedArray_resumes depth))
          (by decide) depth inside).bind fun opened rest _ => looseIn_resumes _ rest
      · exact (descend_resumes (fun depth => withinObject_resumes (readTaggedObject_resumes depth))
          (by decide) depth inside).bind fun opened rest _ => looseIn_resumes _ rest

theorem Fields.readItems_resumes (expected : String) : (fields : Fields) → fields.plain = true →
    (depth : Nat) → (first : Bool) → (index : Nat) →
    Resumes (fields.readItems expected depth first index)
  | .nil, _, _, _, _ => .pure ()
  | .required _ shape rest, plain, depth, first, index => by
      obtain ⟨plainShape, plainRest⟩ := Bool.and_eq_true_iff.1 plain
      refine (nextItem_resumes first).bind fun found => ?_
      cases found with
      | false => exact .refuse fun _ => ⟨_, rfl⟩
      | true =>
          have others := rest.readItems_resumes expected plainRest depth false (index + 1)
          refine (shape.read_resumes plainShape depth).bind fun value => ?_
          exact others.bind fun values => .pure _
  | .optional _ shape rest, plain, depth, first, index => by
      obtain ⟨plainShape, plainRest⟩ := Bool.and_eq_true_iff.1 plain
      refine (nextItem_resumes first).bind fun found => ?_
      cases found with
      | false =>
          exact (rest.readItems_resumes expected plainRest depth first (index + 1)).bind
            fun values => .pure _
      | true =>
          have others := rest.readItems_resumes expected plainRest depth false (index + 1)
          refine (shape.read_resumes plainShape depth).bind fun value => ?_
          exact others.bind fun values => .pure _

theorem Fields.readMember_resumes (known : List String) : (fields : Fields) →
    fields.plain = true → (depth : Nat) → (name : String) → (slots : fields.Slots) →
    Resumes (fields.readMember known depth name slots)
  | .nil, _, _, _, () => .refuse fun _ => ⟨_, rfl⟩
  | .required field shape rest, plain, depth, name, (slot, slots)
  | .optional field shape rest, plain, depth, name, (slot, slots) => by
      obtain ⟨plainShape, plainRest⟩ := Bool.and_eq_true_iff.1 plain
      have own : Resumes fun text => do
          let (value, text) ← shape.read depth (← scanColon text)
          return ((some value, slots), text) :=
        scanColon_resumes.behind ((shape.read_resumes plainShape depth).bind fun value =>
          .pure (some value, slots))
      have other : Resumes fun text => do
          let (slots, text) ← rest.readMember known depth name slots text
          return ((slot, slots), text) :=
        (rest.readMember_resumes known plainRest depth name slots).bind fun slots =>
          .pure (slot, slots)
      by_cases same : field = name
      · cases slot with
        | some value =>
            refine .refuse fun text => ⟨.loose (.duplicateField name) text, ?_⟩
            rw [Fields.readMember, if_pos same]
        | none =>
            refine .congr (fun text => ?_) own
            rw [Fields.readMember, if_pos same]
            rfl
      · refine .congr (fun text => ?_) other
        simp only [Fields.readMember, if_neg same]
        rfl

theorem Variants.readCarried_resumes : (variants : Variants) → variants.plain = true →
    (depth : Nat) → (name : String) → Resumes (variants.readCarried depth name)
  | .nil, _, _, _ => .refuse fun _ => ⟨_, rfl⟩
  | .bare known rest, plain, depth, name => by
      by_cases same : known = name
      · refine .congr (fun _ => ?_) ((Scalar.read_resumes .nothing).map (f := Sum.inl))
        rw [Variants.readCarried, if_pos same]
        rfl
      · refine .congr (fun _ => ?_) ((rest.readCarried_resumes plain depth name).map (f := Sum.inr))
        rw [Variants.readCarried, if_neg same]
        rfl
  | .carrying known way shape rest, plain, depth, name => by
      obtain ⟨both, -⟩ := Bool.and_eq_true_iff.1 plain
      obtain ⟨plainShape, plainRest⟩ := Bool.and_eq_true_iff.1 both
      by_cases same : known = name
      · refine .congr (fun _ => ?_) ((shape.read_resumes plainShape depth).map (f := Sum.inl))
        rw [Variants.readCarried, if_pos same]
        rfl
      · refine .congr (fun _ => ?_)
          ((rest.readCarried_resumes plainRest depth name).map (f := Sum.inr))
        rw [Variants.readCarried, if_neg same]
        rfl

end

end GeoQuery
