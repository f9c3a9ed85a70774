import GeoQuery.Command
import GeoQuery.Proofs.Shape.RoundTrip

namespace GeoQuery

open Json Outcome

namespace Json

section

variable {σ : Type} {step step' : String → σ → Reader σ}

/-- A step that succeeds more often does not change what is read where the other one succeeds. -/
theorem foldMembers_of_step
    (weaker : ∀ name state text r, step name state text = .ok r → step' name state text = .ok r)
    {rounds : Nat} {first : Bool} {state : σ} {text : List Char} {r : σ × List Char}
    (h : foldMembers step rounds first state text = .ok r) :
    foldMembers step' rounds first state text = .ok r := by
  induction rounds generalizing first state text with
  | zero => cases h
  | succ rounds ih =>
      rw [foldMembers] at h ⊢
      cases found : nextMember first text with
      | error fault =>
          rw [found] at h
          cases h
      | ok next =>
          obtain ⟨_ | name, rest⟩ := next
          · rw [found] at h
            exact h
          · rw [found] at h
            dsimp only at h ⊢
            cases read : step name state rest with
            | error fault =>
                rw [read] at h
                cases h
            | ok taken =>
                rw [read] at h
                rw [weaker name state rest taken read]
                exact ih h

end

theorem within_of_inside {α : Type} {finish : List Char → Except Fault (List Char)}
    {leave : List Char → List Char} {inside inside' : Reader α}
    (weaker : ∀ text r, inside text = .ok r → inside' text = .ok r) {text : List Char}
    {r : α × List Char} (h : within finish leave inside text = .ok r) :
    within finish leave inside' text = .ok r := by
  rw [within] at h ⊢
  cases read : inside text with
  | error fault =>
      rw [read] at h
      cases h
  | ok taken =>
      rw [read] at h
      rw [weaker text taken read]
      exact h

end Json

theorem Fields.name_mem_of_readMember {known : List String} {depth : Nat} {name : String} :
    (fields : Fields) → {slots : fields.Slots} → {text : List Char} →
    {r : fields.Slots × List Char} → fields.readMember known depth name slots text = .ok r →
    name ∈ fields.names
  | .nil, (), text, r, h => by cases h
  | .required field shape rest, (slot, slots), text, r, h
  | .optional field shape rest, (slot, slots), text, r, h => by
      by_cases own : field = name
      · exact own ▸ List.mem_cons_self ..
      · simp only [Fields.readMember, if_neg own] at h
        obtain ⟨taken, read, -⟩ := bind_eq_ok_iff.1 h
        exact List.mem_cons_of_mem _ (rest.name_mem_of_readMember read)

/-- What a record takes that refuses unknown members, it takes alike if it skips them. -/
theorem Shape.read_record_of_refused {label : String} {fields : Fields} {depth : Nat}
    {text : List Char} {r : fields.Value × List Char} (extra : Extra)
    (h : (Shape.record label .refused fields).read depth text = .ok r) :
    (Shape.record label extra fields).read depth text = .ok r := by
  rw [Shape.read] at h ⊢
  obtain ⟨⟨found, rest⟩, scanned, h⟩ := bind_eq_ok_iff.1 h
  refine bind_eq_ok_iff.2 ⟨⟨found, rest⟩, scanned, ?_⟩
  cases found with
  | array => exact h
  | object =>
      cases depth with
      | zero => cases h
      | succ depth =>
          change withinObject _ rest.tail = .ok r at h
          change withinObject _ rest.tail = .ok r
          refine within_of_inside (fun text r h => ?_) h
          obtain ⟨⟨slots, rest⟩, read, h⟩ := bind_eq_ok_iff.1 h
          refine bind_eq_ok_iff.2 ⟨⟨slots, rest⟩, ?_, h⟩
          -- A member that the strict step takes has a field, so no name is refused or skipped.
          refine foldMembers_of_step (fun name state text r h => ?_) read
          rw [if_neg (by simp)] at h
          have known := fields.name_mem_of_readMember h
          rw [if_neg (by simp [known])]
          exact h
  | leaf l => cases h

theorem Json.readWhole_of_reader {α : Type} {reader reader' : Reader α} {text : String} {value : α}
    (weaker : ∀ r, reader text.toList = .ok r → reader' text.toList = .ok r)
    (h : readWhole reader text = .ok value) : readWhole reader' text = .ok value := by
  obtain ⟨rest, read, blank⟩ := readWhole_eq_ok_iff.1 h
  exact readWhole_eq_ok_iff.2 ⟨rest, weaker _ read, blank⟩

namespace Command

def strictShape : Shape :=
  .record "struct Command" .refused <|
    .required "name" (.scalar .text) <|
    .required "args" (.list (.scalar .text)) .nil

theorem reread_toValue (c : Command) : strictShape.reread c.toValue = c.toValue := by
  have same : List.map (fun s => Scalar.text.reread s) c.args = c.args := List.map_id c.args
  exact congrArg (fun args => (c.name, args, ())) same

theorem writable_toValue (c : Command) : strictShape.Writable 0 c.toValue :=
  ⟨trivial, List.forall_iff_forall_mem.2 fun _ _ => trivial, trivial⟩

/-- The reader gives back every command from its text. -/
theorem ofJsonText_toJson (c : Command) : ofJsonText c.toJson.compact = .ok c := by
  have strict : strictShape.ofText (strictShape.toJson c.toValue).compact =
      .ok (strictShape.reread c.toValue) :=
    Shape.ofText_compact (by decide) (by decide) (by decide) c.writable_toValue
  rw [reread_toValue] at strict
  have lenient : shape.ofText c.toJson.compact = .ok c.toValue :=
    readWhole_of_reader (fun _ => Shape.read_record_of_refused .ignored) strict
  rw [ofJsonText, lenient]
  rfl

end Command

end GeoQuery
