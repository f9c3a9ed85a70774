import GeoQuery.Proofs.Query.Visible

/-!
The numbers that a command shows, each with its clause, in the order of the command. A query fails to
compile exactly if one of them is not finite, and the first such one is named. What the command does
not show is not looked at: the point of a search that has an area, and the distance that a fence roams
in if the fence has a format.
-/

namespace GeoQuery

namespace RangeFilter

def emitted (f : RangeFilter) : List (String × Binary64) := [("WHERE", f.min), ("WHERE", f.max)]

end RangeFilter

namespace MembershipFilter

def emitted (f : MembershipFilter) : List (String × Binary64) :=
  f.values.map fun value => ("WHEREIN", value)

end MembershipFilter

namespace Filters

def emitted (f : Filters) : List (String × Binary64) :=
  f.ranges.flatMap RangeFilter.emitted ++ f.memberships.flatMap MembershipFilter.emitted

end Filters

namespace Area

def emitted : Area → List (String × Binary64)
  | .bounds minLat minLon maxLat maxLon =>
    [("BOUNDS", minLat), ("BOUNDS", minLon), ("BOUNDS", maxLat), ("BOUNDS", maxLon)]
  | .circle lat lon meters => [("CIRCLE", lat), ("CIRCLE", lon), ("CIRCLE", meters)]
  | .tile .. | .get .. | .hash _ | .quadkey _ | .object _ => []

end Area

namespace Payload

def emitted : Payload → List (String × Binary64)
  | .point lat lon none => [("POINT", lat), ("POINT", lon)]
  | .point lat lon (some z) => [("POINT", lat), ("POINT", lon), ("POINT", z)]
  | .bounds minLat minLon maxLat maxLon =>
    [("BOUNDS", minLat), ("BOUNDS", minLon), ("BOUNDS", maxLat), ("BOUNDS", maxLon)]
  | .hash _ | .object _ | .string _ => []

end Payload

namespace SearchQuery

def emitted (q : SearchQuery) : List (String × Binary64) :=
  q.filters.emitted ++
    match q.area, q.predicate with
    | some area, _ => area.emitted
    | none, .nearby _ lat lon radius => [("POINT", lat), ("POINT", lon), ("POINT", radius)]
    | none, .intersects _ | none, .within _ => []

end SearchQuery

namespace FenceQuery

def emitted (q : FenceQuery) : List (String × Binary64) :=
  q.filters.emitted ++
    match q.predicate, q.format with
    | .roam _ _ _ meters, none => [("ROAM", meters)]
    | .nearby _ lat lon radius, _ => [("POINT", lat), ("POINT", lon), ("POINT", radius)]
    | .roam .., some _ | .intersects _, _ | .within _, _ => []

end FenceQuery

namespace WriteQuery

def emitted (q : WriteQuery) : List (String × Binary64) :=
  q.fields.map (fun f => ("FIELD", f.value)) ++ q.payload.elim [] Payload.emitted

end WriteQuery

namespace Query

def emitted : Query → List (String × Binary64)
  | .search query => query.emitted
  | .geofence query => query.emitted
  | .set query => query.emitted
  | .key _ => []

end Query

namespace Argument

def number? : Argument → Option (String × Binary64)
  | .word _ => none
  | .number clause value => some (clause, value)

def numbersOf (arguments : List Argument) : List (String × Binary64) := arguments.filterMap number?

section

variable {arguments more : List Argument} {clause text : String} {value : Binary64}

@[simp] theorem numbersOf_nil : numbersOf [] = [] := rfl

@[simp] theorem numbersOf_word : numbersOf (.word text :: arguments) = numbersOf arguments := rfl

@[simp] theorem numbersOf_nat {n : Nat} :
    numbersOf (nat n :: arguments) = numbersOf arguments := rfl

@[simp] theorem numbersOf_number :
    numbersOf (.number clause value :: arguments) = (clause, value) :: numbersOf arguments := rfl

@[simp] theorem numbersOf_append :
    numbersOf (arguments ++ more) = numbersOf arguments ++ numbersOf more :=
  List.filterMap_append

@[simp] theorem numbersOf_numbers (values : List Binary64) :
    numbersOf (numbers clause values) = values.map fun value => (clause, value) := by
  induction values with
  | nil => rfl
  | cons value values ih => exact congrArg ((clause, value) :: ·) ih

theorem numbersOf_flatMap {α : Type} (body : α → List Argument) (l : List α) :
    numbersOf (l.flatMap body) = l.flatMap fun a => numbersOf (body a) := by
  induction l with
  | nil => rfl
  | cons a l ih => rw [List.flatMap_cons, numbersOf_append, ih, List.flatMap_cons]

theorem numbersOf_optional {α : Type} (o : Option α) {body : α → List Argument}
    (wordsOnly : ∀ a, numbersOf (body a) = []) : numbersOf (o.elim [] body) = [] := by
  cases o with
  | none => rfl
  | some a => exact wordsOnly a

@[simp] theorem numbersOf_flag (b : Bool) : numbersOf (if b then [.word text] else []) = [] := by
  cases b <;> rfl

end

theorem encode_of_finite {clause : String} {value : Binary64} (h : value.isFinite = true) :
    encode (.number clause value) = .ok value.token := by
  cases value with
  | finite x => rfl
  | infinite negative => cases h
  | nan => cases h

theorem encode_of_not_finite {clause : String} {value : Binary64} (h : value.isFinite = false) :
    encode (.number clause value) = .error (.nonFinite clause value) := by
  cases value with
  | finite x => cases h
  | infinite negative => rfl
  | nan => rfl

theorem encodeAll_eq_error_iff {arguments : List Argument} {e : Error} :
    encodeAll arguments = .error e ↔
      ∃ n, (numbersOf arguments).find? (fun n => !n.2.isFinite) = some n ∧
        e = .nonFinite n.1 n.2 := by
  have behind (text : String) (rest : List Argument) :
      (do return text :: (← rest.mapM encode)) = .error e ↔ encodeAll rest = .error e := by
    rw [Outcome.bind_eq_error_iff]
    simp [encodeAll, pure, Except.pure]
  rw [encodeAll]
  induction arguments with
  | nil => simp [pure, Except.pure]
  | cons a arguments ih =>
      rw [List.mapM_cons]
      cases a with
      | word text => exact (behind text arguments).trans ih
      | number clause value =>
          rw [numbersOf_number]
          cases finite : value.isFinite with
          | true =>
              rw [encode_of_finite finite, List.find?_cons_of_neg (by simp [finite])]
              exact (behind value.token arguments).trans ih
          | false =>
              rw [encode_of_not_finite finite, List.find?_cons_of_pos (by simp [finite])]
              simp [bind, Except.bind, eq_comm]

end Argument

theorem RangeFilter.numbersOf_arguments (f : RangeFilter) :
    Argument.numbersOf f.arguments = f.emitted := rfl

theorem MembershipFilter.numbersOf_arguments (f : MembershipFilter) :
    Argument.numbersOf f.arguments = f.emitted :=
  Argument.numbersOf_numbers f.values

theorem Filters.numbersOf_arguments (f : Filters) :
    Argument.numbersOf f.arguments = f.emitted := by
  have pattern : Argument.numbersOf (f.pattern.elim [] fun p => [.word "MATCH", .word p]) = [] :=
    Argument.numbersOf_optional f.pattern fun _ => rfl
  simp only [arguments, Argument.numbersOf_append, Argument.numbersOf_flatMap, pattern,
    RangeFilter.numbersOf_arguments, MembershipFilter.numbersOf_arguments, List.append_nil]
  rfl

theorem OutputFormat.numbersOf_arguments (f : OutputFormat) :
    Argument.numbersOf f.arguments = [] := by
  cases f <;> rfl

theorem Selection.numbersOf_arguments {α : Type} [Enumerated α] (clause : String)
    (s : Selection α) : Argument.numbersOf (s.arguments clause) = [] :=
  Argument.numbersOf_optional s.token? fun _ => rfl

theorem Area.numbersOf_arguments (a : Area) : Argument.numbersOf a.arguments = a.emitted := by
  cases a <;> rfl

theorem Payload.numbersOf_arguments (p : Payload) : Argument.numbersOf p.arguments = p.emitted := by
  cases p with
  | point lat lon z => cases z <;> rfl
  | bounds => rfl
  | hash => rfl
  | object => rfl
  | string => rfl

theorem SearchQuery.numbersOf_arguments (q : SearchQuery) :
    Argument.numbersOf q.arguments = q.emitted := by
  have word64 (word : String) (o : Option UInt64) :
      Argument.numbersOf (o.elim [] fun n => [.word word, .nat n.toNat]) = [] :=
    Argument.numbersOf_optional o fun _ => rfl
  have format : Argument.numbersOf (q.format.elim [] OutputFormat.arguments) = [] :=
    Argument.numbersOf_optional q.format OutputFormat.numbersOf_arguments
  simp only [arguments, emitted, List.cons_append, Argument.numbersOf_word,
    Argument.numbersOf_append, Filters.numbersOf_arguments, word64, Argument.numbersOf_flag, format,
    List.append_nil]
  cases q.area with
  | some area => exact congrArg (q.filters.emitted ++ ·) area.numbersOf_arguments
  | none => cases q.predicate <;> rfl

theorem FenceQuery.numbersOf_arguments (q : FenceQuery) :
    Argument.numbersOf q.arguments = q.emitted := by
  have cursor : Argument.numbersOf
      (q.cursor.elim [] fun n => [.word "CURSOR", .nat n.toNat]) = [] :=
    Argument.numbersOf_optional q.cursor fun _ => rfl
  simp only [arguments, emitted, List.cons_append, Argument.numbersOf_word,
    Argument.numbersOf_append, Filters.numbersOf_arguments, cursor, Argument.numbersOf_flag,
    Selection.numbersOf_arguments, List.nil_append, List.append_assoc]
  cases q.format with
  | none => cases q.predicate <;> rfl
  | some format =>
      have wordsOnly := format.numbersOf_arguments
      cases q.predicate <;> simp [wordsOnly, FencePredicate.point, Argument.point]

theorem WriteQuery.numbersOf_arguments (q : WriteQuery) :
    Argument.numbersOf q.arguments = q.emitted := by
  have expiration : Argument.numbersOf
      (q.expiration.elim [] fun n => [.word "EX", .nat n.toNat]) = [] :=
    Argument.numbersOf_optional q.expiration fun _ => rfl
  have condition : Argument.numbersOf (q.condition.elim [] fun c => [.word c.token]) = [] :=
    Argument.numbersOf_optional q.condition fun _ => rfl
  have fields : Argument.numbersOf (q.fields.flatMap FieldValue.arguments) =
      q.fields.map fun f => ("FIELD", f.value) := by
    rw [Argument.numbersOf_flatMap, List.map_eq_flatMap]
    rfl
  simp only [arguments, emitted, List.cons_append, Argument.numbersOf_word,
    Argument.numbersOf_append, expiration, fields, condition, List.append_nil, List.nil_append]
  cases q.payload with
  | none => rfl
  | some payload => exact congrArg (_ ++ ·) payload.numbersOf_arguments

namespace Query

theorem numbersOf_arguments (q : Query) : Argument.numbersOf q.arguments = q.emitted := by
  cases q with
  | search query => exact query.numbersOf_arguments
  | geofence query => exact query.numbersOf_arguments
  | set query => exact query.numbersOf_arguments
  | key query => cases query <;> rfl

theorem compile_eq_error_iff {q : Query} {e : Error} :
    q.compile = .error e ↔ ∃ n, q.emitted.find? (fun n => !n.2.isFinite) = some n ∧
      e = .nonFinite n.1 n.2 := by
  rw [compile_eq, Compilation.result_ofArguments, ← numbersOf_arguments,
    ← Argument.encodeAll_eq_error_iff]
  cases Argument.encodeAll q.arguments <;> simp [Except.map]

theorem exists_compile_iff {q : Query} :
    (∃ c, q.compile = .ok c) ↔ ∀ n ∈ q.emitted, n.2.isFinite = true := by
  constructor
  · intro h n member
    obtain ⟨c, compiled⟩ := h
    cases found : q.emitted.find? (fun n => !n.2.isFinite) with
    | none => simpa using List.find?_eq_none.1 found n member
    | some first => cases compiled.symm.trans (compile_eq_error_iff.2 ⟨first, found, rfl⟩)
  · intro finite
    cases compiled : q.compile with
    | ok c => exact ⟨c, rfl⟩
    | error e =>
        obtain ⟨n, found, -⟩ := compile_eq_error_iff.1 compiled
        have bad := List.find?_some found
        rw [finite n (List.mem_of_find?_eq_some found)] at bad
        cases bad

/-- Compiling fails if a number of the command is not finite, and only then; the clause and the value
that it fails with are those of the first such number. -/
theorem compile_fails_at_first_nonFinite (q : Query) :
    ((∃ e, q.compile = .error e) ↔ ∃ n ∈ q.emitted, n.2.isFinite = false) ∧
      ∀ e, q.compile = .error e ↔
        ∃ before clause value behind, q.emitted = before ++ (clause, value) :: behind ∧
          (∀ n ∈ before, n.2.isFinite = true) ∧ value.isFinite = false ∧
            e = .nonFinite clause value := by
  have some_iff (n : String × Binary64) :
      q.emitted.find? (fun n => !n.2.isFinite) = some n ↔
        n.2.isFinite = false ∧ ∃ before behind, q.emitted = before ++ n :: behind ∧
          ∀ m ∈ before, m.2.isFinite = true := by
    simp only [List.find?_eq_some_iff_append, Bool.not_eq_true', Bool.not_eq_false']
  refine ⟨?_, fun e => ?_⟩
  · constructor
    · intro h
      obtain ⟨e, fails⟩ := h
      obtain ⟨n, first, -⟩ := compile_eq_error_iff.1 fails
      exact ⟨n, List.mem_of_find?_eq_some first, ((some_iff n).1 first).1⟩
    · intro h
      obtain ⟨n, member, bad⟩ := h
      have found : (q.emitted.find? fun n => !n.2.isFinite).isSome = true :=
        List.find?_isSome.2 ⟨n, member, by simp [bad]⟩
      obtain ⟨first, isFirst⟩ := Option.isSome_iff_exists.1 found
      exact ⟨_, compile_eq_error_iff.2 ⟨first, isFirst, rfl⟩⟩
  · rw [compile_eq_error_iff]
    constructor
    · intro h
      obtain ⟨⟨clause, value⟩, first, rfl⟩ := h
      obtain ⟨bad, before, behind, split, finite⟩ := (some_iff _).1 first
      exact ⟨before, clause, value, behind, split, finite, bad, rfl⟩
    · intro h
      obtain ⟨before, clause, value, behind, split, finite, bad, rfl⟩ := h
      exact ⟨(clause, value), (some_iff _).2 ⟨bad, before, behind, split, finite⟩, rfl⟩

-- Of four bad numbers the point is hidden by the area, and the filter stands before the area.
example : compile
    (.search
      { predicate := .nearby "fleet" .nan .nan default
        filters := { memberships := [⟨"speed", [default, .infinite true]⟩] }
        area := some (.circle .nan default default) }) =
    .error (.nonFinite "WHEREIN" (.infinite true)) := rfl

end Query

end GeoQuery
