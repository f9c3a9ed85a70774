import GeoQuery.Proofs.Query.Visible

namespace GeoQuery

variable {α : Type} {word : String} {offset : Nat} {own : α → Argument}

namespace Argument

def flag (word : String) (given : Bool) : List Argument := if given then [.word word] else []

/-- One argument is the scalar, `offset` arguments behind the word of its clause, and no other argument
depends on the scalar. -/
def StandsBehind (word : String) (offset : Nat) (own : α → Argument)
    (arguments : α → List Argument) : Prop :=
  ∃ before between back, between.length = offset ∧
    ∀ x, arguments x = before ++ .word word :: (between ++ own x :: back)

namespace StandsBehind

variable {arguments : α → List Argument}

theorem prepend (h : StandsBehind word offset own arguments) (front : List Argument) :
    StandsBehind word offset own fun x => front ++ arguments x := by
  obtain ⟨before, between, back, long, same⟩ := h
  refine ⟨front ++ before, between, back, long, fun x => ?_⟩
  dsimp only
  rw [same, List.append_assoc]

theorem append (h : StandsBehind word offset own arguments) (behind : List Argument) :
    StandsBehind word offset own fun x => arguments x ++ behind := by
  obtain ⟨before, between, back, long, same⟩ := h
  refine ⟨before, between, back ++ behind, long, fun x => ?_⟩
  dsimp only
  rw [same, List.append_assoc, List.cons_append, List.append_assoc, List.cons_append]

theorem flatMap {β : Type} {body : β → List Argument} {item : α → β}
    (h : StandsBehind word offset own fun x => body (item x)) (front back : List β) :
    StandsBehind word offset own fun x => (front ++ item x :: back).flatMap body := by
  simp only [List.flatMap_append, List.flatMap_cons]
  apply StandsBehind.prepend
  apply StandsBehind.append
  exact h

theorem exists_tokens (h : StandsBehind word offset own arguments) :
    ∃ before between back : List String, between.length = offset ∧
      ∀ x, (arguments x).map token = before ++ word :: (between ++ (own x).token :: back) := by
  obtain ⟨before, between, back, long, same⟩ := h
  refine ⟨before.map token, between.map token, back.map token, ?_, fun x => ?_⟩
  · rw [List.length_map, long]
  · rw [same, List.map_append, List.map_cons, List.map_append, List.map_cons]
    rfl

end StandsBehind

theorem standsBehind_next : StandsBehind word 0 own fun x => [.word word, own x] :=
  ⟨[], [], [], rfl, fun _ => rfl⟩

theorem standsBehind_numbers (between : List Argument) {values : Binary64 → List Binary64}
    {front back : List Binary64} (same : ∀ x, values x = front ++ x :: back)
    (long : between.length + front.length = offset) :
    StandsBehind word offset (.number word) fun x =>
      .word word :: (between ++ numbers word (values x)) := by
  refine ⟨[], between ++ numbers word front, numbers word back, ?_, fun x => ?_⟩
  · rw [List.length_append, numbers, List.length_map, long]
  · simp [numbers, same]

/-- The count in front of the numbers does not depend on which numbers they are. -/
theorem standsBehind_counted (between : List Argument) (front back : List Binary64) :
    StandsBehind word (between.length + 1 + front.length) (.number word) fun x =>
      .word word :: (between ++ counted word (front ++ x :: back)) := by
  refine ⟨[], between ++ nat (front.length + (back.length + 1)) :: numbers word front,
    numbers word back, ?_, fun x => ?_⟩
  · simp [numbers, Nat.add_right_comm, Nat.add_assoc]
  · simp [counted, numbers]

end Argument

open Argument (StandsBehind)

def Query.words (q : Query) : List Argument := .word q.name :: q.arguments

theorem Query.compile_eq_of_words_eq {p q : Query} (same : p.words = q.words) :
    p.compile = q.compile := by
  obtain ⟨names, arguments⟩ := List.cons.inj same
  rw [compile_eq, compile_eq, Argument.word.inj names, arguments]

theorem Query.tokens_of_compile {q : Query} {c : Command} (compiled : q.compile = .ok c) :
    c.tokens = q.words.map Argument.token := by
  obtain ⟨-, rfl⟩ := compile_eq_ok_iff.1 compiled
  rfl

namespace SearchQuery

def options (q : SearchQuery) : List Argument :=
  (q.cursor.elim [] fun n => [Argument.word "CURSOR", .nat n.toNat]) ++
    (q.limit.elim [] fun n => [Argument.word "LIMIT", .nat n.toNat]) ++
    Argument.flag "NOFIELDS" q.noFields ++ q.format.elim [] OutputFormat.arguments

theorem arguments_eq (q : SearchQuery) :
    q.arguments = [Argument.word q.predicate.key] ++ (q.filters.arguments ++
      (q.options ++ q.area.elim q.predicate.arguments Area.arguments)) := by
  simp [arguments, options, Argument.flag]

theorem words_eq (q : SearchQuery) :
    (Query.search q).words = [Argument.word q.predicate.name, Argument.word q.predicate.key] ++
      (q.filters.arguments ++ (q.options ++ q.area.elim q.predicate.arguments Area.arguments)) := by
  rw [Query.words, Query.arguments, arguments_eq]
  rfl

variable (q : SearchQuery)

theorem words_withFilters (filters : Filters) :
    (Query.search { q with filters }).words =
      [Argument.word q.predicate.name, Argument.word q.predicate.key] ++
        (filters.arguments ++ (q.options ++ q.area.elim q.predicate.arguments Area.arguments)) :=
  words_eq _

theorem words_withPredicate (predicate : SearchPredicate) :
    (Query.search { q with predicate }).words =
      [Argument.word predicate.name, Argument.word predicate.key] ++ (q.filters.arguments ++
        (q.options ++ q.area.elim predicate.arguments Area.arguments)) :=
  words_eq _

theorem words_setArea (area : Area) :
    (Query.search (q.setArea area)).words =
      [Argument.word q.predicate.name, Argument.word q.predicate.key] ++
        (q.filters.arguments ++ (q.options ++ area.arguments)) :=
  words_eq _

theorem standsBehind_filters {filters : α → Filters}
    (h : StandsBehind word offset own fun x => (filters x).arguments) :
    StandsBehind word offset own fun x =>
      (Query.search { q with filters := filters x }).words := by
  simp only [words_withFilters]
  apply StandsBehind.prepend
  apply StandsBehind.append
  exact h

theorem standsBehind_area {area : α → Area}
    (h : StandsBehind word offset own fun x => (area x).arguments) :
    StandsBehind word offset own fun x => (Query.search (q.setArea (area x))).words := by
  simp only [words_setArea]
  apply StandsBehind.prepend
  apply StandsBehind.prepend
  apply StandsBehind.prepend
  exact h

end SearchQuery

namespace FenceQuery

def flags (q : FenceQuery) : List Argument :=
  Argument.flag "CLIP" q.clip ++ Argument.flag "DISTANCE" q.distance

def options (q : FenceQuery) : List Argument :=
  (q.cursor.elim [] fun n => [Argument.word "CURSOR", .nat n.toNat]) ++
    Argument.word "FENCE" :: q.events.arguments "DETECT" ++ q.writes.arguments "COMMANDS"

theorem arguments_eq (q : FenceQuery) :
    q.arguments = ([Argument.word q.predicate.key] ++ q.flags) ++
      (q.filters.arguments ++ (q.options ++
        (q.format.elim q.predicate.roaming OutputFormat.arguments ++ q.predicate.point))) := by
  simp [arguments, flags, options, Argument.flag]

theorem words_eq (q : FenceQuery) :
    (Query.geofence q).words = ([Argument.word q.predicate.name, Argument.word q.predicate.key] ++
      q.flags) ++ (q.filters.arguments ++ (q.options ++
        (q.format.elim q.predicate.roaming OutputFormat.arguments ++ q.predicate.point))) := by
  rw [Query.words, Query.arguments, arguments_eq]
  rfl

variable (q : FenceQuery)

theorem words_withFilters (filters : Filters) :
    (Query.geofence { q with filters }).words =
      ([Argument.word q.predicate.name, Argument.word q.predicate.key] ++ q.flags) ++
        (filters.arguments ++ (q.options ++
          (q.format.elim q.predicate.roaming OutputFormat.arguments ++ q.predicate.point))) :=
  words_eq _

theorem words_withPredicate (predicate : FencePredicate) :
    (Query.geofence { q with predicate }).words =
      ([Argument.word predicate.name, Argument.word predicate.key] ++ q.flags) ++
        (q.filters.arguments ++ (q.options ++
          (q.format.elim predicate.roaming OutputFormat.arguments ++ predicate.point))) :=
  words_eq _

theorem standsBehind_filters {filters : α → Filters}
    (h : StandsBehind word offset own fun x => (filters x).arguments) :
    StandsBehind word offset own fun x =>
      (Query.geofence { q with filters := filters x }).words := by
  simp only [words_withFilters]
  apply StandsBehind.prepend
  apply StandsBehind.append
  exact h

end FenceQuery

namespace WriteQuery

theorem words_eq (q : WriteQuery) :
    (Query.set q).words = [Argument.word "SET", .word q.key, .word q.id] ++
      ((q.expiration.elim [] fun n => [.word "EX", .nat n.toNat]) ++
        (q.fields.flatMap FieldValue.arguments ++
          ((q.condition.elim [] fun condition => [.word condition.token]) ++
            q.payload.elim [] Payload.arguments))) := by
  simp [Query.words, Query.name, Query.arguments, arguments]

variable (q : WriteQuery)

theorem standsBehind_fields {fields : α → List FieldValue}
    (h : StandsBehind word offset own fun x => (fields x).flatMap FieldValue.arguments) :
    StandsBehind word offset own fun x => (Query.set { q with fields := fields x }).words := by
  simp only [words_eq]
  apply StandsBehind.prepend
  apply StandsBehind.prepend
  apply StandsBehind.append
  exact h

theorem standsBehind_payload {payload : α → Payload}
    (h : StandsBehind word offset own fun x => (payload x).arguments) :
    StandsBehind word offset own fun x => (Query.set (q.setPayload (payload x))).words := by
  simp only [words_eq, setPayload, Option.elim_some]
  apply StandsBehind.prepend
  apply StandsBehind.prepend
  apply StandsBehind.prepend
  apply StandsBehind.prepend
  exact h

end WriteQuery

end GeoQuery
