import GeoQuery.Proofs.Query.Emitted
import GeoQuery.Proofs.Query.RoundTrip
import GeoQuery.Proofs.Shape.Declared
import GeoQuery.Proofs.Shape.FromJson
import GeoQuery.Proofs.Shape.Finite

namespace GeoQuery

open Json Outcome

namespace Query

theorem ofJsonText_eq_ok_iff_describes {text : String} {q : Query} :
    ofJsonText text = .ok q ↔
      ∃ j, readWhole (read maxDepth) text = .ok j ∧
        ∃ value, shape.Describes j value ∧ ofValue value = q := by
  simp only [ofJsonText_eq_ok_iff, shape.ofWritten_eq_ok_iff plain_shape]

theorem ofJsonText_eq_error {text : String} {e : Error} (h : ofJsonText text = .error e) :
    ∃ reason, e = .json reason := by
  unfold ofJsonText at h
  split at h
  · cases h
  · next reason _ =>
      cases h
      exact ⟨reason, rfl⟩

theorem describes_of_ofJson {j : Json} {q : Query} (h : ofJson j = .ok q) :
    ∃ value, shape.Describes j value ∧ ofValue value = q := by
  obtain ⟨value, accepted, same⟩ := ofJson_eq_ok_iff.1 h
  exact ⟨value, shape.describes_of_ofJson plain_shape j value accepted, same⟩

end Query

namespace Cli

def descriptions : Json → List Json
  | .array items => items
  | j => [j]

theorem queriesOfText_eq_ok_iff_each {text : String} {queries : List Query} :
    queriesOfText text = .ok queries ↔ ∃ j, Json.ofText text = .ok j ∧
      List.Forall₂ (fun j q => Query.ofJson j = .ok q) (descriptions j) queries := by
  have one (j : Json) : (Query.ofJson j).map (fun query => [query]) = .ok queries ↔
      List.Forall₂ (fun j q => Query.ofJson j = .ok q) [j] queries := by
    rw [map_eq_ok_iff]
    simp [List.forall₂_cons_left_iff, eq_comm]
  unfold queriesOfText
  cases Json.ofText text with
  | error reason => simp
  | ok j =>
      simp only [mapError_eq_ok_iff, Except.ok.injEq, exists_eq_left']
      cases j with
      | array items => exact mapM_eq_ok_iff
      | leaf l => exact one _
      | object members => exact one _

theorem describes_of_queriesOfText {text : String} {queries : List Query}
    (h : queriesOfText text = .ok queries) :
    ∃ j, Json.ofText text = .ok j ∧ List.Forall₂
      (fun item q => ∃ value, Query.shape.Describes item value ∧ Query.ofValue value = q)
      (descriptions j) queries := by
  obtain ⟨j, read, each⟩ := queriesOfText_eq_ok_iff_each.1 h
  exact ⟨j, read, each.imp fun item q => Query.describes_of_ofJson⟩

theorem queriesOfText_ne_uncompilable {text : String} {number : Nat} {reason : Error} :
    queriesOfText text ≠ .error (.uncompilable number reason) := by
  unfold queriesOfText
  cases Json.ofText text with
  | error fault => exact nofun
  | ok j =>
      have misdescribed (x : Except Mismatch (List Query)) :
          x.mapError Failure.misdescribed ≠ .error (.uncompilable number reason) := by
        cases x <;> exact nofun
      exact misdescribed _

end Cli

namespace Query

/-- No name of a description is ignored: whatever the library or the tool accepts has only names that
are known where they stand, and a text with any other name is refused. -/
theorem accepted_names_known :
    (∀ text q, ofJsonText text = .ok q →
      ∃ j, readWhole (read maxDepth) text = .ok j ∧ shape.Declares j) ∧
    (∀ text, (∀ j, readWhole (read maxDepth) text = .ok j → ¬ shape.Declares j) →
      ∃ reason, ofJsonText text = .error (.json reason)) ∧
    (∀ j q, ofJson j = .ok q → shape.Declares j) ∧
    ∀ text queries, Cli.queriesOfText text = .ok queries →
      ∃ j, Json.ofText text = .ok j ∧ ∀ item ∈ Cli.descriptions j, shape.Declares item := by
  have fromText (text : String) (q : Query) (h : ofJsonText text = .ok q) :
      ∃ j, readWhole (read maxDepth) text = .ok j ∧ shape.Declares j := by
    obtain ⟨j, read, value, described, -⟩ := ofJsonText_eq_ok_iff_describes.1 h
    exact ⟨j, read, shape.declares_of_describes described⟩
  have fromValue (j : Json) (q : Query) (h : ofJson j = .ok q) : shape.Declares j := by
    obtain ⟨value, described, -⟩ := describes_of_ofJson h
    exact shape.declares_of_describes described
  refine ⟨fromText, fun text unknown => ?_, fromValue, fun text queries h => ?_⟩
  · cases outcome : ofJsonText text with
    | ok q =>
        obtain ⟨j, read, known⟩ := fromText text q outcome
        exact absurd known (unknown j read)
    | error e =>
        obtain ⟨reason, rfl⟩ := ofJsonText_eq_error outcome
        exact ⟨reason, rfl⟩
  · obtain ⟨j, read, described⟩ := Cli.describes_of_queriesOfText h
    refine ⟨j, read, forall_mem_of_forall₂ described ?_⟩
    rintro item q ⟨value, described, -⟩
    exact shape.declares_of_describes described

def strayText : String :=
  "\x7b\"set\":\x7b\"key\":\"k\",\"id\":\"i\",\"fields\":[\x7b\"name\":\"n\",\"value\":1,\"unit\":\"m\"\x7d]\x7d\x7d"

def strayJson : Json :=
  .object [("set", .object
    [("key", .leaf (.text "k")), ("id", .leaf (.text "i")),
      ("fields", .array [.object
        [("name", .leaf (.text "n")), ("value", .leaf (.number (.integer (.ofUInt64 1)))),
          ("unit", .leaf (.text "m"))]])])]

theorem compact_strayJson : strayJson.compact = strayText := by decide +kernel

theorem readWhole_strayText : readWhole (read maxDepth) strayText = .ok strayJson := by
  rw [← compact_strayJson]
  exact readWhole_compact (by decide)

theorem accepted_repeatingText :
    (ofJsonText repeatingText).isOk = true ∧ (Cli.queriesOfText repeatingText).isOk = true := by
  decide +kernel

def dropJson : Json :=
  .object [("key", .object [("key", .leaf (.text "k")), ("cmd", .leaf (.text "drop"))])]

theorem accepted_names_known_stray :
    (∃ reason, ofJsonText strayText = .error (.json reason)) ∧
      (∃ j, readWhole (read maxDepth) repeatingText = .ok j ∧ shape.Declares j) ∧
        shape.Declares dropJson ∧
          ∃ j, Json.ofText repeatingText = .ok j ∧
            ∀ item ∈ Cli.descriptions j, shape.Declares item := by
  obtain ⟨fromText, refused, fromValue, fromTool⟩ := accepted_names_known
  obtain ⟨q, accepted⟩ := exists_eq_ok_of_isOk accepted_repeatingText.1
  obtain ⟨queries, acceptedByTool⟩ := exists_eq_ok_of_isOk accepted_repeatingText.2
  have stray (j : Json) (read : readWhole (read maxDepth) strayText = .ok j) :
      ¬ shape.Declares j := by
    rw [readWhole_strayText] at read
    obtain rfl := Except.ok.inj read
    simp [strayJson, Shape.Declares, Variants.Declares, Fields.DeclaresMember]
  exact ⟨refused strayText stray, fromText _ q accepted,
    fromValue dropJson (.key (.drop "k")) rfl, fromTool _ queries acceptedByTool⟩

end Query

theorem finite_cons {x : Binary64} {numbers : List Binary64} (first : x.isFinite = true)
    (others : ∀ y ∈ numbers, y.isFinite = true) : ∀ y ∈ x :: numbers, y.isFinite = true :=
  List.forall_mem_cons.2 ⟨first, others⟩

section Slots

variable {α : Type} {item : Shape} {ofValue : item.Value → α} {numbers : α → List Binary64}

theorem finite_list {values : Option (List item.Value)}
    (h : ∀ v, values = some v → (Shape.list item).Finite v)
    (each : ∀ value, item.Finite value → ∀ x ∈ numbers (ofValue value), x.isFinite = true) :
    ∀ x ∈ ((values.getD []).map ofValue).flatMap numbers, x.isFinite = true := by
  cases values with
  | none => exact nofun
  | some values =>
      have finite : ∀ value ∈ values, item.Finite value := List.forall_iff_forall_mem.1 (h values rfl)
      intro x member
      obtain ⟨a, own, inside⟩ := List.mem_flatMap.1 member
      obtain ⟨value, listed, rfl⟩ := List.mem_map.1 own
      exact each value (finite value listed) x inside

theorem finite_option {value : Option (Option item.Value)}
    (h : ∀ v, value = some v → (Shape.optional item).Finite v)
    (each : ∀ value, item.Finite value → ∀ x ∈ numbers (ofValue value), x.isFinite = true) :
    ∀ x ∈ (value.join.map ofValue).elim [] numbers, x.isFinite = true := by
  match value with
  | none | some none => exact nofun
  | some (some value) => exact each value (h _ rfl)

end Slots

theorem RangeFilter.finite_ofValue : (value : shape.Value) → shape.Finite value →
    ∀ x ∈ (ofValue value).numbers, x.isFinite = true
  | (_, _, _, ()), ⟨_, min, max, _⟩ =>
      finite_cons min (finite_cons max nofun)

theorem MembershipFilter.finite_ofValue : (value : shape.Value) → shape.Finite value →
    ∀ x ∈ (ofValue value).numbers, x.isFinite = true
  | (_, _, ()), ⟨_, values, _⟩ => List.forall_iff_forall_mem.1 values

theorem FieldValue.finite_ofValue : (value : shape.Value) → shape.Finite value →
    ∀ x ∈ (ofValue value).numbers, x.isFinite = true
  | (_, _, ()), ⟨_, value, _⟩ =>
      finite_cons value nofun

theorem Area.finite_ofValue : (value : shape.Value) → shape.Finite value →
    ∀ x ∈ (ofValue value).numbers, x.isFinite = true
  | .inr (.inl (_, _, _, _, ())), ⟨minLat, minLon, maxLat, maxLon, _⟩ =>
      finite_cons minLat (finite_cons minLon (finite_cons maxLat (finite_cons maxLon nofun)))
  | .inr (.inr (.inl (_, _, _, ()))), ⟨lat, lon, meters, _⟩ =>
      finite_cons lat (finite_cons lon (finite_cons meters nofun))
  | .inl _, _ | .inr (.inr (.inr (.inl _))), _ | .inr (.inr (.inr (.inr (.inl _)))), _
  | .inr (.inr (.inr (.inr (.inr (.inl _))))), _
  | .inr (.inr (.inr (.inr (.inr (.inr (.inl _)))))), _ => nofun

theorem Payload.finite_ofValue : (value : shape.Value) → shape.Finite value →
    ∀ x ∈ (ofValue value).numbers, x.isFinite = true
  | .inl (_, _, some (some _), ()), ⟨lat, lon, z, _⟩ =>
      finite_cons lat (finite_cons lon (finite_cons (z _ rfl) nofun))
  | .inl (_, _, none, ()), ⟨lat, lon, _⟩ | .inl (_, _, some none, ()), ⟨lat, lon, _⟩ =>
      finite_cons lat (finite_cons lon nofun)
  | .inr (.inl (_, _, _, _, ())), ⟨minLat, minLon, maxLat, maxLon, _⟩ =>
      finite_cons minLat (finite_cons minLon (finite_cons maxLat (finite_cons maxLon nofun)))
  | .inr (.inr (.inl _)), _ | .inr (.inr (.inr (.inl _))), _
  | .inr (.inr (.inr (.inr (.inl _)))), _ => nofun

theorem SearchPredicate.finite_ofValue : (value : shape.Value) → shape.Finite value →
    ∀ x ∈ (ofValue value).numbers, x.isFinite = true
  | .inl (_, _, _, _, ()), ⟨_, lat, lon, radius, _⟩ =>
      finite_cons lat (finite_cons lon (finite_cons radius nofun))
  | .inr (.inl _), _ | .inr (.inr (.inl _)), _ => nofun

theorem FencePredicate.finite_ofValue : (value : shape.Value) → shape.Finite value →
    ∀ x ∈ (ofValue value).numbers, x.isFinite = true
  | .inl (_, _, _, _, ()), ⟨_, lat, lon, radius, _⟩ =>
      finite_cons lat (finite_cons lon (finite_cons radius nofun))
  | .inr (.inr (.inr (.inl (_, _, _, _, ())))), ⟨_, _, _, meters, _⟩ =>
      finite_cons meters nofun
  | .inr (.inl _), _ | .inr (.inr (.inl _)), _ => nofun

theorem SearchQuery.finite_ofValue : (value : shape.Value) → shape.Finite value →
    ∀ x ∈ (ofValue value).numbers, x.isFinite = true
  | (_, _, _, _, _, _, _, _, _, ()), ⟨predicate, ranges, memberships, _, _, _, _, _, area, _⟩ => by
      simp only [numbers, Filters.numbers, List.forall_mem_append]
      exact ⟨⟨SearchPredicate.finite_ofValue _ predicate,
        finite_list ranges RangeFilter.finite_ofValue,
        finite_list memberships MembershipFilter.finite_ofValue⟩,
        finite_option area Area.finite_ofValue⟩

theorem FenceQuery.finite_ofValue : (value : shape.Value) → shape.Finite value →
    ∀ x ∈ (ofValue value).numbers, x.isFinite = true
  | (_, _, _, _, _, _, _, _, _, _, ()), ⟨predicate, _, _, ranges, memberships, _⟩ => by
      simp only [numbers, Filters.numbers, List.forall_mem_append]
      exact ⟨FencePredicate.finite_ofValue _ predicate,
        finite_list ranges RangeFilter.finite_ofValue,
        finite_list memberships MembershipFilter.finite_ofValue⟩

theorem WriteQuery.finite_ofValue : (value : shape.Value) → shape.Finite value →
    ∀ x ∈ (ofValue value).numbers, x.isFinite = true
  | (_, _, _, _, _, _, ()), ⟨_, _, _, fields, _, payload, _⟩ => by
      simp only [numbers, List.forall_mem_append]
      exact ⟨finite_list fields FieldValue.finite_ofValue,
        finite_option payload Payload.finite_ofValue⟩

namespace Query

theorem finite_ofValue : (value : shape.Value) → shape.Finite value →
    ∀ x ∈ (ofValue value).numbers, x.isFinite = true
  | .inl value, finite => SearchQuery.finite_ofValue value finite
  | .inr (.inl value), finite => FenceQuery.finite_ofValue value finite
  | .inr (.inr (.inl value)), finite => WriteQuery.finite_ofValue value finite
  | .inr (.inr (.inr (.inl _))), _ => nofun

end Query

theorem MembershipFilter.snd_emitted (f : MembershipFilter) :
    f.emitted.map Prod.snd = f.numbers := by
  simp [emitted, numbers, Function.comp_def]

theorem Filters.snd_emitted (f : Filters) : f.emitted.map Prod.snd = f.numbers := by
  simp only [emitted, numbers, List.map_append, List.map_flatMap, MembershipFilter.snd_emitted]
  rfl

theorem Area.snd_emitted (a : Area) : a.emitted.map Prod.snd = a.numbers := by
  cases a <;> rfl

theorem Payload.snd_emitted (p : Payload) : p.emitted.map Prod.snd = p.numbers := by
  cases p with
  | point lat lon z => cases z <;> rfl
  | bounds => rfl
  | hash => rfl
  | object => rfl
  | string => rfl

theorem SearchQuery.snd_emitted_subset (q : SearchQuery) : q.emitted.map Prod.snd ⊆ q.numbers := by
  have filters : q.filters.numbers ⊆ q.numbers := by simp [numbers]
  rw [emitted, List.map_append, Filters.snd_emitted]
  refine List.append_subset.2 ⟨filters, ?_⟩
  cases area : q.area with
  | some a =>
      rw [Area.snd_emitted]
      simp [numbers, area]
  | none =>
      have predicate : q.predicate.numbers ⊆ q.numbers := by simp [numbers]
      cases kind : q.predicate with
      | nearby key lat lon radius =>
          rw [kind] at predicate
          exact predicate
      | intersects | within => exact List.nil_subset _

theorem FenceQuery.snd_emitted_subset (q : FenceQuery) : q.emitted.map Prod.snd ⊆ q.numbers := by
  have filters : q.filters.numbers ⊆ q.numbers := by simp [numbers]
  have predicate : q.predicate.numbers ⊆ q.numbers := by simp [numbers]
  rw [emitted, List.map_append, Filters.snd_emitted]
  refine List.append_subset.2 ⟨filters, ?_⟩
  cases kind : q.predicate with
  | nearby key lat lon radius =>
      rw [kind] at predicate
      exact predicate
  | intersects | within => exact List.nil_subset _
  | roam key target pattern meters =>
      cases q.format with
      | none =>
          rw [kind] at predicate
          exact predicate
      | some format => exact List.nil_subset _

theorem WriteQuery.snd_emitted (q : WriteQuery) : q.emitted.map Prod.snd = q.numbers := by
  have fields : (q.fields.map fun f => ("FIELD", f.value)).map Prod.snd =
      q.fields.flatMap FieldValue.numbers := by
    rw [List.map_map, List.map_eq_flatMap]
    rfl
  rw [emitted, numbers, List.map_append, fields]
  cases q.payload with
  | none => rfl
  | some payload => exact congrArg (_ ++ ·) payload.snd_emitted

namespace Query

theorem snd_emitted_subset (q : Query) : q.emitted.map Prod.snd ⊆ q.numbers := by
  cases q with
  | search query => exact query.snd_emitted_subset
  | geofence query => exact query.snd_emitted_subset
  | set query =>
      have same : (set query).emitted.map Prod.snd = (set query).numbers := query.snd_emitted
      rw [same]
      exact List.Subset.refl _
  | key query => exact List.nil_subset _

theorem compile_of_finite {q : Query} (finite : ∀ x ∈ q.numbers, x.isFinite = true) :
    ∃ c, q.compile = .ok c :=
  exists_compile_iff.2 fun _ member => finite _ (q.snd_emitted_subset (List.mem_map_of_mem member))

theorem compile_of_describes {j : Json} {value : shape.Value} (h : shape.Describes j value) :
    ∃ c, (ofValue value).compile = .ok c :=
  compile_of_finite (finite_ofValue value (shape.finite_of_describes h))

theorem compile_of_ofJsonText {text : String} {q : Query} (h : ofJsonText text = .ok q) :
    ∃ c, q.compile = .ok c := by
  obtain ⟨j, -, value, described, rfl⟩ := ofJsonText_eq_ok_iff_describes.1 h
  exact compile_of_describes described

end Query

theorem Cli.compileFrom_of_compile {queries : List Query}
    (each : ∀ q ∈ queries, ∃ c, q.compile = .ok c) (number : Nat) :
    ∃ commands, compileFrom number queries = .ok commands := by
  induction queries generalizing number with
  | nil => exact ⟨[], rfl⟩
  | cons q queries ih =>
      obtain ⟨⟨c, compiled⟩, others⟩ := List.forall_mem_cons.1 each
      obtain ⟨commands, rest⟩ := ih others (number + 1)
      refine ⟨c :: commands, ?_⟩
      rw [compileFrom, compiled, rest]
      rfl

theorem Cli.compile_of_queriesOfText {text : String} {queries : List Query}
    (h : queriesOfText text = .ok queries) : ∀ q ∈ queries, ∃ c, q.compile = .ok c := by
  obtain ⟨j, -, described⟩ := describes_of_queriesOfText h
  refine forall_mem_of_forall₂ described.flip ?_
  rintro _ item ⟨value, described, rfl⟩
  exact Query.compile_of_describes described

namespace Query

/-- Whatever description the library or the tool accepts, its query compiles, so the tool never fails
to compile a query that it has read. -/
theorem accepted_compile :
    (∀ text q, ofJsonText text = .ok q → ∃ c, q.compile = .ok c) ∧
    (∀ text queries number, Cli.queriesOfText text = .ok queries →
      ∃ commands, Cli.compileFrom number queries = .ok commands) ∧
    ∀ json text number reason, Cli.compileText json text ≠ .error (.uncompilable number reason) := by
  have each (text : String) (queries : List Query) (number : Nat)
      (h : Cli.queriesOfText text = .ok queries) :
      ∃ commands, Cli.compileFrom number queries = .ok commands :=
    Cli.compileFrom_of_compile (Cli.compile_of_queriesOfText h) number
  refine ⟨fun _ _ => compile_of_ofJsonText, each, ?_⟩
  intro json text number reason h
  obtain unread | ⟨queries, read, h⟩ := bind_eq_error_iff.1 h
  · exact Cli.queriesOfText_ne_uncompilable unread
  · obtain ⟨commands, compiled⟩ := each text queries 1 read
    rw [compiled] at h
    cases h

def pointText : String :=
  "\x7b\"set\":\x7b\"key\":\"k\",\"id\":\"i\",\"payload\":\x7b\"point\":\x7b\"lat\":1,\"lon\":2e-1\x7d\x7d\x7d\x7d"

theorem accepted_pointText :
    (ofJsonText pointText).isOk = true ∧ (Cli.queriesOfText pointText).isOk = true := by
  decide +kernel

theorem accepted_compile_point :
    (∃ q c, ofJsonText pointText = .ok q ∧ q.compile = .ok c) ∧
      ∃ queries commands, Cli.queriesOfText pointText = .ok queries ∧
        Cli.compileFrom 1 queries = .ok commands := by
  obtain ⟨q, accepted⟩ := exists_eq_ok_of_isOk accepted_pointText.1
  obtain ⟨queries, acceptedByTool⟩ := exists_eq_ok_of_isOk accepted_pointText.2
  obtain ⟨c, compiled⟩ := accepted_compile.1 _ q accepted
  obtain ⟨commands, allCompiled⟩ := accepted_compile.2.1 _ queries 1 acceptedByTool
  exact ⟨⟨q, c, accepted, compiled⟩, queries, commands, acceptedByTool, allCompiled⟩

end Query

end GeoQuery
