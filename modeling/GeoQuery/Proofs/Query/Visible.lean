import GeoQuery.Proofs.Clause.Tokens
import GeoQuery.Query

/-!
What the command of a query shows of it. Nothing else than the visible part is lost: two queries that
compile have equal commands exactly if they are of one family and look the same, whatever words their
callers chose.
-/

namespace GeoQuery

open Command

namespace SearchPredicate

def visible : SearchPredicate → SearchPredicate
  | .nearby key lat lon radius => .nearby key lat.unsignZero lon.unsignZero radius.unsignZero
  | predicate => predicate

def withoutPoint : SearchPredicate → SearchPredicate
  | .nearby key _ _ _ => .nearby key default default default
  | predicate => predicate

theorem withoutPoint_inj {p q : SearchPredicate} :
    p.withoutPoint = q.withoutPoint ↔ p.name = q.name ∧ p.key = q.key := by
  cases p <;> cases q <;> simp [withoutPoint, name, key]

theorem visible_inj {p q : SearchPredicate} :
    p.visible = q.visible ↔ p.name = q.name ∧ p.key = q.key ∧
      p.arguments.map Argument.token = q.arguments.map Argument.token := by
  cases p <;> cases q <;>
    simp [visible, name, key, arguments, Argument.map_token_point, Binary64.token_inj]

end SearchPredicate

namespace FencePredicate

def visible : FencePredicate → FencePredicate
  | .nearby key lat lon radius => .nearby key lat.unsignZero lon.unsignZero radius.unsignZero
  | .roam key target pattern meters => .roam key target pattern meters.unsignZero
  | predicate => predicate

def withoutRoaming : FencePredicate → FencePredicate
  | .roam key _ _ _ => .roam key "" "" default
  | predicate => predicate

end FencePredicate

def SearchQuery.visible (q : SearchQuery) : SearchQuery :=
  { q with
    predicate := if q.area.isSome then q.predicate.withoutPoint else q.predicate.visible
    filters := q.filters.visible
    area := q.area.map Area.visible }

def FenceQuery.visible (q : FenceQuery) : FenceQuery :=
  { q with
    predicate :=
      if q.format.isSome then q.predicate.visible.withoutRoaming else q.predicate.visible
    filters := q.filters.visible }

def WriteQuery.visible (q : WriteQuery) : WriteQuery :=
  { q with
    fields := q.fields.map FieldValue.visible
    payload := q.payload.map Payload.visible }

namespace Query

/-- The part of a query that its command shows. -/
def visible : Query → Query
  | .search query => .search query.visible
  | .geofence query => .geofence query.visible
  | .set query => .set query.visible
  | .key query => .key query

def name : Query → String
  | .search query => query.predicate.name
  | .geofence query => query.predicate.name
  | .set _ => "SET"
  | .key query => query.name

def arguments : Query → List Argument
  | .search query => query.arguments
  | .geofence query => query.arguments
  | .set query => query.arguments
  | .key query => query.arguments

theorem compile_eq (q : Query) :
    q.compile = (Compilation.ofArguments q.name q.arguments).result := by
  cases q <;> rfl

/-- A query compiles if its numbers are finite, and then to its name and tokens. -/
theorem compile_eq_ok_iff {q : Query} {c : Command} :
    q.compile = .ok c ↔
      (∀ a ∈ q.arguments, a.IsFinite) ∧ c = ⟨q.name, q.arguments.map Argument.token⟩ := by
  rw [compile_eq, Compilation.result_ofArguments_eq_ok_iff]

end Query

/-- The tokens that searches and fences have in common, up to where a fence says that it is one. -/
structure Front where
  clip : Bool
  distance : Bool
  filters : Filters
  cursor : Option UInt64

namespace Front

def visible (f : Front) : Front := { f with filters := f.filters.visible }

def tokens (f : Front) : List String :=
  (if f.clip then ["CLIP"] else []) ++
    ((if f.distance then ["DISTANCE"] else []) ++
      (f.filters.tokens ++ f.cursor.elim [] fun n => "CURSOR" :: [toString n.toNat]))

def words : List String := ["CLIP", "DISTANCE", "WHERE", "WHEREIN", "MATCH", "CURSOR"]

theorem cuts_tokens {behind : List String} (other : ∀ word ∈ words, word ∉ behind) :
    Cuts tokens visible (Opens behind) := by
  -- The clauses are cut off one by one. Where one may be absent, the words that can open the rest
  -- must not be its own, so what opens each rest comes first.
  have opensCursor (f : Front) {r : List String} (hr : Opens behind r) :
      Opens (["CURSOR"] ++ behind)
        ((f.cursor.elim [] fun n => "CURSOR" :: [toString n.toNat]) ++ r) :=
    (Opens.optional _ _).append hr
  have opensFilters (f : Front) {r : List String} (hr : Opens behind r) :
      Opens (Filters.words ++ (["CURSOR"] ++ behind))
        ((f.filters.tokens ++ f.cursor.elim [] fun n => "CURSOR" :: [toString n.toNat]) ++ r) := by
    rw [List.append_assoc]
    exact f.filters.opens_tokens.append (opensCursor f hr)
  have opensDistance (f : Front) {r : List String} (hr : Opens behind r) :
      Opens (["DISTANCE"] ++ (Filters.words ++ (["CURSOR"] ++ behind)))
        (((if f.distance then ["DISTANCE"] else []) ++ (f.filters.tokens ++
          f.cursor.elim [] fun n => "CURSOR" :: [toString n.toNat])) ++ r) := by
    rw [List.append_assoc]
    exact (Opens.flag f.distance).append (opensFilters f hr)
  have clipFree : "CLIP" ∉ ["DISTANCE"] ++ (Filters.words ++ (["CURSOR"] ++ behind)) := by
    simpa [Filters.words] using other "CLIP" (by decide)
  have distanceFree : "DISTANCE" ∉ Filters.words ++ (["CURSOR"] ++ behind) := by
    simpa [Filters.words] using other "DISTANCE" (by decide)
  have filtersFree : ∀ word ∈ Filters.words, word ∉ ["CURSOR"] ++ behind := by
    simpa [Filters.words] using
      ⟨other "WHERE" (by decide), other "WHEREIN" (by decide), other "MATCH" (by decide)⟩
  have cursor := (Cuts.optional cuts_word64 (other "CURSOR" (by decide))).comap Front.cursor
  have filters := ((Filters.cuts_tokens filtersFree).comap Front.filters).append cursor
    fun f r hr => opensCursor f hr
  have distance := ((Cuts.flag distanceFree).comap Front.distance).append filters
    fun f r hr => opensFilters f hr
  have clip := ((Cuts.flag clipFree).comap Front.clip).append distance
    fun f r hr => opensDistance f hr
  refine clip.of_view fun f g => ?_
  simp [visible]

end Front

namespace SearchQuery

def front (q : SearchQuery) : Front := ⟨false, false, q.filters, q.cursor⟩

def clauses (q : SearchQuery) : List String :=
  (q.limit.elim [] fun n => "LIMIT" :: [toString n.toNat]) ++
    ((if q.noFields then ["NOFIELDS"] else []) ++ q.format.elim [] OutputFormat.tokens)

def trailing (q : SearchQuery) : List String :=
  (q.area.elim q.predicate.arguments Area.arguments).map Argument.token

def clauseWords : List String :=
  ["LIMIT"] ++ (["NOFIELDS"] ++ (OutputFormat.words ++ spatialWords))

theorem map_token_arguments (q : SearchQuery) :
    q.arguments.map Argument.token =
      q.predicate.key :: (q.front.tokens ++ (q.clauses ++ q.trailing)) := by
  simp only [arguments, List.cons_append, List.map_cons, List.map_append, Argument.token_word,
    Argument.map_token_count, Argument.map_token_flag, OutputFormat.map_token_optional, front,
    clauses, trailing, Front.tokens, Filters.tokens, List.append_assoc, Bool.false_eq_true,
    if_false, List.nil_append]

theorem behindFormat_trailing (q : SearchQuery) : BehindFormat q.trailing := by
  cases harea : q.area with
  | some area =>
      rw [trailing, harea]
      exact area.behindFormat_tokens
  | none =>
      rw [trailing, harea]
      cases q.predicate with
      | nearby key lat lon radius => exact BehindFormat.cons (by decide) (by decide) _
      | intersects key | within key => exact BehindFormat.nil

theorem opens_clauses (q : SearchQuery) {r : List String} (hr : BehindFormat r) :
    Opens clauseWords (q.clauses ++ r) := by
  have noFields : Opens ["NOFIELDS"] (if q.noFields then ["NOFIELDS"] else []) :=
    Opens.flag q.noFields
  have limit : Opens ["LIMIT"] (q.limit.elim [] fun n => "LIMIT" :: [toString n.toNat]) :=
    Opens.optional q.limit _
  have all := limit.append (noFields.append (OutputFormat.opens_append q.format hr))
  simpa only [clauseWords, clauses, List.append_assoc] using all

theorem cuts_clauses :
    Cuts clauses (fun q => (q.limit, q.noFields, q.format)) BehindFormat := by
  have noFieldsFree : "NOFIELDS" ∉ OutputFormat.words ++ spatialWords := by decide
  have limitFree : "LIMIT" ∉ ["NOFIELDS"] ++ (OutputFormat.words ++ spatialWords) := by decide
  have format := OutputFormat.cuts_optional.comap SearchQuery.format
  have noFields :=
    ((Cuts.flag noFieldsFree).comap SearchQuery.noFields).append format
      fun q r hr => OutputFormat.opens_append q.format hr
  have limit :=
    ((Cuts.optional cuts_word64 limitFree).comap SearchQuery.limit).append noFields
      fun q r hr => by
        rw [List.append_assoc]
        exact (Opens.flag q.noFields).append (OutputFormat.opens_append q.format hr)
  refine limit.of_view fun p q => ?_
  simp

theorem area_tokens_ne (area : Area) (predicate : SearchPredicate) :
    area.tokens ≠ predicate.arguments.map Argument.token := by
  cases area <;> cases predicate <;>
    simp [Area.tokens, Area.arguments, Argument.bounds, SearchPredicate.arguments,
      Argument.map_token_point]

theorem trailing_inj {p q : SearchQuery} :
    (p.predicate.name = q.predicate.name ∧ p.predicate.key = q.predicate.key ∧
        p.trailing = q.trailing) ↔
      p.visible.predicate = q.visible.predicate ∧ p.visible.area = q.visible.area := by
  cases hp : p.area with
  | none =>
      cases hq : q.area with
      | none => simp [visible, trailing, hp, hq, SearchPredicate.visible_inj]
      | some b =>
          have ne := (area_tokens_ne b p.predicate).symm
          simp_all [visible, trailing, Area.tokens]
  | some a =>
      cases hq : q.area with
      | none =>
          have ne := area_tokens_ne a q.predicate
          simp_all [visible, trailing, Area.tokens]
      | some b =>
          have areas : a.tokens = b.tokens ↔ a.visible = b.visible := Area.tokens_inj
          simp_all [visible, trailing, Area.tokens, SearchPredicate.withoutPoint_inj, and_assoc]

theorem visible_eq_iff {p q : SearchQuery} :
    p.visible = q.visible ↔
      (p.visible.predicate = q.visible.predicate ∧ p.visible.area = q.visible.area) ∧
        p.front.visible = q.front.visible ∧
        (p.limit, p.noFields, p.format) = (q.limit, q.noFields, q.format) := by
  simp only [visible, front, Front.visible, mk.injEq, Front.mk.injEq, Prod.mk.injEq, true_and]
  constructor
  · intro h
    obtain ⟨predicate, filters, cursor, limit, noFields, format, area⟩ := h
    exact ⟨⟨predicate, area⟩, ⟨filters, cursor⟩, limit, noFields, format⟩
  · intro h
    obtain ⟨⟨predicate, area⟩, ⟨filters, cursor⟩, limit, noFields, format⟩ := h
    exact ⟨predicate, filters, cursor, limit, noFields, format, area⟩

theorem tokens_inj {p q : SearchQuery} :
    (p.predicate.name = q.predicate.name ∧
        p.arguments.map Argument.token = q.arguments.map Argument.token) ↔
      p.visible = q.visible := by
  have free : ∀ word ∈ Front.words, word ∉ clauseWords := by decide
  have front := Front.cuts_tokens free (a := p.front) (b := q.front)
    (p.opens_clauses p.behindFormat_trailing) (q.opens_clauses q.behindFormat_trailing)
  have clauses := cuts_clauses (a := p) (b := q) p.behindFormat_trailing q.behindFormat_trailing
  rw [map_token_arguments, map_token_arguments, List.cons.injEq, front, clauses, visible_eq_iff,
    ← trailing_inj]
  constructor
  · intro h
    obtain ⟨name, key, front, clauses, trailing⟩ := h
    exact ⟨⟨name, key, trailing⟩, front, clauses⟩
  · intro h
    obtain ⟨⟨name, key, trailing⟩, front, clauses⟩ := h
    exact ⟨name, key, front, clauses, trailing⟩

end SearchQuery

namespace FencePredicate

theorem visible_inj {p q : FencePredicate} :
    p.visible = q.visible ↔ p.name = q.name ∧ p.key = q.key ∧
      (p.roaming ++ p.point).map Argument.token = (q.roaming ++ q.point).map Argument.token := by
  cases p <;> cases q <;>
    simp [visible, name, key, roaming, point, Argument.map_token_point, Binary64.token_inj]

theorem withoutRoaming_inj {p q : FencePredicate} :
    p.visible.withoutRoaming = q.visible.withoutRoaming ↔ p.name = q.name ∧ p.key = q.key ∧
      p.point.map Argument.token = q.point.map Argument.token := by
  cases p <;> cases q <;>
    simp [visible, withoutRoaming, name, key, point, Argument.map_token_point, Binary64.token_inj]

end FencePredicate

namespace FenceQuery

def front (q : FenceQuery) : Front := ⟨q.clip, q.distance, q.filters, q.cursor⟩

def clauses (q : FenceQuery) : List String :=
  (q.events.arguments "DETECT").map Argument.token ++
    ((q.writes.arguments "COMMANDS").map Argument.token ++ q.format.elim [] OutputFormat.tokens)

def trailing (q : FenceQuery) : List String :=
  ((q.format.elim q.predicate.roaming fun _ => []) ++ q.predicate.point).map Argument.token

theorem map_token_arguments (q : FenceQuery) :
    q.arguments.map Argument.token =
      q.predicate.key :: (q.front.tokens ++ ("FENCE" :: (q.clauses ++ q.trailing))) := by
  have format : (q.format.elim q.predicate.roaming OutputFormat.arguments).map Argument.token =
      q.format.elim [] OutputFormat.tokens ++
        (q.format.elim q.predicate.roaming fun _ => []).map Argument.token := by
    cases q.format with
    | none => rfl
    | some f => exact (List.append_nil f.tokens).symm
  simp only [arguments, List.cons_append, List.map_cons, List.map_append, Argument.token_word,
    Argument.map_token_count, Argument.map_token_flag, format, front, clauses, trailing,
    Front.tokens, Filters.tokens, List.append_assoc]
  rfl

theorem behindFormat_trailing (q : FenceQuery) : BehindFormat q.trailing := by
  rw [trailing]
  cases q.format with
  | none =>
      cases q.predicate with
      | nearby key lat lon radius => exact BehindFormat.cons (by decide) (by decide) _
      | intersects key | within key => exact BehindFormat.nil
      | roam key target pattern meters => exact BehindFormat.cons (by decide) (by decide) _
  | some f =>
      cases q.predicate with
      | nearby key lat lon radius => exact BehindFormat.cons (by decide) (by decide) _
      | intersects key | within key | roam key target pattern meters => exact BehindFormat.nil

theorem cuts_clauses :
    Cuts clauses (fun q => (q.events, q.writes, q.format)) BehindFormat := by
  have commandsFree : "COMMANDS" ∉ OutputFormat.words ++ spatialWords := by decide
  have detectFree : "DETECT" ∉ ["COMMANDS"] ++ (OutputFormat.words ++ spatialWords) := by decide
  have format := OutputFormat.cuts_optional.comap FenceQuery.format
  have writes :=
    ((Selection.cuts_tokens commandsFree FenceWrite.token?_inj).comap FenceQuery.writes).append format
      fun q r hr => OutputFormat.opens_append q.format hr
  have events :=
    ((Selection.cuts_tokens detectFree FenceEvent.token?_inj).comap FenceQuery.events).append writes
      fun q r hr => by
        rw [List.append_assoc]
        exact (q.writes.opens_tokens "COMMANDS").append (OutputFormat.opens_append q.format hr)
  exact events

theorem trailing_inj {p q : FenceQuery} (format : p.format = q.format) :
    (p.predicate.name = q.predicate.name ∧ p.predicate.key = q.predicate.key ∧
        p.trailing = q.trailing) ↔ p.visible.predicate = q.visible.predicate := by
  cases hq : q.format with
  | none => simp [visible, trailing, format, hq, FencePredicate.visible_inj]
  | some f => simp [visible, trailing, format, hq, FencePredicate.withoutRoaming_inj]

theorem visible_eq_iff {p q : FenceQuery} :
    p.visible = q.visible ↔
      p.visible.predicate = q.visible.predicate ∧ p.front.visible = q.front.visible ∧
        (p.events, p.writes, p.format) = (q.events, q.writes, q.format) := by
  simp only [visible, front, Front.visible, mk.injEq, Front.mk.injEq, Prod.mk.injEq]
  constructor
  · intro h
    obtain ⟨predicate, clip, distance, filters, cursor, events, writes, format⟩ := h
    exact ⟨predicate, ⟨clip, distance, filters, cursor⟩, events, writes, format⟩
  · intro h
    obtain ⟨predicate, ⟨clip, distance, filters, cursor⟩, events, writes, format⟩ := h
    exact ⟨predicate, clip, distance, filters, cursor, events, writes, format⟩

theorem tokens_inj {p q : FenceQuery} :
    (p.predicate.name = q.predicate.name ∧
        p.arguments.map Argument.token = q.arguments.map Argument.token) ↔
      p.visible = q.visible := by
  have free : ∀ word ∈ Front.words, word ∉ ["FENCE"] := by decide
  have front := Front.cuts_tokens free (a := p.front) (b := q.front)
    (r := "FENCE" :: (p.clauses ++ p.trailing)) (s := "FENCE" :: (q.clauses ++ q.trailing))
    (Opens.cons (by decide)) (Opens.cons (by decide))
  have clauses := cuts_clauses (a := p) (b := q) p.behindFormat_trailing q.behindFormat_trailing
  rw [map_token_arguments, map_token_arguments, List.cons.injEq, front, List.cons.injEq, clauses,
    visible_eq_iff]
  constructor
  · intro h
    obtain ⟨name, key, front, -, clauses, trailing⟩ := h
    have format : p.format = q.format := congrArg (fun c => c.2.2) clauses
    exact ⟨(trailing_inj format).1 ⟨name, key, trailing⟩, front, clauses⟩
  · intro h
    obtain ⟨predicate, front, clauses⟩ := h
    have format : p.format = q.format := congrArg (fun c => c.2.2) clauses
    obtain ⟨name, key, trailing⟩ := (trailing_inj format).2 predicate
    exact ⟨name, key, front, rfl, clauses, trailing⟩

end FenceQuery

theorem SearchQuery.tokens_ne_fence (p : SearchQuery) (q : FenceQuery) :
    p.arguments.map Argument.token ≠ q.arguments.map Argument.token := by
  rw [map_token_arguments, FenceQuery.map_token_arguments]
  intro same
  have opens : Opens ("FENCE" :: clauseWords) (p.clauses ++ p.trailing) :=
    (p.opens_clauses p.behindFormat_trailing).mono (List.subset_cons_self _ _)
  have fence : Opens ("FENCE" :: clauseWords) ("FENCE" :: (q.clauses ++ q.trailing)) :=
    Opens.cons (List.mem_cons_self ..)
  have rest := ((Front.cuts_tokens (by decide) opens fence).1 (List.cons.inj same).2).2
  exact (p.opens_clauses p.behindFormat_trailing).ne_cons (by decide) rest

namespace WriteQuery

theorem map_token_arguments (q : WriteQuery) :
    q.arguments.map Argument.token =
      q.key :: q.id :: ((q.expiration.elim [] fun n => "EX" :: [toString n.toNat]) ++
        ((q.fields.flatMap fun f => "FIELD" :: f.body) ++
          ((q.condition.elim [] fun c => [c.token]) ++ q.payload.elim [] Payload.tokens))) := by
  have condition : (q.condition.elim [] fun c => [Argument.word c.token]).map Argument.token =
      q.condition.elim [] fun c => [c.token] := by
    cases q.condition <;> rfl
  have payload : (q.payload.elim [] Payload.arguments).map Argument.token =
      q.payload.elim [] Payload.tokens := by
    cases q.payload <;> rfl
  simp only [arguments, List.cons_append, List.map_cons, List.map_append, List.map_flatMap,
    Argument.token_word, Argument.map_token_count, FieldValue.map_token_arguments, condition,
    payload, List.append_assoc]

def clauses (q : WriteQuery) : List String :=
  (q.expiration.elim [] fun n => "EX" :: [toString n.toNat]) ++
    ((q.fields.flatMap fun f => "FIELD" :: f.body) ++ q.condition.elim [] fun c => [c.token])

theorem cuts_clauses :
    Cuts clauses (fun q => (q.expiration, q.visible.fields, q.condition))
      (Opens Payload.words) := by
  have opensCondition (q : WriteQuery) {r : List String} (hr : Opens Payload.words r) :
      Opens (Condition.words ++ Payload.words) ((q.condition.elim [] fun c => [c.token]) ++ r) :=
    (Condition.opens_tokens q.condition).append hr
  have conditionFree : ∀ word ∈ Condition.words, word ∉ Payload.words := by decide
  have fieldFree : "FIELD" ∉ Condition.words ++ Payload.words := by decide
  have expirationFree : "EX" ∉ ["FIELD"] ++ (Condition.words ++ Payload.words) := by decide
  have condition := (Condition.cuts_tokens conditionFree).comap WriteQuery.condition
  have fields :=
    ((Cuts.repeated FieldValue.cuts_body fieldFree).comap WriteQuery.fields).append condition
      fun q r hr => opensCondition q hr
  have expiration :=
    ((Cuts.optional cuts_word64 expirationFree).comap WriteQuery.expiration).append fields
      fun q r hr => by
        rw [List.append_assoc]
        exact (Opens.repeated q.fields _).append (opensCondition q hr)
  refine expiration.of_view fun p q => ?_
  simp [visible]

theorem visible_eq_iff {p q : WriteQuery} :
    p.visible = q.visible ↔
      p.key = q.key ∧ p.id = q.id ∧
        (p.expiration, p.visible.fields, p.condition) =
          (q.expiration, q.visible.fields, q.condition) ∧
        p.payload.map Payload.visible = q.payload.map Payload.visible := by
  simp only [visible, mk.injEq, Prod.mk.injEq, and_assoc]

theorem tokens_inj {p q : WriteQuery} :
    p.arguments.map Argument.token = q.arguments.map Argument.token ↔ p.visible = q.visible := by
  have clauses := cuts_clauses (a := p) (b := q) (Payload.opens_tokens p.payload)
    (Payload.opens_tokens q.payload)
  have tokens (q : WriteQuery) : q.arguments.map Argument.token =
      q.key :: q.id :: (q.clauses ++ q.payload.elim [] Payload.tokens) := by
    rw [map_token_arguments, WriteQuery.clauses]
    simp only [List.append_assoc]
  rw [tokens, tokens, List.cons.injEq, List.cons.injEq, clauses, visible_eq_iff,
    Payload.optional_tokens_inj]

end WriteQuery

theorem KeyQuery.tokens_inj {p q : KeyQuery} :
    (p.name = q.name ∧ p.arguments.map Argument.token = q.arguments.map Argument.token) ↔
      p = q := by
  cases p <;> cases q <;> simp [name, arguments, UInt64.toNat_inj]

def spatialNames : List String := ["NEARBY", "INTERSECTS", "WITHIN"]

theorem SearchPredicate.name_mem (p : SearchPredicate) : p.name ∈ spatialNames := by
  cases p <;> simp [name, spatialNames]

theorem FencePredicate.name_mem (p : FencePredicate) : p.name ∈ spatialNames := by
  cases p <;> simp [name, spatialNames]

theorem KeyQuery.name_not_mem (q : KeyQuery) : q.name ∉ "SET" :: spatialNames := by
  cases q <;> simp [name, spatialNames]

namespace Query

/-- Searches and fences share names; of other families no two queries have the same one. -/
theorem tokens_inj {a b : Query} :
    (a.name = b.name ∧ a.arguments.map Argument.token = b.arguments.map Argument.token) ↔
      a.visible = b.visible := by
  have set_ne {text : String} (h : text ∈ spatialNames) : text ≠ "SET" :=
    ne_of_mem_of_not_mem h (by decide)
  have key_ne (q : KeyQuery) {text : String} (h : text ∈ "SET" :: spatialNames) : text ≠ q.name :=
    ne_of_mem_of_not_mem h q.name_not_mem
  cases a with
  | search p =>
      cases b with
      | search q =>
          rw [visible, visible, search.injEq]
          exact SearchQuery.tokens_inj
      | geofence q => simp [visible, arguments, SearchQuery.tokens_ne_fence]
      | set q => simp [visible, name, set_ne p.predicate.name_mem]
      | key q => simp [visible, name, key_ne q (List.mem_cons_of_mem _ p.predicate.name_mem)]
  | geofence p =>
      cases b with
      | search q => simp [visible, arguments, (SearchQuery.tokens_ne_fence q p).symm]
      | geofence q =>
          rw [visible, visible, geofence.injEq]
          exact FenceQuery.tokens_inj
      | set q => simp [visible, name, set_ne p.predicate.name_mem]
      | key q => simp [visible, name, key_ne q (List.mem_cons_of_mem _ p.predicate.name_mem)]
  | set p =>
      cases b with
      | search q => simp [visible, name, (set_ne q.predicate.name_mem).symm]
      | geofence q => simp [visible, name, (set_ne q.predicate.name_mem).symm]
      | set q =>
          rw [visible, visible, set.injEq, ← WriteQuery.tokens_inj]
          exact and_iff_right rfl
      | key q => simp [visible, name, key_ne q (List.mem_cons_self ..)]
  | key p =>
      cases b with
      | search q =>
          simp [visible, name, (key_ne p (List.mem_cons_of_mem _ q.predicate.name_mem)).symm]
      | geofence q =>
          simp [visible, name, (key_ne p (List.mem_cons_of_mem _ q.predicate.name_mem)).symm]
      | set q => simp [visible, name, (key_ne p (List.mem_cons_self ..)).symm]
      | key q =>
          rw [visible, visible, key.injEq]
          exact KeyQuery.tokens_inj

/-- Queries that compile have the same command exactly if they are of one family and have equal
visible parts. -/
theorem compile_eq_iff_visible_eq {a b : Query} {c d : Command} (ha : a.compile = .ok c)
    (hb : b.compile = .ok d) : c = d ↔ a.visible = b.visible := by
  rw [compile_eq_ok_iff] at ha hb
  rw [ha.2, hb.2, Command.mk.injEq, tokens_inj]

/-- A search with the words of clauses as its strings, the word BOUNDS as a format and as an area,
and a point that is nowhere, against one with another sign of zero and a point. -/
theorem compile_eq_iff_visible_eq_keywords :
    let search (radius zero : Binary64) : Query :=
      .search
        { predicate := .nearby "WHERE" .nan (.infinite true) radius
          filters := { memberships := [⟨"LIMIT", [zero]⟩], pattern := some "BOUNDS" }
          format := some .bounds
          area := some (.bounds zero zero zero zero) }
    let zero : Binary64 := .finite ⟨false, .zero⟩
    let minusZero : Binary64 := .finite ⟨true, .zero⟩
    let command : Command :=
      ⟨"NEARBY", ["WHERE", "WHEREIN", "LIMIT", "1", "0", "MATCH", "BOUNDS", "BOUNDS", "BOUNDS",
        "0", "0", "0", "0"]⟩
    (search .nan minusZero).compile = .ok command ∧ (search zero zero).compile = .ok command ∧
      (command = command ↔ (search .nan minusZero).visible = (search zero zero).visible) := by
  intro search zero minusZero command
  have first : (search .nan minusZero).compile = .ok command :=
    compile_eq_ok_iff.2 ⟨by decide, by decide +kernel⟩
  have second : (search zero zero).compile = .ok command :=
    compile_eq_ok_iff.2 ⟨by decide, by decide +kernel⟩
  exact ⟨first, second, compile_eq_iff_visible_eq first second⟩

end Query

end GeoQuery
