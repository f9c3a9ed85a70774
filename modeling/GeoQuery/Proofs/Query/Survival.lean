import GeoQuery.Proofs.Json.Ordinary
import GeoQuery.Proofs.Query.RoundTrip
import GeoQuery.Proofs.Query.Visible

/-!
Which queries survive their JSON. The numbers of a query are written with all digits that tell them
apart, but they are read back by an approximation. A query comes back as itself exactly if each number
in it does, and a number does if its digits are few enough for the reader to be exact.
-/

namespace GeoQuery

open Json (Numeral)

namespace Finite64

/-- The digits of the number in JSON are a significand below 2⁵³ and a power of ten up to the 22nd. -/
structure Short (x : Finite64) : Prop where
  digits : x.jsonNumeral.exact.coefficient < 0x20000000000000
  exponent : x.jsonNumeral.exact.exponent.natAbs ≤ 22

instance (x : Finite64) : Decidable x.Short :=
  decidable_of_iff (x.jsonNumeral.exact.coefficient < 0x20000000000000 ∧
    x.jsonNumeral.exact.exponent.natAbs ≤ 22) ⟨fun h => ⟨h.1, h.2⟩, fun h => ⟨h.1, h.2⟩⟩

theorem Short.reread_eq {x : Finite64} (h : x.Short) : x.reread = x := by
  have written := x.jsonNumeral_writesJson
  have correct := Numeral.magnitude?_eq_nearest? h.digits h.exponent
  have value : x.jsonNumeral.value? = some (.fraction x) := by
    rw [Numeral.value?, written.fraction, correct,
      show x.jsonNumeral.exact.nearest? = some x.magnitude from written.readsAs, written.negative]
    rfl
  -- The text of the number alone is scanned to its end.
  have found := Json.scanFound_numeral written.wellFormed value Json.ends_nil
  rw [List.append_nil, ← written.text] at found
  rw [reread, Json.ofText_leaf found]

end Finite64

/-- No number and no JSON value of a part of a query changes when its JSON is read. -/
structure Survive (numbers : List Binary64) (objects : List Json) : Prop where
  numbers : ∀ x ∈ numbers, x.reread = x
  objects : ∀ j ∈ objects, j.reread = j

theorem Survive.of_subset {numbers numbers' : List Binary64} {objects objects' : List Json}
    (h : Survive numbers objects) (inside : numbers' ⊆ numbers) (inside' : objects' ⊆ objects) :
    Survive numbers' objects' :=
  ⟨fun x member => h.numbers x (inside member), fun j member => h.objects j (inside' member)⟩

theorem map_reread_eq_iff {α : Type} {reread : α → α} {l : List α} :
    l.map reread = l ↔ ∀ a ∈ l, reread a = a := by
  rw [← List.map_inj_left, List.map_id']

theorem Filters.reread_eq {f : Filters} (h : Survive f.numbers []) : f.reread = f := by
  have ranges : ∀ r ∈ f.ranges, r.reread = r := by
    intro r member
    have each : ∀ x ∈ r.numbers, x.reread = x := fun x own =>
      h.numbers x (List.mem_append_left _ (List.mem_flatMap.2 ⟨r, member, own⟩))
    simp only [RangeFilter.numbers, List.forall_mem_cons] at each
    rw [RangeFilter.reread, each.1, each.2.1]
  have memberships : ∀ m ∈ f.memberships, m.reread = m := by
    intro m member
    have each : ∀ x ∈ m.values, x.reread = x := fun x own =>
      h.numbers x (List.mem_append_right _ (List.mem_flatMap.2 ⟨m, member, own⟩))
    rw [MembershipFilter.reread, map_reread_eq_iff.2 each]
  rw [Filters.reread, map_reread_eq_iff.2 ranges, map_reread_eq_iff.2 memberships]

theorem Filters.numbers_reread (f : Filters) : f.reread.numbers = f.numbers.map Binary64.reread := by
  simp [Filters.numbers, Filters.reread, List.flatMap_map, List.map_flatMap, RangeFilter.numbers,
    RangeFilter.reread, MembershipFilter.numbers, MembershipFilter.reread]

theorem Area.numbers_reread (a : Area) : a.reread.numbers = a.numbers.map Binary64.reread := by
  cases a <;> rfl

theorem Area.reread_eq {a : Area} (h : Survive a.numbers a.objects) : a.reread = a := by
  obtain ⟨numbers, objects⟩ := h
  cases a with
  | bounds | circle =>
      simp only [Area.numbers, List.forall_mem_cons] at numbers
      simp [Area.reread, numbers]
  | object geometry =>
      have same : geometry.reread = geometry := Json.Value.ext (objects _ (List.mem_singleton_self _))
      rw [Area.reread, same]
  | tile | get | hash | quadkey => rfl

theorem Payload.numbers_reread (p : Payload) :
    p.reread.numbers = p.numbers.map Binary64.reread := by
  cases p with
  | point lat lon z => cases z <;> rfl
  | bounds | hash | object | string => rfl

theorem Payload.reread_eq {p : Payload} (h : Survive p.numbers p.objects) : p.reread = p := by
  obtain ⟨numbers, objects⟩ := h
  cases p with
  | point lat lon z =>
      simp only [Payload.numbers, List.forall_mem_cons] at numbers
      cases z with
      | none => simp [Payload.reread, numbers]
      | some z => simp [Payload.reread, numbers.1, numbers.2.1, numbers.2.2 z (by simp)]
  | bounds =>
      simp only [Payload.numbers, List.forall_mem_cons] at numbers
      simp [Payload.reread, numbers]
  | object geometry =>
      have same : geometry.reread = geometry := Json.Value.ext (objects _ (List.mem_singleton_self _))
      rw [Payload.reread, same]
  | hash | string => rfl

theorem SearchPredicate.numbers_reread (p : SearchPredicate) :
    p.reread.numbers = p.numbers.map Binary64.reread := by
  cases p <;> rfl

theorem SearchPredicate.reread_eq {p : SearchPredicate} (h : Survive p.numbers []) :
    p.reread = p := by
  have numbers := h.numbers
  cases p with
  | nearby =>
      simp only [SearchPredicate.numbers, List.forall_mem_cons] at numbers
      simp [SearchPredicate.reread, numbers]
  | intersects | within => rfl

theorem FencePredicate.numbers_reread (p : FencePredicate) :
    p.reread.numbers = p.numbers.map Binary64.reread := by
  cases p <;> rfl

theorem FencePredicate.reread_eq {p : FencePredicate} (h : Survive p.numbers []) :
    p.reread = p := by
  have numbers := h.numbers
  cases p with
  | nearby | roam =>
      simp only [FencePredicate.numbers, List.forall_mem_cons] at numbers
      simp [FencePredicate.reread, numbers]
  | intersects | within => rfl

theorem SearchQuery.reread_eq {q : SearchQuery} (h : Survive q.numbers q.objects) :
    q.reread = q := by
  have predicate : Survive q.predicate.numbers [] :=
    h.of_subset (by simp [numbers]) (List.nil_subset _)
  have filters : Survive q.filters.numbers [] :=
    h.of_subset (by simp [numbers]) (List.nil_subset _)
  have area : q.area.map Area.reread = q.area := by
    cases held : q.area with
    | none => rfl
    | some area =>
        refine congrArg some (Area.reread_eq (h.of_subset ?_ ?_))
        · simp [numbers, held]
        · simp [objects, held]
  rw [reread, SearchPredicate.reread_eq predicate, Filters.reread_eq filters, area]

theorem FenceQuery.reread_eq {q : FenceQuery} (h : Survive q.numbers []) : q.reread = q := by
  have predicate : Survive q.predicate.numbers [] :=
    h.of_subset (by simp [numbers]) (List.nil_subset _)
  have filters : Survive q.filters.numbers [] :=
    h.of_subset (by simp [numbers]) (List.nil_subset _)
  rw [reread, FencePredicate.reread_eq predicate, Filters.reread_eq filters]

theorem WriteQuery.reread_eq {q : WriteQuery} (h : Survive q.numbers q.objects) :
    q.reread = q := by
  have fields : ∀ f ∈ q.fields, f.reread = f := by
    intro f member
    rw [FieldValue.reread, h.numbers f.value (List.mem_append_left _
      (List.mem_flatMap.2 ⟨f, member, List.mem_singleton_self _⟩))]
  have payload : q.payload.map Payload.reread = q.payload := by
    cases held : q.payload with
    | none => rfl
    | some payload =>
        refine congrArg some (Payload.reread_eq (h.of_subset ?_ ?_))
        · simp [numbers, held]
        · simp [objects, held]
  rw [reread, map_reread_eq_iff.2 fields, payload]

namespace Query

theorem numbers_reread (q : Query) : q.reread.numbers = q.numbers.map Binary64.reread := by
  cases q with
  | search query =>
      cases held : query.area <;>
        simp [reread, numbers, SearchQuery.numbers, SearchQuery.reread, held,
          SearchPredicate.numbers_reread, Filters.numbers_reread, Area.numbers_reread]
  | geofence query =>
      simp [reread, numbers, FenceQuery.numbers, FenceQuery.reread, FencePredicate.numbers_reread,
        Filters.numbers_reread]
  | set query =>
      cases held : query.payload <;>
        simp [reread, numbers, WriteQuery.numbers, WriteQuery.reread, held, List.flatMap_map,
          List.map_flatMap, FieldValue.numbers, FieldValue.reread, Payload.numbers_reread]
  | key query => rfl

theorem objects_reread (q : Query) : q.reread.objects = q.objects.map Json.reread := by
  cases q with
  | search query =>
      cases held : query.area with
      | none => simp [reread, objects, SearchQuery.objects, SearchQuery.reread, held]
      | some area => cases area <;>
          simp [reread, objects, SearchQuery.objects, SearchQuery.reread, held, Area.objects, Area.reread,
            Json.Value.reread]
  | set query =>
      cases held : query.payload with
      | none => simp [reread, objects, WriteQuery.objects, WriteQuery.reread, held]
      | some payload => cases payload <;>
          simp [reread, objects, WriteQuery.objects, WriteQuery.reread, held, Payload.objects, Payload.reread,
            Json.Value.reread]
  | geofence | key => rfl

theorem reread_eq_iff {q : Query} : q.reread = q ↔ Survive q.numbers q.objects := by
  constructor
  · intro same
    have numbers := q.numbers_reread
    have objects := q.objects_reread
    rw [same] at numbers objects
    exact ⟨map_reread_eq_iff.1 numbers.symm, map_reread_eq_iff.1 objects.symm⟩
  · intro h
    cases q with
    | search query => exact congrArg search (SearchQuery.reread_eq h)
    | geofence query => exact congrArg geofence (FenceQuery.reread_eq h)
    | set query => exact congrArg set (WriteQuery.reread_eq h)
    | key query => rfl

theorem ofJsonText_toJson_reread {q : Query} (writable : Writable 124 q.numbers q.objects) :
    ofJsonText q.toJson.compact = .ok q.reread := by
  have value := Shape.ofText_compact plain_shape faithful_shape (Nat.le_of_eq height_shape)
    (writable_toValue writable)
  rw [ofJsonText, toJson, value, ← toValue_reread]
  exact congrArg Except.ok q.reread.ofValue_toValue

/-- Each number of a query is read back from the JSON of the query as it is from its own text. The
query comes back as itself exactly if all its numbers do, those of a geometry included, and short
numbers do. -/
theorem survives_json_iff {q : Query} (finite : ∀ x ∈ q.numbers, x.isFinite = true)
    (nesting : ∀ j ∈ q.objects, j.nesting ≤ 124) :
    (∃ r, ofJsonText q.toJson.compact = .ok r ∧ r.numbers = q.numbers.map Binary64.reread ∧
      r.objects = q.objects.map Json.reread) ∧
    (ofJsonText q.toJson.compact = .ok q ↔ Survive q.numbers q.objects) ∧
    ∀ x : Finite64, x.Short → (Binary64.finite x).reread = .finite x := by
  have read := ofJsonText_toJson_reread ⟨finite, nesting⟩
  refine ⟨⟨q.reread, read, q.numbers_reread, q.objects_reread⟩, ?_, ?_⟩
  · rw [read, Except.ok.injEq, reread_eq_iff]
  · intro x short
    rw [Binary64.reread, short.reread_eq]

def longLongitude : Finite64 := ⟨false, 0x4056849b86a12b9c, by decide⟩

def driftingSearch : Query :=
  .search
    { predicate := .nearby "fleet" (.finite ⟨false, 0x4024000000000000, by decide⟩)
        (.finite longLongitude) (.finite ⟨false, 0x408f400000000000, by decide⟩) }

theorem writable_driftingSearch : Writable 124 driftingSearch.numbers driftingSearch.objects := by
  have noObjects : driftingSearch.objects = [] := rfl
  exact ⟨by decide, by simp [noObjects]⟩

theorem survives_json_iff_drifting :
    ofJsonText driftingSearch.toJson.compact ≠ .ok driftingSearch := by
  have drifts : (Binary64.finite longLongitude).reread ≠ .finite longLongitude := by decide +kernel
  intro survives
  have writable := writable_driftingSearch
  have survive :=
    (survives_json_iff writable.finite writable.nesting).2.1.1 survives
  exact drifts (survive.numbers _ (List.mem_cons_of_mem _ (List.mem_cons_self ..)))

/-- The longitude is read back as its neighbour, and the command changes. -/
theorem driftingSearch_moves :
    driftingSearch.compile =
      .ok ⟨"NEARBY", ["fleet", "POINT", "10", "90.07199254740993", "1000"]⟩ ∧
    ∃ r, ofJsonText driftingSearch.toJson.compact = .ok r ∧
      r.compile = .ok ⟨"NEARBY", ["fleet", "POINT", "10", "90.07199254740992", "1000"]⟩ := by
  exact ⟨compile_eq_ok_iff.2 ⟨by decide, by decide +kernel⟩, driftingSearch.reread,
    ofJsonText_toJson_reread writable_driftingSearch,
    compile_eq_ok_iff.2 ⟨by decide +kernel, by decide +kernel⟩⟩

end Query

end GeoQuery
