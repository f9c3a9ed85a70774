import GeoQuery.Proofs.Query.Readers
import GeoQuery.Proofs.Shape.RoundTrip

namespace GeoQuery

open Json Outcome

section Slots

variable {α β : Type}

theorem listValue_back {toValue : α → β} {ofValue : β → α} (back : ∀ a, ofValue (toValue a) = a)
    (l : List α) : ((listValue toValue l).getD []).map ofValue = l := by
  cases l with
  | nil => rfl
  | cons a l => simp [listValue, Function.comp_def, back]

theorem some_back {toValue : α → β} {ofValue : β → α} (back : ∀ a, ofValue (toValue a) = a)
    (o : Option α) : (o.map fun a => some (toValue a)).join.map ofValue = o := by
  cases o with
  | none => rfl
  | some a => exact congrArg some (back a)

@[simp] theorem join_map_some (o : Option α) : (o.map some).join = o := by cases o <;> rfl

@[simp] theorem flagValue_back (b : Bool) : (flagValue b).getD false = b := by cases b <;> rfl

theorem listValue_map {toValue : α → β} {f : α → α} {g : β → β}
    (commutes : ∀ a, toValue (f a) = g (toValue a)) (l : List α) :
    listValue toValue (l.map f) = (listValue toValue l).map fun values => values.map g := by
  cases l with
  | nil => rfl
  | cons a l => simp [listValue, commutes]

theorem some_map {toValue : α → β} {f : α → α} {g : β → β}
    (commutes : ∀ a, toValue (f a) = g (toValue a)) (o : Option α) :
    ((o.map f).map fun a => some (toValue a)) =
      (o.map fun a => some (toValue a)).map fun value => value.map g := by
  cases o with
  | none => rfl
  | some a => exact congrArg (fun b => some (some b)) (commutes a)

theorem flagValue_fixed {g : Bool → Bool} (fixed : ∀ b, g b = b) (b : Bool) :
    flagValue b = (flagValue b).map g := by
  cases b with
  | false => rfl
  | true => exact congrArg some (fixed true).symm

theorem some_fixed {toValue : α → β} {g : β → β} (fixed : ∀ a, g (toValue a) = toValue a)
    (o : Option α) :
    (o.map fun a => some (toValue a)) =
      (o.map fun a => some (toValue a)).map fun value => value.map g := by
  cases o with
  | none => rfl
  | some a => exact congrArg (fun b => some (some b)) (fixed a).symm

theorem listValue_fixed {toValue : α → β} {g : β → β} (fixed : ∀ a, g (toValue a) = toValue a)
    (l : List α) : listValue toValue l = (listValue toValue l).map fun values => values.map g := by
  have kept := listValue_map (f := id) (fun a => (fixed a).symm) l
  rwa [List.map_id] at kept

variable {inside : Nat}

theorem Fields.writable_optional {name : String} {shape : Shape} {rest : Fields}
    {value : Option shape.Value} {values : rest.Value}
    (first : ∀ v ∈ value, shape.Writable inside v) (others : rest.Writable inside values) :
    (Fields.optional name shape rest).Writable inside (value, values) := by
  cases value with
  | none => exact others
  | some v => exact ⟨first v rfl, others⟩

theorem writable_listValue {item : Shape} {toValue : α → item.Value} {l : List α}
    (each : ∀ a ∈ l, item.Writable inside (toValue a)) :
    ∀ values ∈ listValue toValue l, (Shape.list item).Writable inside values := by
  cases l with
  | nil => exact fun values member => nomatch member
  | cons a l =>
      rintro values ⟨⟩
      refine List.forall_iff_forall_mem.2 fun value member => ?_
      obtain ⟨b, own, rfl⟩ := List.mem_map.1 member
      exact each b own

theorem writable_some {shape : Shape} {toValue : α → shape.Value} {o : Option α}
    (each : ∀ a ∈ o, shape.Writable inside (toValue a)) :
    ∀ value ∈ o.map (fun a => some (toValue a)), (Shape.optional shape).Writable inside value := by
  cases o with
  | none => exact fun value member => nomatch member
  | some a =>
      rintro value ⟨⟩
      exact each a rfl

theorem writable_flag (b : Bool) :
    ∀ value ∈ flagValue b, (Shape.scalar .flag).Writable inside value :=
  fun _ _ => trivial

end Slots

/-- All numbers are finite, and no JSON value opens more than `inside` brackets. -/
structure Writable (inside : Nat) (numbers : List Binary64) (objects : List Json) : Prop where
  finite : ∀ x ∈ numbers, x.isFinite = true
  nesting : ∀ j ∈ objects, j.nesting ≤ inside

theorem Writable.of_subset {inside : Nat} {numbers numbers' : List Binary64}
    {objects objects' : List Json} (writable : Writable inside numbers objects)
    (fewer : numbers' ⊆ numbers) (less : objects' ⊆ objects) : Writable inside numbers' objects' :=
  ⟨fun x member => writable.finite x (fewer member), fun j member => writable.nesting j (less member)⟩

variable {inside : Nat}

namespace RangeFilter

def numbers (f : RangeFilter) : List Binary64 := [f.min, f.max]

def reread (f : RangeFilter) : RangeFilter := ⟨f.field, f.min.reread, f.max.reread⟩

theorem ofValue_toValue (f : RangeFilter) : ofValue f.toValue = f := rfl

theorem toValue_reread (f : RangeFilter) : f.reread.toValue = shape.reread f.toValue := rfl

theorem writable_toValue {f : RangeFilter} (h : Writable inside f.numbers []) :
    shape.Writable inside f.toValue :=
  ⟨trivial, h.finite _ (by simp [numbers]), h.finite _ (by simp [numbers]), trivial⟩

end RangeFilter

namespace MembershipFilter

def numbers (f : MembershipFilter) : List Binary64 := f.values

def reread (f : MembershipFilter) : MembershipFilter := ⟨f.field, f.values.map Binary64.reread⟩

theorem ofValue_toValue (f : MembershipFilter) : ofValue f.toValue = f := rfl

theorem toValue_reread (f : MembershipFilter) : f.reread.toValue = shape.reread f.toValue := rfl

theorem writable_toValue {f : MembershipFilter} (h : Writable inside f.numbers []) :
    shape.Writable inside f.toValue :=
  ⟨trivial, List.forall_iff_forall_mem.2 h.finite, trivial⟩

end MembershipFilter

namespace Filters

def numbers (f : Filters) : List Binary64 :=
  f.ranges.flatMap RangeFilter.numbers ++ f.memberships.flatMap MembershipFilter.numbers

def reread (f : Filters) : Filters :=
  ⟨f.ranges.map RangeFilter.reread, f.memberships.map MembershipFilter.reread, f.pattern⟩

theorem writable_ranges {f : Filters} (h : Writable inside f.numbers []) :
    ∀ r ∈ f.ranges, RangeFilter.shape.Writable inside r.toValue := by
  intro r member
  have own : r.numbers ⊆ f.numbers := by
    intro x held
    apply List.mem_append_left
    exact List.mem_flatMap.2 ⟨r, member, held⟩
  exact RangeFilter.writable_toValue (h.of_subset own (List.nil_subset _))

theorem writable_memberships {f : Filters} (h : Writable inside f.numbers []) :
    ∀ m ∈ f.memberships, MembershipFilter.shape.Writable inside m.toValue := by
  intro m member
  have own : m.numbers ⊆ f.numbers := by
    intro x held
    apply List.mem_append_right
    exact List.mem_flatMap.2 ⟨m, member, held⟩
  exact MembershipFilter.writable_toValue (h.of_subset own (List.nil_subset _))

end Filters

namespace Area

def numbers : Area → List Binary64
  | .bounds minLat minLon maxLat maxLon => [minLat, minLon, maxLat, maxLon]
  | .circle lat lon meters => [lat, lon, meters]
  | .tile .. | .get .. | .hash _ | .quadkey _ | .object _ => []

def objects : Area → List Json
  | .object geometry => [geometry.json]
  | .tile .. | .bounds .. | .circle .. | .get .. | .hash _ | .quadkey _ => []

def reread : Area → Area
  | .tile x y z => .tile x y z
  | .bounds minLat minLon maxLat maxLon =>
    .bounds minLat.reread minLon.reread maxLat.reread maxLon.reread
  | .circle lat lon meters => .circle lat.reread lon.reread meters.reread
  | .get key id => .get key id
  | .hash geohash => .hash geohash
  | .quadkey digits => .quadkey digits
  | .object geometry => .object geometry.reread

theorem ofValue_toValue (a : Area) : ofValue a.toValue = a := by cases a <;> rfl

theorem toValue_reread (a : Area) : a.reread.toValue = shape.reread a.toValue := by
  cases a <;> rfl

theorem writable_toValue {a : Area} (h : Writable inside a.numbers a.objects) :
    shape.Writable inside a.toValue := by
  obtain ⟨finite, nesting⟩ := h
  cases a with
  | tile => exact ⟨trivial, trivial, trivial, trivial⟩
  | get => exact ⟨trivial, trivial, trivial⟩
  | hash => exact trivial
  | quadkey => exact trivial
  | bounds minLat minLon maxLat maxLon =>
      simp only [numbers, List.forall_mem_cons] at finite
      obtain ⟨minLat, minLon, maxLat, maxLon, -⟩ := finite
      exact ⟨minLat, minLon, maxLat, maxLon, trivial⟩
  | circle lat lon meters =>
      simp only [numbers, List.forall_mem_cons] at finite
      obtain ⟨lat, lon, meters, -⟩ := finite
      exact ⟨lat, lon, meters, trivial⟩
  | object geometry =>
      exact nesting _ (List.mem_singleton_self _)

end Area

namespace Payload

def numbers : Payload → List Binary64
  | .point lat lon z => lat :: lon :: z.toList
  | .bounds minLat minLon maxLat maxLon => [minLat, minLon, maxLat, maxLon]
  | .hash _ | .object _ | .string _ => []

def objects : Payload → List Json
  | .object geometry => [geometry.json]
  | .point .. | .bounds .. | .hash _ | .string _ => []

def reread : Payload → Payload
  | .point lat lon z => .point lat.reread lon.reread (z.map Binary64.reread)
  | .bounds minLat minLon maxLat maxLon =>
    .bounds minLat.reread minLon.reread maxLat.reread maxLon.reread
  | .hash geohash => .hash geohash
  | .object geometry => .object geometry.reread
  | .string value => .string value

theorem ofValue_toValue (p : Payload) : ofValue p.toValue = p := by
  cases p with
  | point lat lon z => cases z <;> rfl
  | bounds => rfl
  | hash => rfl
  | object => rfl
  | string => rfl

theorem toValue_reread (p : Payload) : p.reread.toValue = shape.reread p.toValue := by
  cases p with
  | point lat lon z => cases z <;> rfl
  | bounds => rfl
  | hash => rfl
  | object => rfl
  | string => rfl

theorem writable_toValue {p : Payload} (h : Writable inside p.numbers p.objects) :
    shape.Writable inside p.toValue := by
  obtain ⟨finite, nesting⟩ := h
  cases p with
  | hash => exact trivial
  | string => exact trivial
  | point lat lon z =>
      simp only [numbers, List.forall_mem_cons] at finite
      obtain ⟨lat, lon, elevation⟩ := finite
      cases z with
      | none => exact ⟨lat, lon, trivial⟩
      | some z => exact ⟨lat, lon, elevation z (List.mem_singleton_self _), trivial⟩
  | bounds minLat minLon maxLat maxLon =>
      simp only [numbers, List.forall_mem_cons] at finite
      obtain ⟨minLat, minLon, maxLat, maxLon, -⟩ := finite
      exact ⟨minLat, minLon, maxLat, maxLon, trivial⟩
  | object geometry =>
      exact nesting _ (List.mem_singleton_self _)

end Payload

namespace FieldValue

def numbers (f : FieldValue) : List Binary64 := [f.value]

def reread (f : FieldValue) : FieldValue := ⟨f.name, f.value.reread⟩

theorem ofValue_toValue (f : FieldValue) : ofValue f.toValue = f := rfl

theorem toValue_reread (f : FieldValue) : f.reread.toValue = shape.reread f.toValue := rfl

theorem writable_toValue {f : FieldValue} (h : Writable inside f.numbers []) :
    shape.Writable inside f.toValue :=
  ⟨trivial, h.finite _ (List.mem_singleton_self _), trivial⟩

end FieldValue

theorem OutputFormat.ofValue_toValue (f : OutputFormat) : ofValue f.toValue = f := by
  cases f <;> rfl

theorem OutputFormat.reread_toValue (f : OutputFormat) : shape.reread f.toValue = f.toValue := by
  cases f <;> rfl

theorem OutputFormat.writable_toValue (f : OutputFormat) : shape.Writable inside f.toValue := by
  cases f <;> exact trivial

theorem Condition.ofValue_toValue (c : Condition) : ofValue c.toValue = c := by cases c <;> rfl

theorem Condition.reread_toValue (c : Condition) : shape.reread c.toValue = c.toValue := by
  cases c <;> rfl

theorem Condition.writable_toValue (c : Condition) : shape.Writable inside c.toValue := by
  cases c <;> exact trivial

theorem FenceEvent.ofValue_toValue (e : FenceEvent) : ofValue e.toValue = e := by cases e <;> rfl

theorem FenceEvent.reread_toValue (e : FenceEvent) : shape.reread e.toValue = e.toValue := by
  cases e <;> rfl

theorem FenceEvent.writable_toValue (e : FenceEvent) : shape.Writable inside e.toValue := by
  cases e <;> exact trivial

theorem FenceWrite.ofValue_toValue (w : FenceWrite) : ofValue w.toValue = w := by cases w <;> rfl

theorem FenceWrite.reread_toValue (w : FenceWrite) : shape.reread w.toValue = w.toValue := by
  cases w <;> rfl

theorem FenceWrite.writable_toValue (w : FenceWrite) : shape.Writable inside w.toValue := by
  cases w <;> exact trivial

theorem Selection.ofList_toList {α : Type} [DecidableEq α] [Enumerated α] (s : Selection α) :
    ofList s.toList = s := by
  ext a
  rw [Bool.eq_iff_iff]
  simp [ofList, toList, Enumerated.mem_all]

namespace SearchPredicate

def numbers : SearchPredicate → List Binary64
  | .nearby _ lat lon radius => [lat, lon, radius]
  | .intersects _ | .within _ => []

def reread : SearchPredicate → SearchPredicate
  | .nearby key lat lon radius => .nearby key lat.reread lon.reread radius.reread
  | .intersects key => .intersects key
  | .within key => .within key

theorem ofValue_toValue (p : SearchPredicate) : ofValue p.toValue = p := by cases p <;> rfl

theorem toValue_reread (p : SearchPredicate) : p.reread.toValue = shape.reread p.toValue := by
  cases p <;> rfl

theorem writable_toValue {p : SearchPredicate} (h : Writable inside p.numbers []) :
    shape.Writable inside p.toValue := by
  have finite := h.finite
  cases p with
  | nearby key lat lon radius =>
      simp only [numbers, List.forall_mem_cons] at finite
      obtain ⟨lat, lon, radius, -⟩ := finite
      exact ⟨trivial, lat, lon, radius, trivial⟩
  | intersects => exact ⟨trivial, trivial⟩
  | within => exact ⟨trivial, trivial⟩

end SearchPredicate

namespace FencePredicate

def numbers : FencePredicate → List Binary64
  | .nearby _ lat lon radius => [lat, lon, radius]
  | .roam _ _ _ meters => [meters]
  | .intersects _ | .within _ => []

def reread : FencePredicate → FencePredicate
  | .nearby key lat lon radius => .nearby key lat.reread lon.reread radius.reread
  | .intersects key => .intersects key
  | .within key => .within key
  | .roam key target pattern meters => .roam key target pattern meters.reread

theorem ofValue_toValue (p : FencePredicate) : ofValue p.toValue = p := by cases p <;> rfl

theorem toValue_reread (p : FencePredicate) : p.reread.toValue = shape.reread p.toValue := by
  cases p <;> rfl

theorem writable_toValue {p : FencePredicate} (h : Writable inside p.numbers []) :
    shape.Writable inside p.toValue := by
  have finite := h.finite
  cases p with
  | nearby key lat lon radius =>
      simp only [numbers, List.forall_mem_cons] at finite
      obtain ⟨lat, lon, radius, -⟩ := finite
      exact ⟨trivial, lat, lon, radius, trivial⟩
  | roam key target pattern meters =>
      exact ⟨trivial, trivial, trivial, finite meters (List.mem_singleton_self _), trivial⟩
  | intersects => exact ⟨trivial, trivial⟩
  | within => exact ⟨trivial, trivial⟩

end FencePredicate

namespace SearchQuery

def numbers (q : SearchQuery) : List Binary64 :=
  q.predicate.numbers ++ q.filters.numbers ++ q.area.elim [] Area.numbers

def objects (q : SearchQuery) : List Json := q.area.elim [] Area.objects

def reread (q : SearchQuery) : SearchQuery :=
  { q with
    predicate := q.predicate.reread
    filters := q.filters.reread
    area := q.area.map Area.reread }

theorem ofValue_toValue (q : SearchQuery) : ofValue q.toValue = q := by
  obtain ⟨predicate, ⟨ranges, memberships, pattern⟩, cursor, limit, noFields, format, area⟩ := q
  have ranges := listValue_back RangeFilter.ofValue_toValue ranges
  have memberships := listValue_back MembershipFilter.ofValue_toValue memberships
  have filters := (Filters.mk.injEq ..).mpr ⟨ranges, memberships, join_map_some pattern⟩
  have format := some_back OutputFormat.ofValue_toValue format
  have area := some_back Area.ofValue_toValue area
  exact (SearchQuery.mk.injEq ..).mpr ⟨predicate.ofValue_toValue, filters, join_map_some cursor,
    join_map_some limit, flagValue_back noFields, format, area⟩

theorem toValue_reread (q : SearchQuery) : q.reread.toValue = shape.reread q.toValue := by
  refine Prod.ext q.predicate.toValue_reread ?_
  refine Prod.ext (listValue_map RangeFilter.toValue_reread q.filters.ranges) ?_
  refine Prod.ext (listValue_map MembershipFilter.toValue_reread q.filters.memberships) ?_
  refine Prod.ext (some_fixed (fun _ => rfl) q.filters.pattern) ?_
  refine Prod.ext (some_fixed (fun _ => rfl) q.cursor) ?_
  refine Prod.ext (some_fixed (fun _ => rfl) q.limit) ?_
  refine Prod.ext (flagValue_fixed (fun _ => rfl) q.noFields) ?_
  refine Prod.ext (some_fixed OutputFormat.reread_toValue q.format) ?_
  exact Prod.ext (some_map Area.toValue_reread q.area) rfl

theorem writable_toValue {q : SearchQuery} (h : Writable inside q.numbers q.objects) :
    shape.Writable inside q.toValue := by
  have predicate : Writable inside q.predicate.numbers [] :=
    h.of_subset (by simp [numbers]) (List.nil_subset _)
  have filters : Writable inside q.filters.numbers [] :=
    h.of_subset (by simp [numbers]) (List.nil_subset _)
  have area : ∀ a ∈ q.area, Area.shape.Writable inside a.toValue := by
    intro a member
    refine Area.writable_toValue (h.of_subset ?_ ?_)
    · simp [numbers, Option.mem_def.1 member]
    · simp [objects, Option.mem_def.1 member]
  refine ⟨SearchPredicate.writable_toValue predicate, ?_⟩
  refine Fields.writable_optional (writable_listValue (Filters.writable_ranges filters)) ?_
  refine Fields.writable_optional (writable_listValue (Filters.writable_memberships filters)) ?_
  refine Fields.writable_optional (writable_some fun _ _ => trivial) ?_
  refine Fields.writable_optional (writable_some fun _ _ => trivial) ?_
  refine Fields.writable_optional (writable_some fun _ _ => trivial) ?_
  refine Fields.writable_optional (writable_flag _) ?_
  refine Fields.writable_optional (writable_some fun f _ => f.writable_toValue) ?_
  refine Fields.writable_optional (writable_some area) ?_
  exact trivial

end SearchQuery

namespace FenceQuery

def numbers (q : FenceQuery) : List Binary64 := q.predicate.numbers ++ q.filters.numbers

def reread (q : FenceQuery) : FenceQuery :=
  { q with
    predicate := q.predicate.reread
    filters := q.filters.reread }

theorem ofValue_toValue (q : FenceQuery) : ofValue q.toValue = q := by
  obtain ⟨predicate, clip, distance, ⟨ranges, memberships, pattern⟩, cursor, events, writes,
    format⟩ := q
  have ranges := listValue_back RangeFilter.ofValue_toValue ranges
  have memberships := listValue_back MembershipFilter.ofValue_toValue memberships
  have filters := (Filters.mk.injEq ..).mpr ⟨ranges, memberships, join_map_some pattern⟩
  have events : Selection.ofList
      (((listValue FenceEvent.toValue events.toList).getD []).map FenceEvent.ofValue) = events := by
    rw [listValue_back FenceEvent.ofValue_toValue, Selection.ofList_toList]
  have writes : Selection.ofList
      (((listValue FenceWrite.toValue writes.toList).getD []).map FenceWrite.ofValue) = writes := by
    rw [listValue_back FenceWrite.ofValue_toValue, Selection.ofList_toList]
  have format := some_back OutputFormat.ofValue_toValue format
  exact (FenceQuery.mk.injEq ..).mpr ⟨predicate.ofValue_toValue, flagValue_back clip,
    flagValue_back distance, filters, join_map_some cursor, events, writes, format⟩

theorem toValue_reread (q : FenceQuery) : q.reread.toValue = shape.reread q.toValue := by
  refine Prod.ext q.predicate.toValue_reread ?_
  refine Prod.ext (flagValue_fixed (fun _ => rfl) q.clip) ?_
  refine Prod.ext (flagValue_fixed (fun _ => rfl) q.distance) ?_
  refine Prod.ext (listValue_map RangeFilter.toValue_reread q.filters.ranges) ?_
  refine Prod.ext (listValue_map MembershipFilter.toValue_reread q.filters.memberships) ?_
  refine Prod.ext (some_fixed (fun _ => rfl) q.filters.pattern) ?_
  refine Prod.ext (some_fixed (fun _ => rfl) q.cursor) ?_
  refine Prod.ext (listValue_fixed FenceEvent.reread_toValue q.events.toList) ?_
  refine Prod.ext (listValue_fixed FenceWrite.reread_toValue q.writes.toList) ?_
  exact Prod.ext (some_fixed OutputFormat.reread_toValue q.format) rfl

theorem writable_toValue {q : FenceQuery} (h : Writable inside q.numbers []) :
    shape.Writable inside q.toValue := by
  have predicate : Writable inside q.predicate.numbers [] :=
    h.of_subset (by simp [numbers]) (List.nil_subset _)
  have filters : Writable inside q.filters.numbers [] :=
    h.of_subset (by simp [numbers]) (List.nil_subset _)
  refine ⟨FencePredicate.writable_toValue predicate, ?_⟩
  refine Fields.writable_optional (writable_flag _) ?_
  refine Fields.writable_optional (writable_flag _) ?_
  refine Fields.writable_optional (writable_listValue (Filters.writable_ranges filters)) ?_
  refine Fields.writable_optional (writable_listValue (Filters.writable_memberships filters)) ?_
  refine Fields.writable_optional (writable_some fun _ _ => trivial) ?_
  refine Fields.writable_optional (writable_some fun _ _ => trivial) ?_
  refine Fields.writable_optional (writable_listValue fun e _ => e.writable_toValue) ?_
  refine Fields.writable_optional (writable_listValue fun w _ => w.writable_toValue) ?_
  refine Fields.writable_optional (writable_some fun f _ => f.writable_toValue) ?_
  exact trivial

end FenceQuery

namespace WriteQuery

def numbers (q : WriteQuery) : List Binary64 :=
  q.fields.flatMap FieldValue.numbers ++ q.payload.elim [] Payload.numbers

def objects (q : WriteQuery) : List Json := q.payload.elim [] Payload.objects

def reread (q : WriteQuery) : WriteQuery :=
  { q with
    fields := q.fields.map FieldValue.reread
    payload := q.payload.map Payload.reread }

theorem ofValue_toValue (q : WriteQuery) : ofValue q.toValue = q := by
  obtain ⟨key, id, expiration, fields, condition, payload⟩ := q
  have fields := listValue_back FieldValue.ofValue_toValue fields
  have condition := some_back Condition.ofValue_toValue condition
  have payload := some_back Payload.ofValue_toValue payload
  exact (WriteQuery.mk.injEq ..).mpr
    ⟨rfl, rfl, join_map_some expiration, fields, condition, payload⟩

theorem toValue_reread (q : WriteQuery) : q.reread.toValue = shape.reread q.toValue := by
  refine Prod.ext rfl ?_
  refine Prod.ext rfl ?_
  refine Prod.ext (some_fixed (fun _ => rfl) q.expiration) ?_
  refine Prod.ext (listValue_map FieldValue.toValue_reread q.fields) ?_
  refine Prod.ext (some_fixed Condition.reread_toValue q.condition) ?_
  exact Prod.ext (some_map Payload.toValue_reread q.payload) rfl

theorem writable_fields {q : WriteQuery} (h : Writable inside q.numbers q.objects) :
    ∀ f ∈ q.fields, FieldValue.shape.Writable inside f.toValue := by
  intro f member
  have own : f.numbers ⊆ q.numbers := by
    intro x held
    apply List.mem_append_left
    exact List.mem_flatMap.2 ⟨f, member, held⟩
  exact FieldValue.writable_toValue (h.of_subset own (List.nil_subset _))

theorem writable_payload {q : WriteQuery} (h : Writable inside q.numbers q.objects) :
    ∀ p ∈ q.payload, Payload.shape.Writable inside p.toValue := by
  intro p member
  refine Payload.writable_toValue (h.of_subset ?_ ?_)
  · simp [numbers, Option.mem_def.1 member]
  · simp [objects, Option.mem_def.1 member]

theorem writable_toValue {q : WriteQuery} (h : Writable inside q.numbers q.objects) :
    shape.Writable inside q.toValue := by
  refine ⟨trivial, trivial, ?_⟩
  refine Fields.writable_optional (writable_some fun _ _ => trivial) ?_
  refine Fields.writable_optional (writable_listValue (writable_fields h)) ?_
  refine Fields.writable_optional (writable_some fun c _ => c.writable_toValue) ?_
  refine Fields.writable_optional (writable_some (writable_payload h)) ?_
  exact trivial

end WriteQuery

namespace KeyQuery

theorem ofValue_toValue (q : KeyQuery) : ofValue q.toValue = q := by cases q <;> rfl

theorem reread_toValue (q : KeyQuery) : shape.reread q.toValue = q.toValue := by cases q <;> rfl

theorem writable_toValue (q : KeyQuery) : shape.Writable inside q.toValue := by
  cases q with
  | drop => exact ⟨trivial, trivial⟩
  | expire => exact ⟨trivial, trivial, trivial, trivial⟩
  | get | del | persist | ttl => exact ⟨trivial, trivial, trivial⟩

end KeyQuery

namespace Query

/-- All numbers of a query outside of its JSON values. -/
def numbers : Query → List Binary64
  | .search query => query.numbers
  | .geofence query => query.numbers
  | .set query => query.numbers
  | .key _ => []

/-- The JSON values of a query: a geometry, if the query has one. -/
def objects : Query → List Json
  | .search query => query.objects
  | .set query => query.objects
  | .geofence _ | .key _ => []

/-- The query with each number replaced by what the reader of JSON numbers takes from its text. -/
def reread : Query → Query
  | .search query => .search query.reread
  | .geofence query => .geofence query.reread
  | .set query => .set query.reread
  | .key query => .key query

theorem ofValue_toValue (q : Query) : ofValue q.toValue = q := by
  cases q with
  | search query => exact congrArg search query.ofValue_toValue
  | geofence query => exact congrArg geofence query.ofValue_toValue
  | set query => exact congrArg set query.ofValue_toValue
  | key query => exact congrArg key query.ofValue_toValue

theorem toValue_reread (q : Query) : q.reread.toValue = shape.reread q.toValue := by
  cases q with
  | search query => exact congrArg Sum.inl query.toValue_reread
  | geofence query => exact congrArg (fun v => Sum.inr (Sum.inl v)) query.toValue_reread
  | set query => exact congrArg (fun v => Sum.inr (Sum.inr (Sum.inl v))) query.toValue_reread
  | key query =>
      exact congrArg (fun v => Sum.inr (Sum.inr (Sum.inr (Sum.inl v)))) query.reread_toValue.symm

theorem writable_toValue {q : Query} (h : Writable inside q.numbers q.objects) :
    shape.Writable inside q.toValue := by
  cases q with
  | search query => exact SearchQuery.writable_toValue h
  | geofence query => exact FenceQuery.writable_toValue h
  | set query => exact WriteQuery.writable_toValue h
  | key query => exact query.writable_toValue

/-- The three brackets around a geometry leave it 124 of the 127 that may be open. -/
theorem height_shape : shape.height 124 = maxDepth := by decide

theorem faithful_shape : shape.faithful = true := by decide

/-- The text of a query is read back as the query, with each number as the reader of JSON numbers
takes it from its own text, which is never out of range. -/
theorem ofJsonText_compact {q : Query} (finite : ∀ x ∈ q.numbers, x.isFinite = true)
    (nesting : ∀ j ∈ q.objects, j.nesting ≤ 124) :
    ofJsonText q.toJson.compact = .ok q.reread ∧
      ∀ x : Finite64, Json.ofText x.json = .ok (.leaf (.number (.fraction x.reread))) := by
  have writable := writable_toValue ⟨finite, nesting⟩
  have read := Shape.ofText_compact plain_shape faithful_shape (Nat.le_of_eq height_shape) writable
  refine ⟨?_, Finite64.ofText_json⟩
  rw [ofJsonText, toJson, read, ← toValue_reread]
  exact congrArg Except.ok q.reread.ofValue_toValue

def halfwaySearch : Query :=
  let half : Finite64 := ⟨false, 0x3fe0000000000000, by decide⟩
  .search
    { predicate := .nearby "fleet" (.finite half) (.finite half) (.finite half)
      filters := { ranges := [⟨"speed", .finite half, .finite half⟩] }
      area := some (.object (.ofJson (.object
        [("at", .array [.leaf (.number (.integer ⟨0, by decide, by decide⟩)),
          .leaf (.number (.fraction half))])]))) }

theorem ofJsonText_compact_halfway :
    ofJsonText halfwaySearch.toJson.compact = .ok halfwaySearch.reread := by
  exact (ofJsonText_compact (by decide) (by decide)).1

end Query

end GeoQuery
