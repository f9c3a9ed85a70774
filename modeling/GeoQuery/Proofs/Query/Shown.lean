import GeoQuery.Proofs.Json.Canonical
import GeoQuery.Proofs.Query.Layout
import GeoQuery.Proofs.Query.Spelled
import GeoQuery.Proofs.Shape.Place

/-!
Numbers from a description to its command. A number that stands at one place of a description is one
argument of the clause of that place and nothing else, unless another clause hides it; an ordinary
decimal there comes out as the canonical numeral of the same value.
-/

namespace GeoQuery

open Json Outcome
open Argument (StandsBehind standsBehind_counted standsBehind_numbers)

/-- A number of a clause. Filters and fields are known by their position among those of the query, and
the numbers of one clause by their position among these. -/
inductive NumberClause
  | range (filter position : Nat)
  | member (filter position : Nat)
  | point (position : Nat)
  | bounds (position : Nat)
  | circle (position : Nat)
  | roam
  | field (position : Nat)
deriving DecidableEq

namespace NumberClause

def word : NumberClause → String
  | .range .. => "WHERE"
  | .member .. => "WHEREIN"
  | .point _ => "POINT"
  | .bounds _ => "BOUNDS"
  | .circle _ => "CIRCLE"
  | .roam => "ROAM"
  | .field _ => "FIELD"

/-- How many tokens stand between the word and the number: the numbers before it, and what the clause
has in front of them. -/
def offset : NumberClause → Nat
  | .range _ position => 1 + position
  | .member _ position => 2 + position
  | .point position | .bounds position | .circle position => position
  | .roam => 2
  | .field _ => 1

/-- The number of a clause that has this path in a description. -/
def ofPath? : Path → Option NumberClause
  | [.name "search", .name "where", .index filter, .name name]
  | [.name "geofence", .name "where", .index filter, .name name] =>
    (["min", "max"].idxOf? name).map (.range filter)
  | [.name "search", .name "wherein", .index filter, .name "values", .index position]
  | [.name "geofence", .name "wherein", .index filter, .name "values", .index position] =>
    some (.member filter position)
  | [.name "search", .name "predicate", .name "nearby", .name name]
  | [.name "geofence", .name "predicate", .name "nearby", .name name] =>
    (["lat", "lon", "radius"].idxOf? name).map .point
  | [.name "geofence", .name "predicate", .name "roam", .name "meters"] => some .roam
  | [.name "search", .name "area", .name "bounds", .name name]
  | [.name "set", .name "payload", .name "bounds", .name name] =>
    (["min_lat", "min_lon", "max_lat", "max_lon"].idxOf? name).map .bounds
  | [.name "search", .name "area", .name "circle", .name name] =>
    (["lat", "lon", "meters"].idxOf? name).map .circle
  | [.name "set", .name "payload", .name "point", .name name] =>
    (["lat", "lon", "z"].idxOf? name).map .point
  | [.name "set", .name "fields", .index position, .name "value"] => some (.field position)
  | _ => none

end NumberClause

def Filters.number? (f : Filters) : NumberClause → Option Binary64
  | .range filter position => f.ranges[filter]?.bind fun range => [range.min, range.max][position]?
  | .member filter position => f.memberships[filter]?.bind fun filter => filter.values[position]?
  | _ => none

def SearchPredicate.number? : SearchPredicate → NumberClause → Option Binary64
  | .nearby _ lat lon radius, .point position => [lat, lon, radius][position]?
  | _, _ => none

def FencePredicate.number? : FencePredicate → NumberClause → Option Binary64
  | .nearby _ lat lon radius, .point position => [lat, lon, radius][position]?
  | .roam _ _ _ meters, .roam => some meters
  | _, _ => none

def Area.number? : Area → NumberClause → Option Binary64
  | .bounds minLat minLon maxLat maxLon, .bounds position =>
    [minLat, minLon, maxLat, maxLon][position]?
  | .circle lat lon meters, .circle position => [lat, lon, meters][position]?
  | _, _ => none

def Payload.number? : Payload → NumberClause → Option Binary64
  | .point lat lon z, .point position => (lat :: lon :: z.toList)[position]?
  | .bounds minLat minLon maxLat maxLon, .bounds position =>
    [minLat, minLon, maxLat, maxLon][position]?
  | _, _ => none

namespace Query

def number? : Query → NumberClause → Option Binary64
  | .search q, .range filter position => q.filters.number? (.range filter position)
  | .search q, .member filter position => q.filters.number? (.member filter position)
  | .search q, .point position => q.predicate.number? (.point position)
  | .search q, clause => q.area.bind (·.number? clause)
  | .geofence q, .range filter position => q.filters.number? (.range filter position)
  | .geofence q, .member filter position => q.filters.number? (.member filter position)
  | .geofence q, clause => q.predicate.number? clause
  | .set q, .field position => q.fields[position]?.map FieldValue.value
  | .set q, clause => q.payload.bind (·.number? clause)
  | .key _, _ => none

/-- Whether another clause stands where the number would: an area in place of the point of a search, or
a format in place of what a fence roams around. -/
def hides : Query → NumberClause → Bool
  | .search q, .point _ => q.area.isSome
  | .geofence q, .roam => q.format.isSome
  | _, _ => false

/-- Queries that differ in one number. It is what they hold for the clause, and an argument of the
clause, or it is hidden, and then they have the same command. -/
inductive Displays (clause : NumberClause) (queries : Binary64 → Query) : Prop
  | shown (held : ∀ x, (queries x).number? clause = some x)
      (visible : ∀ x, (queries x).hides clause = false)
      (stands : StandsBehind clause.word clause.offset (.number clause.word) fun x =>
        (queries x).words)
  | hidden (held : ∀ x, (queries x).number? clause = some x)
      (covered : ∀ x, (queries x).hides clause = true)
      (same : ∀ x y, (queries x).words = (queries y).words)

end Query

open Query (Displays)

variable {path : Path}

theorem getElem?_of_eq_append {values front back : List Binary64} {x : Binary64}
    (same : values = front ++ x :: back) : values[front.length]? = some x := by
  rw [same, List.getElem?_append_right (Nat.le_refl _), Nat.sub_self, List.getElem?_cons_zero]

/-- A number of a clause that has nothing but numbers, which are described by name. -/
theorem exists_position_of_inserts (word : String) (names : List String) (apart : names.Nodup)
    {insert : Binary64 → (Fields.numbers names).Value}
    (h : (Fields.numbers names).Inserts .number path insert) :
    ∃ name position, path = [.name name] ∧ names.idxOf? name = some position ∧
      (∀ x, (Fields.valuesOfNumbers names (insert x))[position]? = some x) ∧
      StandsBehind word position (.number word) fun x =>
        .word word :: Argument.numbers word (Fields.valuesOfNumbers names (insert x)) := by
  obtain ⟨name, front, back, rfl, position, same⟩ := Fields.inserts_numbers names apart h
  refine ⟨name, front.length, rfl, position, fun x => getElem?_of_eq_append (same x), ?_⟩
  exact standsBehind_numbers [] same (Nat.zero_add _)

theorem RangeFilter.exists_of_inserts {insert : Binary64 → shape.Value}
    (h : shape.Inserts .number path insert) :
    ∃ name position, path = [.name name] ∧ ["min", "max"].idxOf? name = some position ∧
      (∀ x, [(ofValue (insert x)).min, (ofValue (insert x)).max][position]? = some x) ∧
      StandsBehind "WHERE" (1 + position) (.number "WHERE") fun x =>
        (ofValue (insert x)).arguments := by
  obtain ⟨field, _, numbers, rfl⟩ := Fields.inserts_behind_required h rfl
  obtain ⟨name, front, back, rfl, position, same⟩ :=
    Fields.inserts_numbers ["min", "max"] (by decide) numbers
  exact ⟨name, front.length, rfl, position, fun x => getElem?_of_eq_append (same x),
    standsBehind_numbers [.word field] same rfl⟩

theorem MembershipFilter.exists_of_inserts {insert : Binary64 → shape.Value}
    (h : shape.Inserts .number path insert) :
    ∃ position, path = [.name "values", .index position] ∧
      (∀ x, (ofValue (insert x)).values[position]? = some x) ∧
      StandsBehind "WHEREIN" (2 + position) (.number "WHEREIN") fun x =>
        (ofValue (insert x)).arguments := by
  obtain ⟨field, _, listed, rfl⟩ := Fields.inserts_behind_required h rfl
  obtain ⟨_, values, rfl, inserts, rfl⟩ := Fields.inserts_last_required listed
  obtain ⟨_, front, _, back, rfl, ⟨rfl, _, rfl⟩, rfl⟩ := inserts
  refine ⟨front.length, rfl, fun x => ?_, standsBehind_counted [.word field] front back⟩
  exact getElem?_of_eq_append rfl

namespace Filters

variable {α : Type} {word : String} {offset : Nat} {own : α → Argument} (f : Filters)

theorem number?_withRanges (front back : List RangeFilter) (range : RangeFilter) (position : Nat) :
    { f with ranges := front ++ range :: back : Filters }.number? (.range front.length position) =
      [range.min, range.max][position]? := by
  simp [number?]

theorem number?_withMemberships (front back : List MembershipFilter) (filter : MembershipFilter)
    (position : Nat) :
    { f with memberships := front ++ filter :: back : Filters }.number?
      (.member front.length position) = filter.values[position]? := by
  simp [number?]

theorem standsBehind_ranges {range : α → RangeFilter}
    (h : StandsBehind word offset own fun x => (range x).arguments) (front back : List RangeFilter) :
    StandsBehind word offset own fun x =>
      { f with ranges := front ++ range x :: back : Filters }.arguments := by
  dsimp only [arguments]
  apply StandsBehind.append
  apply StandsBehind.append
  exact h.flatMap front back

theorem standsBehind_memberships {filter : α → MembershipFilter}
    (h : StandsBehind word offset own fun x => (filter x).arguments)
    (front back : List MembershipFilter) :
    StandsBehind word offset own fun x =>
      { f with memberships := front ++ filter x :: back : Filters }.arguments := by
  dsimp only [arguments]
  apply StandsBehind.append
  apply StandsBehind.prepend
  exact h.flatMap front back

/-- Filters that differ in one number: it is what they hold for the clause, and an argument of it. -/
structure Displays (clause : NumberClause) (filters : Binary64 → Filters) : Prop where
  held : ∀ x, (filters x).number? clause = some x
  stands : StandsBehind clause.word clause.offset (.number clause.word) fun x =>
    (filters x).arguments

theorem displays_ranges {insert : Binary64 → List RangeFilter.shape.Value}
    (h : (Shape.list RangeFilter.shape).Inserts .number path insert) :
    ∃ clause, NumberClause.ofPath? (.name "search" :: .name "where" :: path) = some clause ∧
      NumberClause.ofPath? (.name "geofence" :: .name "where" :: path) = some clause ∧
      Displays clause fun x => { f with ranges := (insert x).map RangeFilter.ofValue } := by
  obtain ⟨_, front, own, back, rfl, inserts, same⟩ :=
    Shape.exists_item_of_inserts RangeFilter.shape h RangeFilter.ofValue
  obtain ⟨name, position, rfl, named, held, stands⟩ := RangeFilter.exists_of_inserts inserts
  have known := congrArg (Option.map (NumberClause.range front.length)) named
  have same (x : Binary64) : (insert x).map RangeFilter.ofValue =
      front ++ .ofValue (own x) :: back := same x
  simp only [same]
  refine ⟨_, known, known, fun x => ?_, f.standsBehind_ranges stands front back⟩
  rw [number?_withRanges, held]

theorem displays_memberships {insert : Binary64 → List MembershipFilter.shape.Value}
    (h : (Shape.list MembershipFilter.shape).Inserts .number path insert) :
    ∃ clause, NumberClause.ofPath? (.name "search" :: .name "wherein" :: path) = some clause ∧
      NumberClause.ofPath? (.name "geofence" :: .name "wherein" :: path) = some clause ∧
      Displays clause fun x => { f with memberships := (insert x).map MembershipFilter.ofValue } := by
  obtain ⟨_, front, own, back, rfl, inserts, same⟩ :=
    Shape.exists_item_of_inserts MembershipFilter.shape h MembershipFilter.ofValue
  obtain ⟨position, rfl, held, stands⟩ := MembershipFilter.exists_of_inserts inserts
  have same (x : Binary64) : (insert x).map MembershipFilter.ofValue =
      front ++ .ofValue (own x) :: back := same x
  simp only [same]
  refine ⟨.member front.length position, rfl, rfl, fun x => ?_,
    f.standsBehind_memberships stands front back⟩
  rw [number?_withMemberships, held]

end Filters

theorem Area.displays_of_inserts (q : SearchQuery) {insert : Binary64 → shape.Value}
    (h : shape.Inserts .number path insert) :
    ∃ clause, NumberClause.ofPath? (.name "search" :: .name "area" :: path) = some clause ∧
      Displays clause fun x => .search (q.setArea (ofValue (insert x))) := by
  obtain ⟨_, tile, -, inserts, -⟩ | ⟨_, h, rfl⟩ := h
  · cases Shape.holds_of_inserts tileShape inserts
  obtain ⟨_, bounds, rfl, inserts, rfl⟩ | ⟨_, h, rfl⟩ := h
  · obtain ⟨name, position, rfl, known, held, stands⟩ := exists_position_of_inserts "BOUNDS"
      ["min_lat", "min_lon", "max_lat", "max_lon"] (by decide) inserts
    refine ⟨.bounds position, congrArg (Option.map NumberClause.bounds) known, ?_⟩
    exact .shown held (fun _ => rfl) (q.standsBehind_area stands)
  obtain ⟨_, circle, rfl, inserts, rfl⟩ | ⟨_, others, -⟩ := h
  · obtain ⟨name, position, rfl, known, held, stands⟩ :=
      exists_position_of_inserts "CIRCLE" ["lat", "lon", "meters"] (by decide) inserts
    refine ⟨.circle position, congrArg (Option.map NumberClause.circle) known, ?_⟩
    exact .shown held (fun _ => rfl) (q.standsBehind_area stands)
  · cases Variants.holds_of_inserts _ others

theorem SearchQuery.displays_point (q : SearchQuery) {position : Nat} {name key : String}
    {predicate : Binary64 → SearchPredicate} (named : ∀ x, (predicate x).name = name)
    (keyed : ∀ x, (predicate x).key = key)
    (held : ∀ x, (predicate x).number? (.point position) = some x)
    (stands : StandsBehind "POINT" position (.number "POINT") fun x => (predicate x).arguments) :
    Displays (.point position) fun x => .search { q with predicate := predicate x } := by
  obtain vacant | ⟨area, occupied⟩ := q.area.eq_none_or_eq_some
  · have visible : q.area.isSome = false := by rw [vacant, Option.isSome_none]
    refine .shown held (fun _ => visible) ?_
    simp only [q.words_withPredicate, named, keyed]
    simp only [vacant, Option.elim_none]
    apply StandsBehind.prepend
    apply StandsBehind.prepend
    apply StandsBehind.prepend
    exact stands
  · have covered : q.area.isSome = true := by rw [occupied, Option.isSome_some]
    refine .hidden held (fun _ => covered) fun x y => ?_
    simp only [q.words_withPredicate, named, keyed]
    simp only [occupied, Option.elim_some]

theorem SearchPredicate.displays_of_inserts (q : SearchQuery) {insert : Binary64 → shape.Value}
    (h : shape.Inserts .number path insert) :
    ∃ clause, NumberClause.ofPath? (.name "search" :: .name "predicate" :: path) = some clause ∧
      Displays clause fun x => .search { q with predicate := ofValue (insert x) } := by
  obtain ⟨_, _, rfl, inserts, rfl⟩ | ⟨_, others, -⟩ := h
  · obtain ⟨key, nearby, numbers, rfl⟩ := Fields.inserts_behind_required inserts rfl
    obtain ⟨name, position, rfl, known, held, stands⟩ :=
      exists_position_of_inserts "POINT" ["lat", "lon", "radius"] (by decide) numbers
    refine ⟨.point position, congrArg (Option.map NumberClause.point) known, ?_⟩
    exact q.displays_point (fun _ => rfl) (fun _ => rfl) held stands
  · cases Cases.holds_of_inserts _ others

namespace FenceQuery

variable (q : FenceQuery) {name key : String} {predicate : Binary64 → FencePredicate}

theorem displays_point {position : Nat} (named : ∀ x, (predicate x).name = name)
    (keyed : ∀ x, (predicate x).key = key)
    (held : ∀ x, (predicate x).number? (.point position) = some x)
    (still : ∀ x, (predicate x).roaming = [])
    (stands : StandsBehind "POINT" position (.number "POINT") fun x => (predicate x).point) :
    Displays (.point position) fun x => .geofence { q with predicate := predicate x } := by
  refine .shown held (fun _ => rfl) ?_
  simp only [q.words_withPredicate, named, keyed, still]
  apply StandsBehind.prepend
  apply StandsBehind.prepend
  apply StandsBehind.prepend
  apply StandsBehind.prepend
  exact stands

theorem displays_roaming (named : ∀ x, (predicate x).name = name)
    (keyed : ∀ x, (predicate x).key = key) (held : ∀ x, (predicate x).number? .roam = some x)
    (pointless : ∀ x, (predicate x).point = [])
    (stands : StandsBehind "ROAM" 2 (.number "ROAM") fun x => (predicate x).roaming) :
    Displays .roam fun x => .geofence { q with predicate := predicate x } := by
  obtain vacant | ⟨format, occupied⟩ := q.format.eq_none_or_eq_some
  · have visible : q.format.isSome = false := by rw [vacant, Option.isSome_none]
    refine .shown held (fun _ => visible) ?_
    simp only [q.words_withPredicate, named, keyed, pointless]
    simp only [vacant, Option.elim_none]
    apply StandsBehind.prepend
    apply StandsBehind.prepend
    apply StandsBehind.prepend
    apply StandsBehind.append
    exact stands
  · have covered : q.format.isSome = true := by rw [occupied, Option.isSome_some]
    refine .hidden held (fun _ => covered) fun x y => ?_
    simp only [q.words_withPredicate, named, keyed, pointless]
    simp only [occupied, Option.elim_some]

end FenceQuery

theorem FencePredicate.displays_of_inserts (q : FenceQuery) {insert : Binary64 → shape.Value}
    (h : shape.Inserts .number path insert) :
    ∃ clause, NumberClause.ofPath? (.name "geofence" :: .name "predicate" :: path) = some clause ∧
      Displays clause fun x => .geofence { q with predicate := ofValue (insert x) } := by
  obtain ⟨_, _, rfl, inserts, rfl⟩ | ⟨_, h₁, rfl⟩ := h
  · obtain ⟨key, nearby, numbers, rfl⟩ := Fields.inserts_behind_required inserts rfl
    obtain ⟨name, position, rfl, known, held, stands⟩ :=
      exists_position_of_inserts "POINT" ["lat", "lon", "radius"] (by decide) numbers
    refine ⟨.point position, congrArg (Option.map NumberClause.point) known, ?_⟩
    exact q.displays_point (fun _ => rfl) (fun _ => rfl) held (fun _ => rfl) stands
  obtain ⟨_, intersects, -, others, -⟩ | ⟨_, h₂, rfl⟩ := h₁
  · cases Fields.holds_of_inserts _ others
  obtain ⟨_, within, -, others, -⟩ | ⟨_, h₃, rfl⟩ := h₂
  · cases Fields.holds_of_inserts _ others
  obtain ⟨_, roam, rfl, inserts, rfl⟩ | ⟨_, nothing, -⟩ := h₃
  · obtain ⟨key, _, h₄, rfl⟩ := Fields.inserts_behind_required inserts rfl
    obtain ⟨target, _, h₅, rfl⟩ := Fields.inserts_behind_required h₄ rfl
    obtain ⟨pattern, _, h₆, rfl⟩ := Fields.inserts_behind_required h₅ rfl
    obtain ⟨_, meters, rfl, ⟨rfl, _, rfl⟩, rfl⟩ := Fields.inserts_last_required h₆
    have stands : StandsBehind "ROAM" 2 (.number "ROAM") fun x =>
        (FencePredicate.roam key target pattern x).roaming :=
      ⟨[], [.word target, .word pattern], [], rfl, fun _ => rfl⟩
    refine ⟨.roam, rfl, ?_⟩
    exact q.displays_roaming (fun _ => rfl) (fun _ => rfl) (fun _ => rfl) (fun _ => rfl) stands
  · cases nothing

theorem FieldValue.displays_of_inserts (q : WriteQuery)
    {insert : Binary64 → List FieldValue.shape.Value}
    (h : (Shape.list FieldValue.shape).Inserts .number path insert) :
    ∃ clause, NumberClause.ofPath? (.name "set" :: .name "fields" :: path) = some clause ∧
      Displays clause fun x => .set { q with fields := (insert x).map ofValue } := by
  obtain ⟨_, front, own, back, rfl, item, same⟩ := Shape.exists_item_of_inserts shape h ofValue
  obtain ⟨name, _, value, rfl⟩ := Fields.inserts_behind_required item rfl
  obtain ⟨_, own, rfl, ⟨rfl, _, rfl⟩, rfl⟩ := Fields.inserts_last_required value
  have same (x : Binary64) : (insert x).map ofValue = front ++ ⟨name, x⟩ :: back := same x
  have field : StandsBehind "FIELD" 1 (.number "FIELD") fun x => (FieldValue.mk name x).arguments :=
    ⟨[], [.word name], [], rfl, fun _ => rfl⟩
  simp only [same]
  refine ⟨.field front.length, rfl, .shown (fun x => ?_) (fun _ => rfl) ?_⟩
  · simp [Query.number?]
  · exact WriteQuery.standsBehind_fields q (field.flatMap front back)

theorem Payload.displays_point (q : WriteQuery) {insert : Binary64 → pointShape.Value}
    (h : pointShape.Inserts .number path insert) :
    ∃ clause, NumberClause.ofPath? (.name "set" :: .name "payload" :: .name "point" :: path) =
        some clause ∧
      Displays clause fun x => .set (q.setPayload (ofValue (.inl (insert x)))) := by
  obtain ⟨_, _, ⟨lon, z, ⟨⟩⟩, rfl, ⟨rfl, _, rfl⟩, rfl⟩ | ⟨lat, _, h₁, rfl⟩ := h
  · have stands : StandsBehind "POINT" 0 (.number "POINT") fun x =>
        (Payload.point x lon z.join).arguments :=
      ⟨[], [], Argument.numbers "POINT" (lon :: z.join.toList), rfl, fun _ => rfl⟩
    exact ⟨.point 0, rfl, .shown (fun _ => rfl) (fun _ => rfl) (q.standsBehind_payload stands)⟩
  obtain ⟨_, _, ⟨z, ⟨⟩⟩, rfl, ⟨rfl, _, rfl⟩, rfl⟩ | ⟨lon, _, h₂, rfl⟩ := h₁
  · have stands : StandsBehind "POINT" 1 (.number "POINT") fun x =>
        (Payload.point lat x z.join).arguments :=
      ⟨[], [.number "POINT" lat], Argument.numbers "POINT" z.join.toList, rfl, fun _ => rfl⟩
    exact ⟨.point 1, rfl, .shown (fun _ => rfl) (fun _ => rfl) (q.standsBehind_payload stands)⟩
  obtain ⟨_, z, rfl, ⟨_, ⟨rfl, _, rfl⟩, rfl⟩, rfl⟩ := Fields.inserts_last_optional h₂
  have stands : StandsBehind "POINT" 2 (.number "POINT") fun x =>
      (Payload.point lat lon (some x)).arguments :=
    ⟨[], [.number "POINT" lat, .number "POINT" lon], [], rfl, fun _ => rfl⟩
  exact ⟨.point 2, rfl, .shown (fun _ => rfl) (fun _ => rfl) (q.standsBehind_payload stands)⟩

theorem Payload.displays_of_inserts (q : WriteQuery) {insert : Binary64 → shape.Value}
    (h : shape.Inserts .number path insert) :
    ∃ clause, NumberClause.ofPath? (.name "set" :: .name "payload" :: path) = some clause ∧
      Displays clause fun x => .set (q.setPayload (ofValue (insert x))) := by
  obtain ⟨_, point, rfl, inserts, rfl⟩ | ⟨_, h₁, rfl⟩ := h
  · exact displays_point q inserts
  obtain ⟨_, bounds, rfl, inserts, rfl⟩ | ⟨_, others, -⟩ := h₁
  · obtain ⟨name, position, rfl, known, held, stands⟩ := exists_position_of_inserts "BOUNDS"
      ["min_lat", "min_lon", "max_lat", "max_lon"] (by decide) inserts
    refine ⟨.bounds position, congrArg (Option.map NumberClause.bounds) known, ?_⟩
    exact .shown held (fun _ => rfl) (q.standsBehind_payload stands)
  · cases Variants.holds_of_inserts _ others

theorem SearchQuery.displays_filters (q : SearchQuery) {clause : NumberClause}
    {filters : Binary64 → Filters} (h : Filters.Displays clause filters) :
    Displays clause fun x => .search { q with filters := filters x } := by
  cases clause with
  | range | member => exact .shown h.held (fun _ => rfl) (q.standsBehind_filters h.stands)
  | point | bounds | circle | roam | field => cases h.held .nan

theorem FenceQuery.displays_filters (q : FenceQuery) {clause : NumberClause}
    {filters : Binary64 → Filters} (h : Filters.Displays clause filters) :
    Displays clause fun x => .geofence { q with filters := filters x } := by
  cases clause with
  | range | member => exact .shown h.held (fun _ => rfl) (q.standsBehind_filters h.stands)
  | point | bounds | circle | roam | field => cases h.held .nan

namespace Query

theorem displays_search {insert : Binary64 → SearchQuery.shape.Value}
    (h : SearchQuery.shape.Inserts .number path insert) :
    ∃ clause, NumberClause.ofPath? (.name "search" :: path) = some clause ∧
      Displays clause fun x => .search (.ofValue (insert x)) := by
  obtain ⟨_, own, values, rfl, inserts, rfl⟩ | ⟨predicate, _, h₁, rfl⟩ := h
  · -- any number does here, because the predicate is put in again
    exact SearchPredicate.displays_of_inserts (.ofValue (own .nan, values)) inserts
  obtain ⟨_, own, values, rfl, inserts, rfl⟩ | ⟨ranges, _, h₂, rfl⟩ := h₁
  · let q := SearchQuery.ofValue (predicate, none, values)
    obtain ⟨clause, known, -, displays⟩ := q.filters.displays_ranges inserts
    exact ⟨clause, known, q.displays_filters displays⟩
  obtain ⟨_, own, values, rfl, inserts, rfl⟩ | ⟨memberships, _, h₃, rfl⟩ := h₂
  · let q := SearchQuery.ofValue (predicate, ranges, none, values)
    obtain ⟨clause, known, -, displays⟩ := q.filters.displays_memberships inserts
    exact ⟨clause, known, q.displays_filters displays⟩
  obtain ⟨pattern, _, h₄, rfl⟩ := Fields.inserts_behind_optional h₃ rfl
  obtain ⟨cursor, _, h₅, rfl⟩ := Fields.inserts_behind_optional h₄ rfl
  obtain ⟨limit, _, h₆, rfl⟩ := Fields.inserts_behind_optional h₅ rfl
  obtain ⟨noFields, _, h₇, rfl⟩ := Fields.inserts_behind_optional h₆ rfl
  obtain ⟨format, _, h₈, rfl⟩ := Fields.inserts_behind_optional h₇ rfl
  obtain ⟨_, area, rfl, ⟨own, inserts, rfl⟩, rfl⟩ := Fields.inserts_last_optional h₈
  exact Area.displays_of_inserts (.ofValue
    (predicate, ranges, memberships, pattern, cursor, limit, noFields, format, none, ())) inserts

theorem displays_geofence {insert : Binary64 → FenceQuery.shape.Value}
    (h : FenceQuery.shape.Inserts .number path insert) :
    ∃ clause, NumberClause.ofPath? (.name "geofence" :: path) = some clause ∧
      Displays clause fun x => .geofence (.ofValue (insert x)) := by
  obtain ⟨_, own, values, rfl, inserts, rfl⟩ | ⟨predicate, _, h₁, rfl⟩ := h
  · -- any number does here, because the predicate is put in again
    exact FencePredicate.displays_of_inserts (.ofValue (own .nan, values)) inserts
  obtain ⟨clip, _, h₂, rfl⟩ := Fields.inserts_behind_optional h₁ rfl
  obtain ⟨distance, _, h₃, rfl⟩ := Fields.inserts_behind_optional h₂ rfl
  obtain ⟨_, own, values, rfl, inserts, rfl⟩ | ⟨ranges, _, h₄, rfl⟩ := h₃
  · let q := FenceQuery.ofValue (predicate, clip, distance, none, values)
    obtain ⟨clause, -, known, displays⟩ := q.filters.displays_ranges inserts
    exact ⟨clause, known, q.displays_filters displays⟩
  obtain ⟨_, own, values, rfl, inserts, rfl⟩ | ⟨memberships, _, others, rfl⟩ := h₄
  · let q := FenceQuery.ofValue (predicate, clip, distance, ranges, none, values)
    obtain ⟨clause, -, known, displays⟩ := q.filters.displays_memberships inserts
    exact ⟨clause, known, q.displays_filters displays⟩
  · cases Fields.holds_of_inserts _ others

theorem displays_set {insert : Binary64 → WriteQuery.shape.Value}
    (h : WriteQuery.shape.Inserts .number path insert) :
    ∃ clause, NumberClause.ofPath? (.name "set" :: path) = some clause ∧
      Displays clause fun x => .set (.ofValue (insert x)) := by
  obtain ⟨key, _, h₁, rfl⟩ := Fields.inserts_behind_required h rfl
  obtain ⟨id, _, h₂, rfl⟩ := Fields.inserts_behind_required h₁ rfl
  obtain ⟨expiration, _, h₃, rfl⟩ := Fields.inserts_behind_optional h₂ rfl
  obtain ⟨_, own, values, rfl, inserts, rfl⟩ | ⟨fields, _, h₄, rfl⟩ := h₃
  · exact FieldValue.displays_of_inserts (.ofValue (key, id, expiration, none, values)) inserts
  obtain ⟨condition, _, h₅, rfl⟩ := Fields.inserts_behind_optional h₄ rfl
  obtain ⟨_, payload, rfl, ⟨own, inserts, rfl⟩, rfl⟩ := Fields.inserts_last_optional h₅
  exact Payload.displays_of_inserts (.ofValue
    (key, id, expiration, fields, condition, none, ())) inserts

theorem exists_displays {insert : Binary64 → shape.Value} (h : shape.Inserts .number path insert) :
    ∃ clause, NumberClause.ofPath? path = some clause ∧
      Displays clause fun x => ofValue (insert x) := by
  obtain ⟨_, search, rfl, inserts, rfl⟩ | ⟨_, h₁, rfl⟩ := h
  · exact displays_search inserts
  obtain ⟨_, fence, rfl, inserts, rfl⟩ | ⟨_, h₂, rfl⟩ := h₁
  · exact displays_geofence inserts
  obtain ⟨_, write, rfl, inserts, rfl⟩ | ⟨_, others, -⟩ := h₂
  · exact displays_set inserts
  · cases Variants.holds_of_inserts _ others

/-- The hole is a place where a description has a number of a clause, and this is the path to it. -/
def NumberAt (path : Path) (place : Context Tree) : Prop :=
  ∃ place', place.Denotes place' ∧ shape.Takes .number path place'

section

variable {place : Context Tree} {n₀ : Numeral} {text₀ : String} {q₀ : Query}

theorem exists_displays_of_ofJsonText (numeric : NumberAt path place)
    (accepted : ofJsonText text₀ = .ok q₀)
    (spelled₀ : (place.fill .array .object (.number n₀)).SpellsWhole text₀) :
    ∃ clause, NumberClause.ofPath? path = some clause ∧ ∃ queries : Binary64 → Query,
      Displays clause queries ∧ (∃ x, queries x = q₀) ∧
        ∀ {n : Numeral} {text : String} {number : Number},
          (place.fill .array .object (.number n)).SpellsWhole text → n.value? = some number →
            ofJsonText text = .ok (queries number.toBinary64) := by
  obtain ⟨place', denotes, takes⟩ := numeric
  obtain ⟨j, read, value, described, rfl⟩ := ofJsonText_eq_ok_iff_describes.1 accepted
  obtain ⟨within, number₀, inRange₀, rfl⟩ := (denotes.readWhole_iff spelled₀).1 read
  obtain ⟨insert, inserts, ⟨x, -, rfl⟩, each⟩ := shape.exists_inserts takes described
  obtain ⟨clause, known, displays⟩ := exists_displays inserts
  refine ⟨clause, known, fun x => ofValue (insert x), displays, ⟨x, rfl⟩,
    fun {n text number} spelled inRange => ?_⟩
  have read' := (denotes.readWhole_iff spelled).2 ⟨within, number, inRange, rfl⟩
  exact ofJsonText_eq_ok_iff_describes.2 ⟨_, read', _, each number _ rfl, rfl⟩

/-- Every ordinary decimal at the place of a number in an accepted description is accepted there. The
query holds its number for the clause of the place, and the number has the canonical numeral of the
decimal as its token. This token stands in the command behind the word of the clause, with all other
tokens the same, unless another clause hides the number; the command is then the same for all of
them. -/
theorem ordinary_displayed (numeric : NumberAt path place) (accepted : ofJsonText text₀ = .ok q₀)
    (spelled₀ : (place.fill .array .object (.number n₀)).SpellsWhole text₀) :
    ∃ clause, NumberClause.ofPath? path = some clause ∧ ∃ before between back : List String,
      between.length = clause.offset ∧ ∀ (n : Numeral) (text : String), n.Ordinary →
        (place.fill .array .object (.number n)).SpellsWhole text →
          ∃ (q : Query) (c : Command) (x : Binary64) (m : Numeral),
            ofJsonText text = .ok q ∧ q.compile = .ok c ∧ q.number? clause = some x ∧
              m.IsCanonicalOf n ∧ formatNumber clause.word x = .ok (String.ofList m.text) ∧
                if q₀.hides clause then q₀.compile = .ok c
                else c.tokens = before ++ clause.word :: (between ++ String.ofList m.text :: back) := by
  obtain ⟨clause, known, queries, displays, ⟨x₀, rfl⟩, read⟩ :=
    exists_displays_of_ofJsonText numeric accepted spelled₀
  obtain ⟨c₀, compiled₀⟩ := compile_of_ofJsonText accepted
  refine ⟨clause, known, ?_⟩
  cases displays with
  | shown held visible stands =>
      obtain ⟨before, between, back, long, same⟩ := stands.exists_tokens
      refine ⟨before, between, back, long, fun n text ordinary spelled => ?_⟩
      obtain ⟨number, x, inRange, finite, m, canonical, value, token⟩ := ordinary.exists_token
      have accepted := read spelled inRange
      obtain ⟨c, compiled⟩ := compile_of_ofJsonText accepted
      refine ⟨_, c, _, m, accepted, compiled, held _, canonical.isCanonicalOf value, ?_, ?_⟩
      · rw [finite, formatNumber, token]
      · rw [visible, if_neg Bool.false_ne_true, tokens_of_compile compiled, same, finite, ← token]
        rfl
  | hidden held covered same =>
      have long : (List.replicate clause.offset "").length = clause.offset := List.length_replicate
      refine ⟨[], List.replicate clause.offset "", [], long, fun n text ordinary spelled => ?_⟩
      obtain ⟨number, x, inRange, finite, m, canonical, value, token⟩ := ordinary.exists_token
      have accepted := read spelled inRange
      obtain ⟨c, compiled⟩ := compile_of_ofJsonText accepted
      refine ⟨_, c, _, m, accepted, compiled, held _, canonical.isCanonicalOf value, ?_, ?_⟩
      · rw [finite, formatNumber, token]
      · rw [covered, if_pos rfl, ← compile_eq_of_words_eq (same _ _)]
        exact compiled

end

def fieldText : String :=
  "\x7b\"set\":\x7b\"key\":\"k\",\"id\":\"i\",\"fields\":[\x7b\"name\":\"f\",\"value\":2e-1\x7d]\x7d\x7d"

def fieldPlace : Context Tree :=
  .member [] "set" (.member [("key", .text "k"), ("id", .text "i")] "fields"
    (.item [] (.member [("name", .text "f")] "value" .hole []) []) []) []

def fifth : Numeral := ⟨false, ['2'], [], some ⟨true, ['1']⟩⟩

def fieldPath : Path := [.name "set", .name "fields", .index 0, .name "value"]

theorem numberAt_fieldPlace : NumberAt fieldPath fieldPlace := by
  have same (name s : String) : Tree.MemberValue (name, .text s) (name, .leaf (.text s)) :=
    ⟨rfl, rfl⟩
  have value : FieldValue.shape.Takes .number [.name "value"]
      (.member [("name", .leaf (.text "f"))] "value" .hole []) :=
    .inr ⟨_, "value", _, _, rfl, .inr ⟨by decide, .inl ⟨rfl, [], rfl, rfl, rfl, rfl⟩⟩⟩
  have fields : WriteQuery.shape.Takes .number [.name "fields", .index 0, .name "value"]
      (.member [("key", .leaf (.text "k")), ("id", .leaf (.text "i"))] "fields"
        (.item [] (.member [("name", .leaf (.text "f"))] "value" .hole []) []) []) :=
    .inr ⟨_, "fields", _, _, rfl, .inr ⟨by decide, .inr ⟨by decide, .inr ⟨by decide,
      .inl ⟨rfl, _, rfl, _, _, _, _, rfl, rfl, value⟩⟩⟩⟩⟩
  have denotes : fieldPlace.Denotes (.member [] "set" (.member [("key", .leaf (.text "k")),
      ("id", .leaf (.text "i"))] "fields" (.item [] (.member [("name", .leaf (.text "f"))] "value"
        .hole []) []) []) []) := by
    apply Context.Denotes.member .nil _ .nil
    apply Context.Denotes.member (.cons (same "key" "k") (.cons (same "id" "i") .nil)) _ .nil
    apply Context.Denotes.item .nil _ .nil
    exact .member (.cons (same "name" "f") .nil) .hole .nil
  refine ⟨_, denotes, ?_⟩
  exact ⟨"set", _, rfl, .inr ⟨by decide, .inr ⟨by decide, .inl ⟨rfl, _, rfl, fields⟩⟩⟩⟩

theorem spellsWhole_fieldText :
    (fieldPlace.fill .array .object (.number fifth)).SpellsWhole fieldText := by
  have numeral : Tree.Spells (.number fifth) "2e-1".toList :=
    .positive rfl ⟨⟨by simp [fifth], .inr ⟨'2', [], rfl, by decide⟩, nofun, by simp [fifth]⟩,
      ['e', '-', '1'], rfl, 'e', ['-'], .inl rfl, .inl ⟨rfl, rfl⟩, rfl⟩
  have value : SpellsMembers false [("value", .number fifth)] _ :=
    spellsMembers_later (by simp) numeral spellsMembers_end
  have field : SpellsMembers true [("name", .text "f"), ("value", .number fifth)] _ :=
    spellsMembers_first (by simp) (spells_text_of_plain (by simp)) value
  have list : SpellsItems true [.object [("name", .text "f"), ("value", .number fifth)]] _ :=
    .item leads_first (.object field) (.closing allBlank_nil)
  have fields : SpellsMembers false [("fields", .array _)] _ :=
    spellsMembers_later (by simp) (.array list) spellsMembers_end
  have id : SpellsMembers false [("id", .text "i"), ("fields", .array _)] _ :=
    spellsMembers_later (by simp) (spells_text_of_plain (by simp)) fields
  have write : SpellsMembers true [("key", .text "k"), ("id", .text "i"), ("fields", .array _)] _ :=
    spellsMembers_first (by simp) (spells_text_of_plain (by simp)) id
  have whole : SpellsMembers true [("set", .object _)] _ :=
    spellsMembers_first (by simp) (.object write) spellsMembers_end
  refine ⟨[], _, [], allBlank_nil, .object whole, allBlank_nil, ?_⟩
  decide +kernel

theorem ordinary_fifth : fifth.Ordinary := by
  refine ⟨by decide, by decide, ?_⟩
  rw [Numeral.abs_value, show fifth.exact = ⟨2, -1⟩ by decide, Decimal.value]
  norm_num

/-- A field with the value `2e-1` has the token 0.2. -/
theorem ordinary_displayed_field :
    NumberAt fieldPath fieldPlace ∧
      (fieldPlace.fill .array .object (.number fifth)).SpellsWhole fieldText ∧ fifth.Ordinary ∧
      NumberClause.ofPath? fieldPath = some (.field 0) ∧
      ∃ (before between back : List String) (q : Query) (c : Command) (x : Binary64) (m : Numeral),
        between.length = 1 ∧ ofJsonText fieldText = .ok q ∧ q.compile = .ok c ∧
          q.number? (.field 0) = some x ∧ m.IsCanonicalOf fifth ∧
            formatNumber "FIELD" x = .ok (String.ofList m.text) ∧
              c.tokens = before ++ "FIELD" :: (between ++ String.ofList m.text :: back) := by
  refine ⟨numberAt_fieldPlace, spellsWhole_fieldText, ordinary_fifth, rfl, ?_⟩
  have read : (ofJsonText fieldText).toOption.map (fun q => q.hides (.field 0)) = some false := by
    decide +kernel
  cases accepted : ofJsonText fieldText with
  | error e =>
      rw [accepted] at read
      cases read
  | ok q₀ =>
      rw [accepted] at read
      have visible : q₀.hides (.field 0) = false := Option.some.inj read
      obtain ⟨clause, known, before, between, back, long, each⟩ :=
        ordinary_displayed numberAt_fieldPlace accepted spellsWhole_fieldText
      obtain rfl : NumberClause.field 0 = clause := Option.some.inj known
      obtain ⟨q, c, x, m, same, compiled, held, canonical, token, shown⟩ :=
        each fifth fieldText ordinary_fifth spellsWhole_fieldText
      rw [visible, if_neg Bool.false_ne_true] at shown
      exact ⟨before, between, back, q, c, x, m, long, accepted ▸ same, compiled, held, canonical,
        token, shown⟩

end Query

end GeoQuery
