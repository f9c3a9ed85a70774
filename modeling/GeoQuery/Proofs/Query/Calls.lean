import GeoQuery.Fence
import GeoQuery.Search
import GeoQuery.Write
import Mathlib.Data.List.Forall2

/-!
Sequences of calls on a query under construction. What a sequence gives is one value for each slot,
the last one, and one list for each clause that can be repeated; a query after the calls depends on
nothing else of them. So calls to different slots can be exchanged.
-/

namespace GeoQuery

/-- The last value that calls give to a slot. -/
def lastGiven {Call α : Type} (given : Call → Option α) (calls : List Call) : Option α :=
  (calls.filterMap given).getLast?

@[simp] theorem lastGiven_nil {Call α : Type} (given : Call → Option α) :
    lastGiven given [] = none := rfl

@[simp] theorem lastGiven_cons {Call α : Type} (given : Call → Option α) (c : Call)
    (calls : List Call) : lastGiven given (c :: calls) = (lastGiven given calls).or (given c) := by
  cases hc : given c with
  | none => simp [lastGiven, hc]
  | some a =>
      cases hlast : (calls.filterMap given).getLast? <;>
        simp [lastGiven, hc, List.getLast?_cons, hlast]

/-- Filling in at the end what all calls gave is adding them one by one, if it is so for the first. -/
theorem foldl_eq_filled {Query Call Given : Type} {add : Query → Call → Query}
    {given : List Call → Given} {filled : Query → Given → Query}
    (none : ∀ q, filled q (given []) = q)
    (first : ∀ q c calls, filled q (given (c :: calls)) = filled (add q c) (given calls))
    (q : Query) (calls : List Call) : calls.foldl add q = filled q (given calls) := by
  induction calls generalizing q with
  | nil => exact (none q).symm
  | cons c calls ih => rw [List.foldl_cons, ih, first]

/-- Two sequences with the same calls to each slot in the same order. -/
def SameBySlot {Call Slot : Type} [DecidableEq Slot] (slot : Call → Slot)
    (calls others : List Call) : Prop :=
  ∀ s, calls.filter (slot · = s) = others.filter (slot · = s)

section SameBySlot

variable {Call Slot α : Type} [DecidableEq Slot] {slot : Call → Slot} {calls others : List Call}

theorem SameBySlot.filterMap_eq (same : SameBySlot slot calls others) {s : Slot}
    {given : Call → Option α} (own : ∀ c, (given c).isSome → slot c = s) :
    calls.filterMap given = others.filterMap given := by
  have kept (l : List Call) : l.filterMap given = (l.filter (slot · = s)).filterMap given := by
    rw [List.filterMap_filter]
    refine congrArg (fun f => l.filterMap f) (funext fun c => ?_)
    by_cases h : slot c = s
    · simp [h]
    · have silent : given c = none := by
        rw [← Option.not_isSome_iff_eq_none]
        exact fun some => h (own c some)
      simp [h, silent]
  rw [kept, kept others, same s]

theorem SameBySlot.lastGiven_eq (same : SameBySlot slot calls others) {s : Slot}
    {given : Call → Option α} (own : ∀ c, (given c).isSome → slot c = s) :
    lastGiven given calls = lastGiven given others := by
  rw [lastGiven, lastGiven, same.filterMap_eq own]

theorem SameBySlot.any_eq (same : SameBySlot slot calls others) {s : Slot} {raises : Call → Bool}
    (own : ∀ c, raises c → slot c = s) : calls.any raises = others.any raises := by
  have kept (l : List Call) : l.any raises = (l.filter (slot · = s)).any raises := by
    rw [List.any_filter]
    refine congrArg (fun f => l.any f) (funext fun c => ?_)
    by_cases h : slot c = s
    · simp [h]
    · have silent : raises c = false := Bool.eq_false_iff.2 fun up => h (own c up)
      simp [h, silent]
  rw [kept, kept others, same s]

end SameBySlot

/-- A slot of a search, or a list that calls append to. -/
inductive SearchSlot
  | ranges
  | memberships
  | pattern
  | cursor
  | limit
  | noFields
  | format
  | area
deriving DecidableEq

/-- What a sequence of calls gives to a search. -/
structure SearchCalls where
  ranges : List RangeFilter
  memberships : List MembershipFilter
  pattern : Option String
  cursor : Option UInt64
  limit : Option UInt64
  noFields : Bool
  format : Option OutputFormat
  area : Option Area

namespace SearchClause

def slot : SearchClause → SearchSlot
  | .whereRange .. => .ranges
  | .whereIn .. => .memberships
  | .matching _ => .pattern
  | .cursor _ => .cursor
  | .limit _ => .limit
  | .noFields => .noFields
  | .format _ => .format
  | .tile .. | .bounds .. | .circle .. | .get .. | .hash _ | .quadkey _ | .object _ | .area _ => .area

def range? : SearchClause → Option RangeFilter
  | .whereRange field min max => some ⟨field, min, max⟩
  | _ => none

def membership? : SearchClause → Option MembershipFilter
  | .whereIn field values => some ⟨field, values⟩
  | _ => none

def pattern? : SearchClause → Option String
  | .matching pattern => some pattern
  | _ => none

def cursor? : SearchClause → Option UInt64
  | .cursor start => some start
  | _ => none

def limit? : SearchClause → Option UInt64
  | .limit count => some count
  | _ => none

def raisesNoFields : SearchClause → Bool
  | .noFields => true
  | _ => false

def format? : SearchClause → Option OutputFormat
  | .format f => some f
  | _ => none

def area? : SearchClause → Option Area
  | .tile x y z => some (.tile x y z)
  | .bounds minLat minLon maxLat maxLon => some (.bounds minLat minLon maxLat maxLon)
  | .circle lat lon meters => some (.circle lat lon meters)
  | .get key id => some (.get key id)
  | .hash geohash => some (.hash geohash)
  | .quadkey digits => some (.quadkey digits)
  | .object geometry => some (.object geometry)
  | .area a => some a
  | _ => none

/-- The appended entries in the order of the calls, and the last call to each slot. -/
def given (calls : List SearchClause) : SearchCalls where
  ranges := calls.filterMap range?
  memberships := calls.filterMap membership?
  pattern := lastGiven pattern? calls
  cursor := lastGiven cursor? calls
  limit := lastGiven limit? calls
  noFields := calls.any raisesNoFields
  format := lastGiven format? calls
  area := lastGiven area? calls

theorem given_eq_of_sameBySlot {calls others : List SearchClause}
    (same : SameBySlot slot calls others) : given calls = given others := by
  rw [given, given, SearchCalls.mk.injEq]
  refine ⟨same.filterMap_eq (s := .ranges) ?_, same.filterMap_eq (s := .memberships) ?_,
    same.lastGiven_eq (s := .pattern) ?_, same.lastGiven_eq (s := .cursor) ?_,
    same.lastGiven_eq (s := .limit) ?_, same.any_eq (s := .noFields) ?_,
    same.lastGiven_eq (s := .format) ?_, same.lastGiven_eq (s := .area) ?_⟩
  all_goals
    intro c
    cases c <;> simp [slot, range?, membership?, pattern?, cursor?, limit?, raisesNoFields, format?,
      area?]

end SearchClause

namespace SearchQuery

/-- The search whose slots hold what the calls gave, or else what they held before. -/
def filled (q : SearchQuery) (c : SearchCalls) : SearchQuery where
  predicate := q.predicate
  filters :=
    { ranges := q.filters.ranges ++ c.ranges
      memberships := q.filters.memberships ++ c.memberships
      pattern := c.pattern.or q.filters.pattern }
  cursor := c.cursor.or q.cursor
  limit := c.limit.or q.limit
  noFields := q.noFields || c.noFields
  format := c.format.or q.format
  area := c.area.or q.area

theorem filled_given_cons (q : SearchQuery) (c : SearchClause) (calls : List SearchClause) :
    q.filled (SearchClause.given (c :: calls)) = (q.add c).filled (SearchClause.given calls) := by
  cases c <;>
    simp [filled, SearchClause.given, add, setArea, Filters.addRange, Filters.addMembership,
      Filters.setPattern, List.filterMap_cons, SearchClause.range?, SearchClause.membership?,
      SearchClause.pattern?, SearchClause.cursor?, SearchClause.limit?,
      SearchClause.raisesNoFields, SearchClause.format?, SearchClause.area?]

theorem foldl_add (q : SearchQuery) (calls : List SearchClause) :
    calls.foldl add q = q.filled (SearchClause.given calls) := by
  have none (q : SearchQuery) : q.filled (SearchClause.given []) = q := by
    simp [filled, SearchClause.given]
  exact foldl_eq_filled none filled_given_cons q calls

end SearchQuery

namespace Selection

variable {α : Type} [BEq α] [LawfulBEq α] {members others : List α}

theorem ofList_eq (members : List α) : ofList members = ⟨fun a => a ∈ members⟩ := by
  apply ext
  intro a
  exact List.contains_eq_mem a members

theorem mem_eq_iff :
    (⟨fun a => a ∈ members⟩ : Selection α) = ⟨fun a => a ∈ others⟩ ↔
      ∀ a, a ∈ members ↔ a ∈ others := by
  simp only [mk.injEq, funext_iff, decide_eq_decide]

end Selection

inductive FenceSlot
  | ranges
  | memberships
  | pattern
  | cursor
  | format
  | clip
  | distance
  | events
  | writes
deriving DecidableEq

structure FenceCalls where
  clip : Bool
  distance : Bool
  ranges : List RangeFilter
  memberships : List MembershipFilter
  pattern : Option String
  cursor : Option UInt64
  events : Option (Selection FenceEvent)
  writes : Option (Selection FenceWrite)
  format : Option OutputFormat

namespace FenceClause

def slot : FenceClause → FenceSlot
  | .whereRange .. => .ranges
  | .whereIn .. => .memberships
  | .matching _ => .pattern
  | .cursor _ => .cursor
  | .format _ => .format
  | .clip => .clip
  | .distance => .distance
  | .events _ => .events
  | .writes _ => .writes

def raisesClip : FenceClause → Bool
  | .clip => true
  | _ => false

def raisesDistance : FenceClause → Bool
  | .distance => true
  | _ => false

def range? : FenceClause → Option RangeFilter
  | .whereRange field min max => some ⟨field, min, max⟩
  | _ => none

def membership? : FenceClause → Option MembershipFilter
  | .whereIn field values => some ⟨field, values⟩
  | _ => none

def pattern? : FenceClause → Option String
  | .matching pattern => some pattern
  | _ => none

def cursor? : FenceClause → Option UInt64
  | .cursor start => some start
  | _ => none

def events? : FenceClause → Option (Selection FenceEvent)
  | .events members => some ⟨fun e => e ∈ members⟩
  | _ => none

def writes? : FenceClause → Option (Selection FenceWrite)
  | .writes members => some ⟨fun w => w ∈ members⟩
  | _ => none

def format? : FenceClause → Option OutputFormat
  | .format f => some f
  | _ => none

def given (calls : List FenceClause) : FenceCalls where
  clip := calls.any raisesClip
  distance := calls.any raisesDistance
  ranges := calls.filterMap range?
  memberships := calls.filterMap membership?
  pattern := lastGiven pattern? calls
  cursor := lastGiven cursor? calls
  events := lastGiven events? calls
  writes := lastGiven writes? calls
  format := lastGiven format? calls

theorem given_eq_of_sameBySlot {calls others : List FenceClause}
    (same : SameBySlot slot calls others) : given calls = given others := by
  rw [given, given, FenceCalls.mk.injEq]
  refine ⟨same.any_eq (s := .clip) ?_, same.any_eq (s := .distance) ?_,
    same.filterMap_eq (s := .ranges) ?_, same.filterMap_eq (s := .memberships) ?_,
    same.lastGiven_eq (s := .pattern) ?_, same.lastGiven_eq (s := .cursor) ?_,
    same.lastGiven_eq (s := .events) ?_, same.lastGiven_eq (s := .writes) ?_,
    same.lastGiven_eq (s := .format) ?_⟩
  all_goals
    intro c
    cases c <;> simp [slot, raisesClip, raisesDistance, range?, membership?, pattern?, cursor?,
      events?, writes?, format?]

/-- Calls that are equal up to the order and the repetition of the events or writes they list. -/
inductive Alike : FenceClause → FenceClause → Prop
  | refl (c : FenceClause) : Alike c c
  | events {members others : List FenceEvent} (same : ∀ e, e ∈ members ↔ e ∈ others) :
      Alike (.events members) (.events others)
  | writes {members others : List FenceWrite} (same : ∀ w, w ∈ members ↔ w ∈ others) :
      Alike (.writes members) (.writes others)

theorem given_eq_of_alike {calls others : List FenceClause}
    (alike : List.Forall₂ Alike calls others) : given calls = given others := by
  induction alike with
  | nil => rfl
  | cons head tail ih =>
      simp only [given, FenceCalls.mk.injEq] at ih ⊢
      cases head with
      | refl c => simp [List.filterMap_cons, ih]
      | events same | writes same =>
          simp [List.filterMap_cons, range?, membership?, pattern?, cursor?, raisesClip,
            raisesDistance, events?, writes?, format?, Selection.mem_eq_iff.2 same, ih]

end FenceClause

namespace FenceQuery

def filled (q : FenceQuery) (c : FenceCalls) : FenceQuery where
  predicate := q.predicate
  clip := q.clip || c.clip
  distance := q.distance || c.distance
  filters :=
    { ranges := q.filters.ranges ++ c.ranges
      memberships := q.filters.memberships ++ c.memberships
      pattern := c.pattern.or q.filters.pattern }
  cursor := c.cursor.or q.cursor
  events := c.events.getD q.events
  writes := c.writes.getD q.writes
  format := c.format.or q.format

theorem filled_given_cons (q : FenceQuery) (c : FenceClause) (calls : List FenceClause) :
    q.filled (FenceClause.given (c :: calls)) = (q.add c).filled (FenceClause.given calls) := by
  cases c <;>
    simp [filled, FenceClause.given, add, Filters.addRange, Filters.addMembership,
      Filters.setPattern, List.filterMap_cons, FenceClause.range?, FenceClause.membership?,
      FenceClause.pattern?, FenceClause.cursor?, FenceClause.raisesClip,
      FenceClause.raisesDistance, FenceClause.events?, FenceClause.writes?, FenceClause.format?,
      Selection.ofList_eq]

theorem foldl_add (q : FenceQuery) (calls : List FenceClause) :
    calls.foldl add q = q.filled (FenceClause.given calls) := by
  have none (q : FenceQuery) : q.filled (FenceClause.given []) = q := by
    simp [filled, FenceClause.given]
  exact foldl_eq_filled none filled_given_cons q calls

end FenceQuery

inductive WriteSlot
  | expiration
  | fields
  | condition
  | payload
deriving DecidableEq

structure WriteCalls where
  expiration : Option UInt64
  fields : List FieldValue
  condition : Option Condition
  payload : Option Payload

namespace WriteClause

def slot : WriteClause → WriteSlot
  | .point .. | .pointZ .. | .bounds .. | .hash _ | .object _ | .string _ | .payload _ => .payload
  | .field .. => .fields
  | .expiration _ => .expiration
  | .condition _ => .condition

def expiration? : WriteClause → Option UInt64
  | .expiration seconds => some seconds
  | _ => none

def field? : WriteClause → Option FieldValue
  | .field name value => some ⟨name, value⟩
  | _ => none

def condition? : WriteClause → Option Condition
  | .condition c => some c
  | _ => none

def payload? : WriteClause → Option Payload
  | .point lat lon => some (.point lat lon none)
  | .pointZ lat lon z => some (.point lat lon (some z))
  | .bounds minLat minLon maxLat maxLon => some (.bounds minLat minLon maxLat maxLon)
  | .hash geohash => some (.hash geohash)
  | .object geometry => some (.object geometry)
  | .string value => some (.string value)
  | .payload p => some p
  | _ => none

def given (calls : List WriteClause) : WriteCalls where
  expiration := lastGiven expiration? calls
  fields := calls.filterMap field?
  condition := lastGiven condition? calls
  payload := lastGiven payload? calls

theorem given_eq_of_sameBySlot {calls others : List WriteClause}
    (same : SameBySlot slot calls others) : given calls = given others := by
  rw [given, given, WriteCalls.mk.injEq]
  refine ⟨same.lastGiven_eq (s := .expiration) ?_, same.filterMap_eq (s := .fields) ?_,
    same.lastGiven_eq (s := .condition) ?_, same.lastGiven_eq (s := .payload) ?_⟩
  all_goals
    intro c
    cases c <;> simp [slot, expiration?, field?, condition?, payload?]

end WriteClause

namespace WriteQuery

def filled (q : WriteQuery) (c : WriteCalls) : WriteQuery where
  key := q.key
  id := q.id
  expiration := c.expiration.or q.expiration
  fields := q.fields ++ c.fields
  condition := c.condition.or q.condition
  payload := c.payload.or q.payload

theorem filled_given_cons (q : WriteQuery) (c : WriteClause) (calls : List WriteClause) :
    q.filled (WriteClause.given (c :: calls)) = (q.add c).filled (WriteClause.given calls) := by
  cases c <;>
    simp [filled, WriteClause.given, add, setPayload, List.filterMap_cons,
      WriteClause.expiration?, WriteClause.field?, WriteClause.condition?, WriteClause.payload?]

theorem foldl_add (q : WriteQuery) (calls : List WriteClause) :
    calls.foldl add q = q.filled (WriteClause.given calls) := by
  have none (q : WriteQuery) : q.filled (WriteClause.given []) = q := by
    simp [filled, WriteClause.given]
  exact foldl_eq_filled none filled_given_cons q calls

end WriteQuery

/-- After any calls every slot holds what the last call to it gave, or else what it held at the
start; flags stay up, and entries are appended in the order of the calls. So calls that give the same
lead to the same query: calls in another order, if those to one slot keep theirs, and calls that list
the same events or writes in another order or more than once. -/
theorem calls_decided_by_slot :
    (∀ (q : SearchQuery) (calls others : List SearchClause),
      calls.foldl SearchQuery.add q = q.filled (SearchClause.given calls) ∧
      (SearchClause.given calls = SearchClause.given others →
        calls.foldl SearchQuery.add q = others.foldl SearchQuery.add q) ∧
      (SameBySlot SearchClause.slot calls others →
        SearchClause.given calls = SearchClause.given others)) ∧
    (∀ (q : FenceQuery) (calls others : List FenceClause),
      calls.foldl FenceQuery.add q = q.filled (FenceClause.given calls) ∧
      (FenceClause.given calls = FenceClause.given others →
        calls.foldl FenceQuery.add q = others.foldl FenceQuery.add q) ∧
      (SameBySlot FenceClause.slot calls others →
        FenceClause.given calls = FenceClause.given others) ∧
      (List.Forall₂ FenceClause.Alike calls others →
        FenceClause.given calls = FenceClause.given others)) ∧
    (∀ (q : WriteQuery) (calls others : List WriteClause),
      calls.foldl WriteQuery.add q = q.filled (WriteClause.given calls) ∧
      (WriteClause.given calls = WriteClause.given others →
        calls.foldl WriteQuery.add q = others.foldl WriteQuery.add q) ∧
      (SameBySlot WriteClause.slot calls others →
        WriteClause.given calls = WriteClause.given others)) := by
  refine ⟨fun q calls others => ⟨q.foldl_add calls, fun same => ?_, ?_⟩,
    fun q calls others => ⟨q.foldl_add calls, fun same => ?_, ?_, ?_⟩,
    fun q calls others => ⟨q.foldl_add calls, fun same => ?_, ?_⟩⟩
  · rw [q.foldl_add, q.foldl_add, same]
  · exact SearchClause.given_eq_of_sameBySlot
  · rw [q.foldl_add, q.foldl_add, same]
  · exact FenceClause.given_eq_of_sameBySlot
  · exact FenceClause.given_eq_of_alike
  · rw [q.foldl_add, q.foldl_add, same]
  · exact WriteClause.given_eq_of_sameBySlot

end GeoQuery
