import GeoQuery.Proofs.Argument
import GeoQuery.Proofs.Query.Calls
import Mathlib.Data.List.Infix

/-!
What a sequence of calls records. A call overwrites something exactly if its slot is occupied at that
moment, which the start and the calls before it decide: a slot or a flag is occupied as soon as it was
addressed, and a set of events or writes while it has members.
-/

namespace GeoQuery

/-- A family of queries: what a call does, what it records, and what is compiled in the end. -/
structure Family (Query Call : Type) where
  add : Query → Call → Query
  event? : Query → Call → Option Event
  compilation : Query → Compilation

namespace Family

variable {Query Call : Type}

def recorded (family : Family Query Call) : Query → List Call → List Event
  | _, [] => []
  | q, c :: calls => (family.event? q c).toList ++ family.recorded (family.add q c) calls

def session (family : Family Query Call) (q : Query) (calls : List Call) : List Event :=
  family.recorded q calls ++ (family.compilation (calls.foldl family.add q)).events

end Family

section Overwrites

variable {Query Call : Type}

/-- The overwrites among calls: one for each call whose slot is occupied behind the calls before it.
Calls that have no clause name only append. -/
def overwrites (occupied : List Call → Call → Bool) (clause? : Call → Option String)
    (calls : List Call) : List Event :=
  (calls.zip calls.inits).filterMap fun (c, before) =>
    if occupied before c then (clause? c).map .overwritten else none

theorem overwrites_cons (occupied : List Call → Call → Bool) (clause? : Call → Option String)
    (c : Call) (calls : List Call) :
    overwrites occupied clause? (c :: calls) =
      (if occupied [] c then (clause? c).map Event.overwritten else none).toList ++
        overwrites (fun before => occupied (c :: before)) clause? calls := by
  rw [overwrites, List.inits_cons, List.zip_cons_cons, List.filterMap_cons, List.zip_map_right,
    List.filterMap_map]
  dsimp only
  cases (if occupied [] c then (clause? c).map Event.overwritten else none) <;> rfl

/-- A compilation records itself with its number of arguments if it succeeds. -/
theorem Compilation.events_eq (name : String) (arguments : List Argument) :
    (ofArguments name arguments).events =
      ((ofArguments name arguments).result.toOption.map fun c =>
        .compiled c.name c.args.length).toList := by
  rw [events_ofArguments]
  cases (ofArguments name arguments).result <;> rfl

section

variable {family : Family Query Call} {occupied : Query → List Call → Call → Bool}
  {clause? : Call → Option String}

/-- The calls record their overwrites if a call is recorded by what its slot holds, and a call in front
of others makes its slot occupied for them. -/
theorem Family.recorded_eq
    (now : ∀ q c, family.event? q c =
      if occupied q [] c then (clause? c).map .overwritten else none)
    (behind : ∀ q c before d, occupied q (c :: before) d = occupied (family.add q c) before d)
    (q : Query) (calls : List Call) :
    family.recorded q calls = overwrites (occupied q) clause? calls := by
  induction calls generalizing q with
  | nil => rfl
  | cons c calls ih =>
      have later : (fun before => occupied q (c :: before)) = occupied (family.add q c) :=
        funext fun before => funext fun d => behind q c before d
      rw [recorded, ih, overwrites_cons, now, later]

theorem Family.session_eq
    (now : ∀ q c, family.event? q c =
      if occupied q [] c then (clause? c).map .overwritten else none)
    (behind : ∀ q c before d, occupied q (c :: before) d = occupied (family.add q c) before d)
    (compilation : ∀ q, ∃ name arguments, family.compilation q = .ofArguments name arguments)
    (q : Query) (calls : List Call) :
    family.session q calls = overwrites (occupied q) clause? calls ++
      ((family.compilation (calls.foldl family.add q)).result.toOption.map fun c =>
        .compiled c.name c.args.length).toList := by
  obtain ⟨name, arguments, compiled⟩ := compilation (calls.foldl family.add q)
  rw [session, recorded_eq now behind, compiled, Compilation.events_eq]

end

end Overwrites

namespace SearchSlot

def clause? : SearchSlot → Option String
  | .ranges | .memberships => none
  | .pattern => some "MATCH"
  | .cursor => some "CURSOR"
  | .limit => some "LIMIT"
  | .noFields => some "NOFIELDS"
  | .format => some "format"
  | .area => some "area"

end SearchSlot

namespace SearchQuery

def family : Family SearchQuery SearchClause := ⟨add, event?, compilation⟩

def holds (q : SearchQuery) : SearchSlot → Bool
  | .ranges => !q.filters.ranges.isEmpty
  | .memberships => !q.filters.memberships.isEmpty
  | .pattern => q.filters.pattern.isSome
  | .cursor => q.cursor.isSome
  | .limit => q.limit.isSome
  | .noFields => q.noFields
  | .format => q.format.isSome
  | .area => q.area.isSome

/-- Whether the slot of a call is occupied: it was set at the start, or a call before addressed it. -/
def occupied (q : SearchQuery) (before : List SearchClause) (c : SearchClause) : Bool :=
  q.holds c.slot || before.any (·.slot = c.slot)

theorem holds_add (q : SearchQuery) (c : SearchClause) (s : SearchSlot) :
    (q.add c).holds s = (q.holds s || c.slot = s) := by
  cases c <;> cases s <;> simp [holds, add, setArea, Filters.addRange, Filters.addMembership,
    Filters.setPattern, SearchClause.slot]

theorem event?_eq (q : SearchQuery) (c : SearchClause) :
    q.event? c = if q.occupied [] c then c.slot.clause?.map .overwritten else none := by
  cases c <;> simp [event?, occupied, holds, SearchClause.slot, SearchSlot.clause?,
    Event.overwriteIf]

theorem occupied_cons (q : SearchQuery) (c : SearchClause) (before : List SearchClause)
    (d : SearchClause) : q.occupied (c :: before) d = (q.add c).occupied before d := by
  rw [occupied, occupied, holds_add, List.any_cons, Bool.or_assoc]

end SearchQuery

namespace Selection

variable {α : Type} {s : Selection α}

def HasMember (s : Selection α) : Prop := ∃ a, s.contains a = true

theorem hasMember_iff [Enumerated α] : s.HasMember ↔ s.isEmpty = false := by
  rw [isEmpty, toList, List.isEmpty_eq_false_iff_exists_mem]
  simp only [List.mem_filter, Enumerated.mem_all, true_and]
  rfl

instance [Enumerated α] : DecidablePred (HasMember (α := α)) := fun _ =>
  decidable_of_iff _ hasMember_iff.symm

end Selection

namespace FenceSlot

def clause? : FenceSlot → Option String
  | .ranges | .memberships => none
  | .pattern => some "MATCH"
  | .cursor => some "CURSOR"
  | .format => some "format"
  | .clip => some "CLIP"
  | .distance => some "DISTANCE"
  | .events => some "DETECT"
  | .writes => some "COMMANDS"

end FenceSlot

namespace FenceQuery

def family : Family FenceQuery FenceClause := ⟨add, event?, compilation⟩

def holds (q : FenceQuery) : FenceSlot → Bool
  | .ranges => !q.filters.ranges.isEmpty
  | .memberships => !q.filters.memberships.isEmpty
  | .pattern => q.filters.pattern.isSome
  | .cursor => q.cursor.isSome
  | .format => q.format.isSome
  | .clip => q.clip
  | .distance => q.distance
  | .events => q.events.HasMember
  | .writes => q.writes.HasMember

/-- Whether the slot of a call is occupied. A set is, if the last call that replaced it left members
in it, or it had some at the start and was not replaced. -/
def occupied (q : FenceQuery) (before : List FenceClause) (c : FenceClause) : Bool :=
  match c.slot with
  | .events => ((lastGiven FenceClause.events? before).getD q.events).HasMember
  | .writes => ((lastGiven FenceClause.writes? before).getD q.writes).HasMember
  | s => q.holds s || before.any (·.slot = s)

theorem holds_add (q : FenceQuery) (c : FenceClause) {s : FenceSlot} (events : s ≠ .events)
    (writes : s ≠ .writes) : (q.add c).holds s = (q.holds s || c.slot = s) := by
  cases s with
  | events => exact absurd rfl events
  | writes => exact absurd rfl writes
  | _ => cases c <;> simp [holds, add, Filters.addRange, Filters.addMembership,
      Filters.setPattern, FenceClause.slot]

theorem events_add (q : FenceQuery) (c : FenceClause) :
    (q.add c).events = c.events?.getD q.events := by
  cases c with
  | events members => exact Selection.ofList_eq members
  | _ => rfl

theorem writes_add (q : FenceQuery) (c : FenceClause) :
    (q.add c).writes = c.writes?.getD q.writes := by
  cases c with
  | writes members => exact Selection.ofList_eq members
  | _ => rfl

theorem event?_eq (q : FenceQuery) (c : FenceClause) :
    q.event? c = if q.occupied [] c then c.slot.clause?.map .overwritten else none := by
  cases c <;> simp [event?, occupied, holds, FenceClause.slot, FenceSlot.clause?,
    Event.overwriteIf, Selection.hasMember_iff]

theorem occupied_cons (q : FenceQuery) (c : FenceClause) (before : List FenceClause)
    (d : FenceClause) : q.occupied (c :: before) d = (q.add c).occupied before d := by
  have slot (s : FenceSlot) (events : s ≠ .events) (writes : s ≠ .writes) :
      (q.holds s || (c :: before).any (·.slot = s)) =
        ((q.add c).holds s || before.any (·.slot = s)) := by
    rw [q.holds_add c events writes, List.any_cons, Bool.or_assoc]
  cases d with
  | events members =>
      simp only [occupied, FenceClause.slot, lastGiven_cons, events_add, Option.getD_or]
  | writes members =>
      simp only [occupied, FenceClause.slot, lastGiven_cons, writes_add, Option.getD_or]
  | _ => exact slot _ (by simp [FenceClause.slot]) (by simp [FenceClause.slot])

end FenceQuery

namespace WriteClause

/-- The clause that an overwrite by the call is recorded by. Both conditions have one slot, and the new
one is named. -/
def clause? : WriteClause → Option String
  | .field .. => none
  | .expiration _ => some "EX"
  | .condition .absent => some "NX"
  | .condition .present => some "XX"
  | .point .. | .pointZ .. | .bounds .. | .hash _ | .object _ | .string _ | .payload _ =>
    some "payload"

end WriteClause

namespace WriteQuery

def family : Family WriteQuery WriteClause := ⟨add, event?, compilation⟩

def holds (q : WriteQuery) : WriteSlot → Bool
  | .expiration => q.expiration.isSome
  | .fields => !q.fields.isEmpty
  | .condition => q.condition.isSome
  | .payload => q.payload.isSome

def occupied (q : WriteQuery) (before : List WriteClause) (c : WriteClause) : Bool :=
  q.holds c.slot || before.any (·.slot = c.slot)

theorem holds_add (q : WriteQuery) (c : WriteClause) (s : WriteSlot) :
    (q.add c).holds s = (q.holds s || c.slot = s) := by
  cases c <;> cases s <;> simp [holds, add, setPayload, WriteClause.slot]

theorem event?_eq (q : WriteQuery) (c : WriteClause) :
    q.event? c = if q.occupied [] c then c.clause?.map .overwritten else none := by
  cases c with
  | condition condition =>
      cases condition <;> simp [event?, occupied, holds, WriteClause.slot, WriteClause.clause?,
        Event.overwriteIf, Condition.token]
  | _ => simp [event?, occupied, holds, WriteClause.slot, WriteClause.clause?, Event.overwriteIf]

theorem occupied_cons (q : WriteQuery) (c : WriteClause) (before : List WriteClause)
    (d : WriteClause) : q.occupied (c :: before) d = (q.add c).occupied before d := by
  rw [occupied, occupied, holds_add, List.any_cons, Bool.or_assoc]

end WriteQuery

/-- Calls on a query record one overwrite for each call whose slot is occupied at that moment, in the
order of the calls, and nothing else. A compilation behind them records itself with the number of its
arguments if it succeeds, and nothing if it fails. -/
theorem session_records_overwrites :
    (∀ (q : SearchQuery) (calls : List SearchClause), SearchQuery.family.session q calls =
      overwrites q.occupied (fun c => c.slot.clause?) calls ++
        ((calls.foldl SearchQuery.add q).compile.toOption.map fun c =>
          .compiled c.name c.args.length).toList) ∧
    (∀ (q : FenceQuery) (calls : List FenceClause), FenceQuery.family.session q calls =
      overwrites q.occupied (fun c => c.slot.clause?) calls ++
        ((calls.foldl FenceQuery.add q).compile.toOption.map fun c =>
          .compiled c.name c.args.length).toList) ∧
    (∀ (q : WriteQuery) (calls : List WriteClause), WriteQuery.family.session q calls =
      overwrites q.occupied WriteClause.clause? calls ++
        ((calls.foldl WriteQuery.add q).compile.toOption.map fun c =>
          .compiled c.name c.args.length).toList) := by
  refine ⟨?search, ?fence, ?write⟩
  case search =>
    exact Family.session_eq SearchQuery.event?_eq SearchQuery.occupied_cons fun _ => ⟨_, _, rfl⟩
  case fence =>
    exact Family.session_eq FenceQuery.event?_eq FenceQuery.occupied_cons fun _ => ⟨_, _, rfl⟩
  case write =>
    exact Family.session_eq WriteQuery.event?_eq WriteQuery.occupied_cons fun _ => ⟨_, _, rfl⟩

-- Replacing an empty set is no overwrite, replacing by an empty set is one.
example : FenceQuery.family.recorded ⟨.within "fleet", false, false, {}, none, .empty, .empty, none⟩
    [.events [], .clip, .events [.exit], .events [], .clip, .events [.enter]] =
      [.overwritten "DETECT", .overwritten "CLIP"] := by decide

end GeoQuery
