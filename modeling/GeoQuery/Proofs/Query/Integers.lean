import GeoQuery.Proofs.Query.Accepted
import GeoQuery.Proofs.Query.Layout
import GeoQuery.Proofs.Query.Spelled
import GeoQuery.Proofs.Shape.Integers
import GeoQuery.Proofs.Shape.Place

/-!
Integers from a description to its command. A clause that is an integer takes exactly the numbers that
are written as a row of digits and are in range, and the command has that very row behind the word of
the clause.
-/

namespace GeoQuery

open Json Outcome
open Argument (StandsBehind standsBehind_next)

/-- A clause that is an integer, or the part of a clause that is one. -/
inductive IntegerClause
  | cursor
  | limit
  | expiration
  | seconds
  | tileX
  | tileY
  | tileZ
  | precision
deriving DecidableEq

namespace IntegerClause

def kind : IntegerClause → Scalar
  | .cursor | .limit | .expiration | .seconds | .tileX | .tileY => .word64
  | .tileZ | .precision => .word32

def word : IntegerClause → String
  | .cursor => "CURSOR"
  | .limit => "LIMIT"
  | .expiration => "EX"
  | .seconds => "EXPIRE"
  | .tileX | .tileY | .tileZ => "TILE"
  | .precision => "HASHES"

/-- How many tokens stand between the word and the integer: the coordinates before it, or the key and
the id of an object. -/
def offset : IntegerClause → Nat
  | .cursor | .limit | .expiration | .tileX | .precision => 0
  | .tileY => 1
  | .tileZ | .seconds => 2

/-- The integer clause that has this path in a description. -/
def ofPath? : Path → Option IntegerClause
  | [.name "search", .name "cursor"] | [.name "geofence", .name "cursor"] => some .cursor
  | [.name "search", .name "limit"] => some .limit
  | [.name "search", .name "format", .name "hashes"]
  | [.name "geofence", .name "format", .name "hashes"] => some .precision
  | [.name "search", .name "area", .name "tile", .name "x"] => some .tileX
  | [.name "search", .name "area", .name "tile", .name "y"] => some .tileY
  | [.name "search", .name "area", .name "tile", .name "z"] => some .tileZ
  | [.name "set", .name "ex"] => some .expiration
  | [.name "key", .name "expire", .name "seconds"] => some .seconds
  | _ => none

end IntegerClause

def Area.integer? : Area → IntegerClause → Option Nat
  | .tile x _ _, .tileX => some x.toNat
  | .tile _ y _, .tileY => some y.toNat
  | .tile _ _ z, .tileZ => some z.toNat
  | _, _ => none

def OutputFormat.precision? : OutputFormat → Option Nat
  | .hashes precision => some precision.toNat
  | .count | .ids | .objects | .points | .bounds => none

namespace Query

def integer? : Query → IntegerClause → Option Nat
  | .search q, .cursor => q.cursor.map UInt64.toNat
  | .search q, .limit => q.limit.map UInt64.toNat
  | .search q, .precision => q.format.bind OutputFormat.precision?
  | .search q, clause => q.area.bind (·.integer? clause)
  | .geofence q, .cursor => q.cursor.map UInt64.toNat
  | .geofence q, .precision => q.format.bind OutputFormat.precision?
  | .set q, .expiration => q.expiration.map UInt64.toNat
  | .key (.expire _ _ seconds), .seconds => some seconds.toNat
  | _, _ => none

/-- Queries that differ in one integer. It is what they hold for the clause, and an argument of the
clause. -/
structure Carries (clause : IntegerClause) {α : Type} (toNat : α → Nat) (queries : α → Query) :
    Prop where
  held : ∀ x, (queries x).integer? clause = some (toNat x)
  stands : StandsBehind clause.word clause.offset (fun x => .nat (toNat x)) fun x =>
    (queries x).words

end Query

open Query (Carries)

variable {path : Path}

namespace SearchQuery

variable (q : SearchQuery)

theorem carries_cursor : Carries .cursor UInt64.toNat fun n => .search { q with cursor := some n } := by
  refine ⟨fun n => rfl, ?_⟩
  simp only [words_eq, options, Option.elim_some]
  apply StandsBehind.prepend
  apply StandsBehind.prepend
  apply StandsBehind.append
  apply StandsBehind.append
  apply StandsBehind.append
  apply StandsBehind.append
  exact standsBehind_next

theorem carries_limit : Carries .limit UInt64.toNat fun n => .search { q with limit := some n } := by
  refine ⟨fun n => rfl, ?_⟩
  simp only [words_eq, options, Option.elim_some]
  apply StandsBehind.prepend
  apply StandsBehind.prepend
  apply StandsBehind.append
  apply StandsBehind.append
  apply StandsBehind.append
  apply StandsBehind.prepend
  exact standsBehind_next

theorem carries_precision :
    Carries .precision UInt32.toNat fun n => .search { q with format := some (.hashes n) } := by
  refine ⟨fun n => rfl, ?_⟩
  simp only [words_eq, options, Option.elim_some]
  apply StandsBehind.prepend
  apply StandsBehind.prepend
  apply StandsBehind.append
  apply StandsBehind.prepend
  exact standsBehind_next

end SearchQuery

namespace FenceQuery

variable (q : FenceQuery)

theorem carries_cursor :
    Carries .cursor UInt64.toNat fun n => .geofence { q with cursor := some n } := by
  refine ⟨fun n => rfl, ?_⟩
  simp only [words_eq, flags, options, Option.elim_some]
  apply StandsBehind.prepend
  apply StandsBehind.prepend
  apply StandsBehind.append
  apply StandsBehind.append
  apply StandsBehind.append
  exact standsBehind_next

theorem carries_precision :
    Carries .precision UInt32.toNat fun n => .geofence { q with format := some (.hashes n) } := by
  refine ⟨fun n => rfl, ?_⟩
  simp only [words_eq, flags, options, Option.elim_some]
  apply StandsBehind.prepend
  apply StandsBehind.prepend
  apply StandsBehind.prepend
  apply StandsBehind.append
  exact standsBehind_next

end FenceQuery

theorem WriteQuery.carries_expiration (q : WriteQuery) :
    Carries .expiration UInt64.toNat fun n => .set { q with expiration := some n } := by
  refine ⟨fun n => rfl, ?_⟩
  simp only [words_eq, Option.elim_some]
  apply StandsBehind.prepend
  apply StandsBehind.append
  exact standsBehind_next

theorem KeyQuery.carries_seconds (key id : String) :
    Carries .seconds UInt64.toNat fun n => .key (.expire key id n) := by
  refine ⟨fun n => rfl, ?_⟩
  exact ⟨[], [.word key, .word id], [], rfl, fun n => rfl⟩

theorem OutputFormat.hashes_of_inserts {insert : UInt32 → shape.Value}
    (h : shape.Inserts .word32 path insert) :
    path = [.name "hashes"] ∧ ∀ n, ofValue (insert n) = .hashes n := by
  obtain ⟨_, h₁, rfl⟩ := h
  obtain ⟨_, h₂, rfl⟩ := h₁
  obtain ⟨_, h₃, rfl⟩ := h₂
  obtain ⟨_, h₄, rfl⟩ := h₃
  obtain ⟨_, h₅, rfl⟩ := h₄
  obtain ⟨_, _, rfl, ⟨rfl, _, rfl⟩, rfl⟩ | ⟨_, nothing, -⟩ := h₅
  · exact ⟨rfl, fun n => rfl⟩
  · cases nothing

namespace Area

variable (q : SearchQuery)

theorem carries_of_inserts64 {insert : UInt64 → shape.Value} (h : shape.Inserts .word64 path insert) :
    ∃ clause : IntegerClause,
      IntegerClause.ofPath? (.name "search" :: .name "area" :: path) = some clause ∧
        clause.kind = .word64 ∧
          Carries clause UInt64.toNat fun x => .search (q.setArea (ofValue (insert x))) := by
  obtain ⟨_, tile, rfl, h₁, rfl⟩ | ⟨_, others, -⟩ := h
  · obtain ⟨_, _, ⟨y, z, ⟨⟩⟩, rfl, ⟨rfl, _, rfl⟩, rfl⟩ | ⟨x, _, h₂, rfl⟩ := h₁
    · have stands : StandsBehind "TILE" 0 (fun n => .nat n.toNat) fun n => (tile n y z).arguments :=
        ⟨[], [], [.nat y.toNat, .nat z.toNat], rfl, fun _ => rfl⟩
      exact ⟨.tileX, rfl, rfl, fun _ => rfl, q.standsBehind_area stands⟩
    obtain ⟨_, _, ⟨z, ⟨⟩⟩, rfl, ⟨rfl, _, rfl⟩, rfl⟩ | ⟨y, _, others, -⟩ := h₂
    · have stands : StandsBehind "TILE" 1 (fun n => .nat n.toNat) fun n =>
          (Area.tile x n z).arguments :=
        ⟨[], [.nat x.toNat], [.nat z.toNat], rfl, fun _ => rfl⟩
      exact ⟨.tileY, rfl, rfl, fun _ => rfl, q.standsBehind_area stands⟩
    · cases Fields.holds_of_inserts _ others
  · cases Variants.holds_of_inserts _ others

theorem carries_of_inserts32 {insert : UInt32 → shape.Value} (h : shape.Inserts .word32 path insert) :
    IntegerClause.ofPath? (.name "search" :: .name "area" :: path) = some .tileZ ∧
      Carries .tileZ UInt32.toNat fun z => .search (q.setArea (ofValue (insert z))) := by
  obtain ⟨_, tile, rfl, h₁, rfl⟩ | ⟨_, others, -⟩ := h
  · obtain ⟨x, _, h₂, rfl⟩ := Fields.inserts_behind_required h₁ rfl
    obtain ⟨y, _, h₃, rfl⟩ := Fields.inserts_behind_required h₂ rfl
    obtain ⟨_, z, rfl, ⟨rfl, _, rfl⟩, rfl⟩ := Fields.inserts_last_required h₃
    have stands : StandsBehind "TILE" 2 (fun n => .nat n.toNat) fun n =>
        (Area.tile x y n).arguments :=
      ⟨[], [.nat x.toNat, .nat y.toNat], [], rfl, fun _ => rfl⟩
    exact ⟨rfl, fun _ => rfl, q.standsBehind_area stands⟩
  · cases Variants.holds_of_inserts _ others

end Area

namespace SearchQuery

theorem carries_of_inserts64 {insert : UInt64 → shape.Value} (h : shape.Inserts .word64 path insert) :
    ∃ clause : IntegerClause, IntegerClause.ofPath? (.name "search" :: path) = some clause ∧
      clause.kind = .word64 ∧ Carries clause UInt64.toNat fun x => .search (ofValue (insert x)) := by
  obtain ⟨predicate, _, h₁, rfl⟩ := Fields.inserts_behind_required h rfl
  obtain ⟨ranges, _, h₂, rfl⟩ := Fields.inserts_behind_optional h₁ rfl
  obtain ⟨memberships, _, h₃, rfl⟩ := Fields.inserts_behind_optional h₂ rfl
  obtain ⟨pattern, _, h₄, rfl⟩ := Fields.inserts_behind_optional h₃ rfl
  obtain ⟨_, _, values, rfl, ⟨_, ⟨rfl, _, rfl⟩, rfl⟩, rfl⟩ | ⟨cursor, _, h₅, rfl⟩ := h₄
  · exact ⟨.cursor, rfl, rfl,
      carries_cursor (ofValue (predicate, ranges, memberships, pattern, none, values))⟩
  obtain ⟨_, _, values, rfl, ⟨_, ⟨rfl, _, rfl⟩, rfl⟩, rfl⟩ | ⟨limit, _, h₆, rfl⟩ := h₅
  · exact ⟨.limit, rfl, rfl,
      carries_limit (ofValue (predicate, ranges, memberships, pattern, cursor, none, values))⟩
  obtain ⟨noFields, _, h₇, rfl⟩ := Fields.inserts_behind_optional h₆ rfl
  obtain ⟨format, _, h₈, rfl⟩ := Fields.inserts_behind_optional h₇ rfl
  obtain ⟨_, area, rfl, ⟨own, inserts, rfl⟩, rfl⟩ := Fields.inserts_last_optional h₈
  exact Area.carries_of_inserts64 (ofValue
    (predicate, ranges, memberships, pattern, cursor, limit, noFields, format, none, ())) inserts

theorem carries_of_inserts32 {insert : UInt32 → shape.Value} (h : shape.Inserts .word32 path insert) :
    ∃ clause : IntegerClause, IntegerClause.ofPath? (.name "search" :: path) = some clause ∧
      clause.kind = .word32 ∧ Carries clause UInt32.toNat fun x => .search (ofValue (insert x)) := by
  obtain ⟨predicate, _, h₁, rfl⟩ := Fields.inserts_behind_required h rfl
  obtain ⟨ranges, _, h₂, rfl⟩ := Fields.inserts_behind_optional h₁ rfl
  obtain ⟨memberships, _, h₃, rfl⟩ := Fields.inserts_behind_optional h₂ rfl
  obtain ⟨pattern, _, h₄, rfl⟩ := Fields.inserts_behind_optional h₃ rfl
  obtain ⟨cursor, _, h₅, rfl⟩ := Fields.inserts_behind_optional h₄ rfl
  obtain ⟨limit, _, h₆, rfl⟩ := Fields.inserts_behind_optional h₅ rfl
  obtain ⟨noFields, _, h₇, rfl⟩ := Fields.inserts_behind_optional h₆ rfl
  obtain ⟨_, _, values, rfl, ⟨own, inserts, rfl⟩, rfl⟩ | ⟨format, _, h₈, rfl⟩ := h₇
  · obtain ⟨rfl, hashes⟩ := OutputFormat.hashes_of_inserts inserts
    let q := ofValue
      (predicate, ranges, memberships, pattern, cursor, limit, noFields, none, values)
    have same (n : UInt32) : ofValue (predicate, ranges, memberships, pattern, cursor, limit,
        noFields, some (some (own n)), values) = { q with format := some (.hashes n) } :=
      congrArg (fun f => { q with format := some f : SearchQuery }) (hashes n)
    refine ⟨.precision, rfl, rfl, ?_⟩
    simp only [same]
    exact q.carries_precision
  obtain ⟨_, area, rfl, ⟨own, inserts, rfl⟩, rfl⟩ := Fields.inserts_last_optional h₈
  obtain ⟨known, carries⟩ := Area.carries_of_inserts32 (ofValue
    (predicate, ranges, memberships, pattern, cursor, limit, noFields, format, none, ())) inserts
  exact ⟨.tileZ, known, rfl, carries⟩

end SearchQuery

namespace FenceQuery

theorem carries_of_inserts64 {insert : UInt64 → shape.Value} (h : shape.Inserts .word64 path insert) :
    IntegerClause.ofPath? (.name "geofence" :: path) = some .cursor ∧
      Carries .cursor UInt64.toNat fun x => .geofence (ofValue (insert x)) := by
  obtain ⟨predicate, _, h₁, rfl⟩ := Fields.inserts_behind_required h rfl
  obtain ⟨clip, _, h₂, rfl⟩ := Fields.inserts_behind_optional h₁ rfl
  obtain ⟨distance, _, h₃, rfl⟩ := Fields.inserts_behind_optional h₂ rfl
  obtain ⟨ranges, _, h₄, rfl⟩ := Fields.inserts_behind_optional h₃ rfl
  obtain ⟨memberships, _, h₅, rfl⟩ := Fields.inserts_behind_optional h₄ rfl
  obtain ⟨pattern, _, h₆, rfl⟩ := Fields.inserts_behind_optional h₅ rfl
  obtain ⟨_, _, values, rfl, ⟨_, ⟨rfl, _, rfl⟩, rfl⟩, rfl⟩ | ⟨_, _, others, -⟩ := h₆
  · exact ⟨rfl, carries_cursor (ofValue
      (predicate, clip, distance, ranges, memberships, pattern, none, values))⟩
  · cases Fields.holds_of_inserts _ others

theorem carries_of_inserts32 {insert : UInt32 → shape.Value} (h : shape.Inserts .word32 path insert) :
    IntegerClause.ofPath? (.name "geofence" :: path) = some .precision ∧
      Carries .precision UInt32.toNat fun x => .geofence (ofValue (insert x)) := by
  obtain ⟨predicate, _, h₁, rfl⟩ := Fields.inserts_behind_required h rfl
  obtain ⟨clip, _, h₂, rfl⟩ := Fields.inserts_behind_optional h₁ rfl
  obtain ⟨distance, _, h₃, rfl⟩ := Fields.inserts_behind_optional h₂ rfl
  obtain ⟨ranges, _, h₄, rfl⟩ := Fields.inserts_behind_optional h₃ rfl
  obtain ⟨memberships, _, h₅, rfl⟩ := Fields.inserts_behind_optional h₄ rfl
  obtain ⟨pattern, _, h₆, rfl⟩ := Fields.inserts_behind_optional h₅ rfl
  obtain ⟨cursor, _, h₇, rfl⟩ := Fields.inserts_behind_optional h₆ rfl
  obtain ⟨events, _, h₈, rfl⟩ := Fields.inserts_behind_optional h₇ rfl
  obtain ⟨writes, _, h₉, rfl⟩ := Fields.inserts_behind_optional h₈ rfl
  obtain ⟨_, format, rfl, ⟨own, inserts, rfl⟩, rfl⟩ := Fields.inserts_last_optional h₉
  obtain ⟨rfl, hashes⟩ := OutputFormat.hashes_of_inserts inserts
  let q := ofValue (predicate, clip, distance, ranges, memberships, pattern, cursor, events,
    writes, none, ())
  have same (n : UInt32) : ofValue (predicate, clip, distance, ranges, memberships, pattern,
      cursor, events, writes, some (some (own n)), ()) = { q with format := some (.hashes n) } :=
    congrArg (fun f => { q with format := some f : FenceQuery }) (hashes n)
  have carries := q.carries_precision
  simp only [← same] at carries
  exact ⟨rfl, carries⟩

end FenceQuery

theorem WriteQuery.carries_of_inserts64 {insert : UInt64 → shape.Value}
    (h : shape.Inserts .word64 path insert) :
    IntegerClause.ofPath? (.name "set" :: path) = some .expiration ∧
      Carries .expiration UInt64.toNat fun x => .set (ofValue (insert x)) := by
  obtain ⟨key, _, h₁, rfl⟩ := Fields.inserts_behind_required h rfl
  obtain ⟨id, _, h₂, rfl⟩ := Fields.inserts_behind_required h₁ rfl
  obtain ⟨_, _, values, rfl, ⟨_, ⟨rfl, _, rfl⟩, rfl⟩, rfl⟩ | ⟨_, _, others, -⟩ := h₂
  · exact ⟨rfl, carries_expiration (ofValue (key, id, none, values))⟩
  · cases Fields.holds_of_inserts _ others

theorem KeyQuery.carries_of_inserts64 {insert : UInt64 → shape.Value}
    (h : shape.Inserts .word64 path insert) :
    IntegerClause.ofPath? (.name "key" :: path) = some .seconds ∧
      Carries .seconds UInt64.toNat fun x => .key (ofValue (insert x)) := by
  obtain ⟨_, get, -, others, -⟩ | ⟨_, h₁, rfl⟩ := h
  · cases Fields.holds_of_inserts _ others
  obtain ⟨_, del, -, others, -⟩ | ⟨_, h₂, rfl⟩ := h₁
  · cases Fields.holds_of_inserts _ others
  obtain ⟨_, drop, -, others, -⟩ | ⟨_, h₃, rfl⟩ := h₂
  · cases Fields.holds_of_inserts _ others
  obtain ⟨_, expire, rfl, h₄, rfl⟩ | ⟨_, others, -⟩ := h₃
  · obtain ⟨key, _, h₅, rfl⟩ := Fields.inserts_behind_required h₄ rfl
    obtain ⟨id, _, h₆, rfl⟩ := Fields.inserts_behind_required h₅ rfl
    obtain ⟨_, seconds, rfl, ⟨rfl, _, rfl⟩, rfl⟩ := Fields.inserts_last_required h₆
    exact ⟨rfl, carries_seconds key id⟩
  · cases Cases.holds_of_inserts _ others

namespace Query

theorem exists_carries {kind : Scalar} (integer : kind.IsInteger) {insert : kind.Value → shape.Value}
    (h : shape.Inserts kind path insert) :
    ∃ clause : IntegerClause, IntegerClause.ofPath? path = some clause ∧ clause.kind = kind ∧
      Carries clause kind.toNat fun x => ofValue (insert x) := by
  obtain rfl | rfl := integer
  · obtain ⟨_, search, rfl, inserts, rfl⟩ | ⟨_, h₁, rfl⟩ := h
    · exact SearchQuery.carries_of_inserts64 inserts
    obtain ⟨_, fence, rfl, inserts, rfl⟩ | ⟨_, h₂, rfl⟩ := h₁
    · obtain ⟨known, carries⟩ := FenceQuery.carries_of_inserts64 inserts
      exact ⟨.cursor, known, rfl, carries⟩
    obtain ⟨_, write, rfl, inserts, rfl⟩ | ⟨_, h₃, rfl⟩ := h₂
    · obtain ⟨known, carries⟩ := WriteQuery.carries_of_inserts64 inserts
      exact ⟨.expiration, known, rfl, carries⟩
    obtain ⟨_, key, rfl, inserts, rfl⟩ | ⟨_, nothing, -⟩ := h₃
    · obtain ⟨known, carries⟩ := KeyQuery.carries_of_inserts64 inserts
      exact ⟨.seconds, known, rfl, carries⟩
    · cases nothing
  · obtain ⟨_, search, rfl, inserts, rfl⟩ | ⟨_, h₁, rfl⟩ := h
    · exact SearchQuery.carries_of_inserts32 inserts
    obtain ⟨_, fence, rfl, inserts, rfl⟩ | ⟨_, others, -⟩ := h₁
    · obtain ⟨known, carries⟩ := FenceQuery.carries_of_inserts32 inserts
      exact ⟨.precision, known, rfl, carries⟩
    · cases Variants.holds_of_inserts _ others

/-- The hole is a place where a description has an integer of this kind, and this is the path to
it. -/
structure IntegerAt (kind : Scalar) (path : Path) (place : Context Tree) : Prop where
  integral : kind.IsInteger
  taken : ∃ place', place.Denotes place' ∧ shape.Takes kind path place'

section

variable {kind : Scalar} {place : Context Tree} {n₀ : Numeral} {text₀ : String} {q₀ : Query}

/-- A text with a numeral at such a place is read if an integer of the kind is taken from the numeral,
and the query depends on the numeral through that integer only. -/
theorem exists_carries_of_ofJsonText (integerAt : IntegerAt kind path place)
    (accepted : ofJsonText text₀ = .ok q₀)
    (spelled₀ : (place.fill .array .object (.number n₀)).SpellsWhole text₀) :
    ∃ clause : IntegerClause, IntegerClause.ofPath? path = some clause ∧ clause.kind = kind ∧
      ∃ queries : kind.Value → Query, Carries clause kind.toNat queries ∧
        ∀ {n : Numeral} {text : String},
          (place.fill .array .object (.number n)).SpellsWhole text → ∀ q, ofJsonText text = .ok q ↔
            ∃ x, (∃ number, n.value? = some number ∧
              kind.accept (.leaf (.number number)) = .ok x) ∧ queries x = q := by
  obtain ⟨integral, place', denotes, takes⟩ := integerAt
  obtain ⟨j, read, value, described, rfl⟩ := ofJsonText_eq_ok_iff_describes.1 accepted
  obtain ⟨within, number₀, inRange₀, rfl⟩ := (denotes.readWhole_iff spelled₀).1 read
  obtain ⟨insert, inserts, -, each⟩ := shape.exists_inserts takes described
  obtain ⟨clause, known, same, carries⟩ := exists_carries integral inserts
  refine ⟨clause, known, same, _, carries, fun {n text} spelled q => ?_⟩
  have read {number : Number} {x : kind.Value} (inRange : n.value? = some number)
      (own : kind.accept (.leaf (.number number)) = .ok x) :
      ofJsonText text = .ok (ofValue (insert x)) := by
    have read' := (denotes.readWhole_iff spelled).2 ⟨within, number, inRange, rfl⟩
    exact ofJsonText_eq_ok_iff_describes.2 ⟨_, read', _, each number x own, rfl⟩
  constructor
  · intro accepted'
    obtain ⟨j, read', value', described', -⟩ := ofJsonText_eq_ok_iff_describes.1 accepted'
    obtain ⟨-, number, inRange, rfl⟩ := (denotes.readWhole_iff spelled).1 read'
    -- what is described here tells which integer the new number is
    obtain ⟨_, -, ⟨x, own, -⟩, -⟩ := shape.exists_inserts takes described'
    have accepted := read inRange own
    rw [accepted'] at accepted
    exact ⟨x, ⟨number, inRange, own⟩, (Except.ok.inj accepted).symm⟩
  · intro taken
    obtain ⟨x, ⟨number, inRange, own⟩, rfl⟩ := taken
    exact read inRange own

/-- At the place of an integer, an accepted description may have exactly the numbers that are rows of
digits with a value below the limit of the kind. The query then holds this value for the clause of the
place, and the command has the row itself behind the word of the clause, with all other tokens the
same. -/
theorem ofJsonText_integer (integerAt : IntegerAt kind path place)
    (accepted : ofJsonText text₀ = .ok q₀)
    (spelled₀ : (place.fill .array .object (.number n₀)).SpellsWhole text₀) :
    ∃ clause : IntegerClause, IntegerClause.ofPath? path = some clause ∧ clause.kind = kind ∧
      ∃ before between back : List String, between.length = clause.offset ∧
        ∀ (n : Numeral) (token : List Char) (text : String), (Tree.number n).Spells token →
          (place.fill .array .object (.number n)).SpellsWhole text →
            ((∃ q, ofJsonText text = .ok q) ↔
              (∀ c ∈ token, c.isDigit) ∧ digitsValue token < kind.limit) ∧
            ∀ q, ofJsonText text = .ok q → q.integer? clause = some (digitsValue token) ∧
              ∃ c, q.compile = .ok c ∧
                c.tokens = before ++ clause.word :: (between ++ String.ofList token :: back) := by
  have integral := integerAt.integral
  obtain ⟨clause, known, same, queries, ⟨held, stands⟩, read⟩ :=
    exists_carries_of_ofJsonText integerAt accepted spelled₀
  obtain ⟨before, between, back, long, shown⟩ := stands.exists_tokens
  refine ⟨clause, known, same, before, between, back, long,
    fun n token text token' spelled => ⟨⟨?_, ?_⟩, ?_⟩⟩
  · intro accepted'
    obtain ⟨q, accepted'⟩ := accepted'
    obtain ⟨x, taken, -⟩ := (read spelled q).1 accepted'
    obtain ⟨digits, value⟩ := (Scalar.accept_numeral_iff integral).1 taken
    have row := token'.eq_whole digits
    refine ⟨row ▸ token'.isDigits_iff.1 digits, ?_⟩
    rw [row]
    exact (Scalar.exists_toNat_iff integral).1 ⟨x, value.symm⟩
  · intro row
    obtain ⟨each, fits⟩ := row
    have digits := token'.isDigits_iff.2 each
    rw [token'.eq_whole digits] at fits
    obtain ⟨x, value⟩ := (Scalar.exists_toNat_iff integral).2 fits
    have taken := (Scalar.accept_numeral_iff integral).2 ⟨digits, value.symm⟩
    exact ⟨queries x, (read spelled _).2 ⟨x, taken, rfl⟩⟩
  · intro q accepted'
    obtain ⟨c, compiled⟩ := compile_of_ofJsonText accepted'
    obtain ⟨x, taken, rfl⟩ := (read spelled q).1 accepted'
    obtain ⟨digits, value⟩ := (Scalar.accept_numeral_iff integral).1 taken
    have own : (Argument.nat (kind.toNat x)).token = String.ofList token := by
      rw [token'.eq_whole digits, ← Numeral.toString_digitsValue token'.wellFormed, value]
      rfl
    refine ⟨?_, c, compiled, ?_⟩
    · rw [held, token'.eq_whole digits, value]
    · rw [tokens_of_compile compiled, shown, own]

end

def longestText : String :=
  "\x7b\"key\":\x7b\"cmd\":\"expire\",\"key\":\"k\",\"id\":\"i\",\"seconds\":18446744073709551615\x7d\x7d"

def longestPlace : Context Tree :=
  .member [] "key" (.member [("cmd", .text "expire"), ("key", .text "k"), ("id", .text "i")] "seconds"
    .hole []) []

def longest : Numeral := ⟨false, "18446744073709551615".toList, [], none⟩

def longestPath : Path := [.name "key", .name "expire", .name "seconds"]

theorem integerAt_longestPlace : IntegerAt .word64 longestPath longestPlace := by
  have same (name s : String) : Tree.MemberValue (name, .text s) (name, .leaf (.text s)) :=
    ⟨rfl, rfl⟩
  have seconds : KeyQuery.shape.Takes .word64 [.name "expire", .name "seconds"]
      (.member [("cmd", .leaf (.text "expire")), ("key", .leaf (.text "k")),
        ("id", .leaf (.text "i"))] "seconds" .hole []) := by
    refine .inr ⟨"expire", _, "seconds", _, _, rfl, by decide, by simp, .inr ⟨by decide, ?_⟩⟩
    refine .inr ⟨by decide, .inr ⟨by decide, .inl ⟨rfl, _, rfl, ?_⟩⟩⟩
    exact .inr ⟨by decide, .inr ⟨by decide, .inl ⟨rfl, [], rfl, rfl, rfl, rfl⟩⟩⟩
  have denotes : longestPlace.Denotes (.member [] "key" (.member [("cmd", .leaf (.text "expire")),
      ("key", .leaf (.text "k")), ("id", .leaf (.text "i"))] "seconds" .hole []) []) := by
    apply Context.Denotes.member .nil _ .nil
    apply Context.Denotes.member _ .hole .nil
    exact .cons (same "cmd" "expire") (.cons (same "key" "k") (.cons (same "id" "i") .nil))
  refine ⟨.inl rfl, _, denotes, ?_⟩
  refine ⟨"key", _, rfl, .inr ⟨by decide, .inr ⟨by decide, .inr ⟨by decide, .inl ?_⟩⟩⟩⟩
  exact ⟨rfl, _, rfl, seconds⟩

theorem spells_longest : (Tree.number longest).Spells longest.whole :=
  .positive rfl ⟨⟨by simp [longest], .inr ⟨'1', _, rfl, by decide⟩, nofun, nofun⟩, [], rfl, rfl⟩

theorem spellsWhole_longestText :
    (longestPlace.fill .array .object (.number longest)).SpellsWhole longestText := by
  have seconds : SpellsMembers false [("seconds", .number longest)] _ :=
    spellsMembers_later (by simp) spells_longest spellsMembers_end
  have id : SpellsMembers false [("id", .text "i"), ("seconds", .number longest)] _ :=
    spellsMembers_later (by simp) (spells_text_of_plain (by simp)) seconds
  have key : SpellsMembers false [("key", .text "k"), ("id", .text "i"), _] _ :=
    spellsMembers_later (by simp) (spells_text_of_plain (by simp)) id
  have command : SpellsMembers true [("cmd", .text "expire"), ("key", .text "k"), ("id", .text "i"),
      ("seconds", .number longest)] _ :=
    spellsMembers_first (by simp) (spells_text_of_plain (by simp)) key
  have whole : SpellsMembers true [("key", .object _)] _ :=
    spellsMembers_first (by simp) (.object command) spellsMembers_end
  refine ⟨[], _, [], allBlank_nil, .object whole, allBlank_nil, ?_⟩
  decide +kernel

/-- The greatest integer of 64 bits is accepted and keeps its digits. -/
theorem ofJsonText_integer_longest :
    IntegerAt .word64 longestPath longestPlace ∧ (Tree.number longest).Spells longest.whole ∧
      (longestPlace.fill .array .object (.number longest)).SpellsWhole longestText ∧
      IntegerClause.ofPath? longestPath = some .seconds ∧
      ∃ (before between back : List String) (q : Query) (c : Command), between.length = 2 ∧
        ofJsonText longestText = .ok q ∧ q.integer? .seconds = some 18446744073709551615 ∧
          q.compile = .ok c ∧
            c.tokens = before ++ "EXPIRE" :: (between ++ "18446744073709551615" :: back) := by
  refine ⟨integerAt_longestPlace, spells_longest, spellsWhole_longestText, rfl, ?_⟩
  have accepted : (ofJsonText longestText).toOption.isSome = true := by
    decide +kernel
  cases accepted' : ofJsonText longestText with
  | error e =>
      rw [accepted'] at accepted
      cases accepted
  | ok q =>
      obtain ⟨clause, known, -, before, between, back, long, each⟩ :=
        ofJsonText_integer integerAt_longestPlace accepted' spellsWhole_longestText
      obtain rfl : IntegerClause.seconds = clause := Option.some.inj known
      obtain ⟨value, c, compiled, tokens⟩ :=
        (each _ _ _ spells_longest spellsWhole_longestText).2 q accepted'
      refine ⟨before, between, back, q, c, long, rfl, ?_, compiled, tokens⟩
      rw [value]
      decide +kernel

end Query

end GeoQuery
