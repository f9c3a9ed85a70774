import GeoQuery.Proofs.Json.Printed
import GeoQuery.Proofs.Query.RoundTrip
import GeoQuery.Proofs.Query.Visible

/-!
The strings of a caller that a command shows, in the order of the command. All other tokens are
keywords, counts, numbers, which have neither blanks nor control characters, and the texts of JSON
values. What the command does not show is left out: what a fence roams around, if it has a format.
-/

namespace GeoQuery

open Text

def Filters.strings (f : Filters) : List String :=
  f.ranges.map RangeFilter.field ++ f.memberships.map MembershipFilter.field ++ f.pattern.toList

namespace Area

def strings : Area → List String
  | .get key id => [key, id]
  | .hash geohash => [geohash]
  | .quadkey digits => [digits]
  | .tile .. | .bounds .. | .circle .. | .object _ => []

end Area

namespace Payload

def strings : Payload → List String
  | .hash geohash => [geohash]
  | .string value => [value]
  | .point .. | .bounds .. | .object _ => []

end Payload

def SearchQuery.strings (q : SearchQuery) : List String :=
  q.predicate.key :: q.filters.strings ++ q.area.elim [] Area.strings

def FencePredicate.strings : FencePredicate → List String
  | .roam _ target pattern _ => [target, pattern]
  | .nearby .. | .intersects _ | .within _ => []

def FenceQuery.strings (q : FenceQuery) : List String :=
  q.predicate.key :: q.filters.strings ++ q.format.elim q.predicate.strings fun _ => []

def WriteQuery.strings (q : WriteQuery) : List String :=
  q.key :: q.id :: q.fields.map FieldValue.name ++ q.payload.elim [] Payload.strings

def KeyQuery.strings : KeyQuery → List String
  | .drop key => [key]
  | .get key id | .del key id | .expire key id _ | .persist key id | .ttl key id => [key, id]

namespace Query

def strings : Query → List String
  | .search query => query.strings
  | .geofence query => query.strings
  | .set query => query.strings
  | .key query => query.strings

end Query

namespace Argument

/-- The words among arguments are keywords and counts, the strings and the texts of the JSON values,
the last two in the order of the lists. -/
inductive Shows : List Argument → List String → List Json → Prop
  | nil : Shows [] [] []
  | keyword {text : String} {arguments : List Argument} {strings : List String}
      {objects : List Json} (solid : Solid text.toList) (rest : Shows arguments strings objects) :
      Shows (.word text :: arguments) strings objects
  | number {clause : String} {value : Binary64} {arguments : List Argument}
      {strings : List String} {objects : List Json} (rest : Shows arguments strings objects) :
      Shows (.number clause value :: arguments) strings objects
  | string {text : String} {arguments : List Argument} {strings : List String}
      {objects : List Json} (rest : Shows arguments strings objects) :
      Shows (.word text :: arguments) (text :: strings) objects
  | object {value : Json} {arguments : List Argument} {strings : List String}
      {objects : List Json} (rest : Shows arguments strings objects) :
      Shows (.word value.compact :: arguments) strings (value :: objects)

namespace Shows

variable {arguments more : List Argument} {strings strings' : List String}
variable {objects objects' : List Json} {clause text : String}

theorem append (h : Shows arguments strings objects) (h' : Shows more strings' objects') :
    Shows (arguments ++ more) (strings ++ strings') (objects ++ objects') := by
  induction h with
  | nil => exact h'
  | keyword solid _ ih => exact .keyword solid ih
  | number _ ih => exact .number ih
  | string _ ih => exact .string ih
  | object _ ih => exact .object ih

theorem and (h : Shows arguments strings objects) (h' : Shows more [] []) :
    Shows (arguments ++ more) strings objects := by simpa using h.append h'

theorem nat {n : Nat} (rest : Shows arguments strings objects) :
    Shows (.nat n :: arguments) strings objects := .keyword (solid_toString n) rest

theorem numbers (values : List Binary64) : Shows (Argument.numbers clause values) [] [] := by
  induction values with
  | nil => exact .nil
  | cons value values ih => exact .number ih

theorem flatMap {α : Type} {body : α → List Argument} {field : α → String}
    (each : ∀ a, Shows (body a) [field a] []) (l : List α) :
    Shows (l.flatMap body) (l.map field) [] := by
  induction l with
  | nil => exact .nil
  | cons a l ih => exact (each a).append ih

theorem optional {α : Type} {body : α → List Argument} (each : ∀ a, Shows (body a) [] [])
    (o : Option α) : Shows (o.elim [] body) [] [] := by
  cases o with
  | none => exact .nil
  | some a => exact each a

theorem word64 (solid : Solid text.toList) (o : Option UInt64) :
    Shows (o.elim [] fun n => [.word text, .nat n.toNat]) [] [] :=
  optional (fun _ => .keyword solid (.nat .nil)) o

theorem flag (solid : Solid text.toList) (b : Bool) :
    Shows (if b then [.word text] else []) [] [] := by
  cases b with
  | false => exact .nil
  | true => exact .keyword solid .nil

theorem point (lat lon : Binary64) (extra : Option Binary64) :
    Shows (Argument.point lat lon extra) [] [] := by
  apply Shows.keyword (by decide)
  exact numbers _

theorem bounds (minLat minLon maxLat maxLon : Binary64) :
    Shows (Argument.bounds minLat minLon maxLat maxLon) [] [] := by
  apply Shows.keyword (by decide)
  exact numbers _

/-- The tokens are the strings, the texts of the values, and others. These are keywords, counts and
numbers, so all of their characters are behind the space. -/
theorem tokens_perm (h : Shows arguments strings objects) :
    ∃ others, (arguments.map token).Perm (strings ++ objects.map Json.compact ++ others) ∧
      ∀ text ∈ others, Solid text.toList := by
  induction h with
  | nil => exact ⟨[], .nil, nofun⟩
  | @keyword text _ _ _ solid _ ih =>
      obtain ⟨others, same, each⟩ := ih
      exact ⟨text :: others, (same.cons text).trans List.perm_middle.symm,
        List.forall_mem_cons.2 ⟨solid, each⟩⟩
  | @number clause value _ _ _ _ ih =>
      obtain ⟨others, same, each⟩ := ih
      exact ⟨value.token :: others, (same.cons value.token).trans List.perm_middle.symm,
        List.forall_mem_cons.2 ⟨value.solid_token, each⟩⟩
  | @string text _ _ _ _ ih =>
      obtain ⟨others, same, each⟩ := ih
      exact ⟨others, same.cons text, each⟩
  | @object value _ strings objects _ ih =>
      obtain ⟨others, same, each⟩ := ih
      have front : (value.compact :: (strings ++ objects.map Json.compact)).Perm
          (strings ++ (value :: objects).map Json.compact) := List.perm_middle.symm
      exact ⟨others, (same.cons value.compact).trans (front.append_right others), each⟩

/-- A character that is not behind the space is in a token exactly if it is in a string or in the
text of a value. -/
theorem mem_token_iff (h : Shows arguments strings objects) {c : Char} (low : ¬ ' ' < c) :
    (∃ a ∈ arguments, c ∈ a.token.toList) ↔
      (∃ s ∈ strings, c ∈ s.toList) ∨ ∃ j ∈ objects, c ∈ j.compact.toList := by
  obtain ⟨others, same, solid⟩ := h.tokens_perm
  have none : ¬ ∃ text ∈ others, c ∈ text.toList := by
    intro ⟨text, member, inside⟩
    exact low (solid text member c inside)
  have moved : (∃ t ∈ arguments.map token, c ∈ t.toList) ↔
      ∃ t ∈ strings ++ objects.map Json.compact ++ others, c ∈ t.toList := by
    simp only [same.mem_iff]
  simpa only [List.mem_map, List.mem_append, exists_exists_and_eq_and, or_and_right, exists_or,
    none, or_false] using moved

end Shows

end Argument

open Argument

theorem RangeFilter.shows (f : RangeFilter) : Shows f.arguments [f.field] [] := by
  apply Shows.keyword (by decide)
  apply Shows.string
  exact .numbers _

theorem MembershipFilter.shows (f : MembershipFilter) : Shows f.arguments [f.field] [] := by
  apply Shows.keyword (by decide)
  apply Shows.string
  apply Shows.nat
  exact .numbers _

theorem Filters.shows (f : Filters) : Shows f.arguments f.strings [] := by
  have ranges : Shows (f.ranges.flatMap RangeFilter.arguments) (f.ranges.map RangeFilter.field) [] :=
    .flatMap RangeFilter.shows f.ranges
  have memberships : Shows (f.memberships.flatMap MembershipFilter.arguments)
      (f.memberships.map MembershipFilter.field) [] :=
    .flatMap MembershipFilter.shows f.memberships
  have pattern : Shows (f.pattern.elim [] fun p => [.word "MATCH", .word p]) f.pattern.toList [] := by
    cases f.pattern with
    | none => exact .nil
    | some pattern => exact .keyword (by decide) (.string .nil)
  exact (ranges.append memberships).append pattern

theorem OutputFormat.shows (f : OutputFormat) : Shows f.arguments [] [] := by
  cases f with
  | hashes precision => exact .keyword (by decide) (.nat .nil)
  | count | ids | objects | points | bounds => exact .keyword (by decide) .nil

theorem Area.shows (a : Area) : Shows a.arguments a.strings a.objects := by
  cases a with
  | tile x y z => exact .keyword (by decide) (.nat (.nat (.nat .nil)))
  | bounds => exact .bounds ..
  | circle => exact .keyword (by decide) (.numbers _)
  | get => exact .keyword (by decide) (.string (.string .nil))
  | hash | quadkey => exact .keyword (by decide) (.string .nil)
  | object => exact .keyword (by decide) (.object .nil)

theorem Payload.shows (p : Payload) : Shows p.arguments p.strings p.objects := by
  cases p with
  | point => exact .point ..
  | bounds => exact .bounds ..
  | hash | string => exact .keyword (by decide) (.string .nil)
  | object => exact .keyword (by decide) (.object .nil)

theorem Selection.shows {α : Type} [Enumerated α] {clause : String} (solid : Solid clause.toList)
    (each : ∀ a : α, Solid (Enumerated.label a).toList) (s : Selection α) :
    Shows (s.arguments clause) [] [] := by
  have names : Solid (",".intercalate (s.toList.map Enumerated.label)).toList := by
    rw [String.toList_intercalate]
    refine solid_intercalate (by decide) ?_
    simpa using fun a _ => each a
  rw [arguments, token?]
  split
  · exact .nil
  · exact .keyword solid (.keyword names .nil)

theorem SearchQuery.shows (q : SearchQuery) : Shows q.arguments q.strings q.objects := by
  have format : Shows (q.format.elim [] OutputFormat.arguments) [] [] :=
    .optional OutputFormat.shows q.format
  have area : Shows (q.area.elim q.predicate.arguments Area.arguments)
      (q.area.elim [] Area.strings) (q.area.elim [] Area.objects) := by
    cases q.area with
    | some area => exact area.shows
    | none =>
        cases q.predicate with
        | nearby => exact .point ..
        | intersects | within => exact .nil
  have cursor : Shows (q.cursor.elim [] fun n => [.word "CURSOR", .nat n.toNat]) [] [] :=
    .word64 (by decide) q.cursor
  have limit : Shows (q.limit.elim [] fun n => [.word "LIMIT", .nat n.toNat]) [] [] :=
    .word64 (by decide) q.limit
  have noFields : Shows (if q.noFields then [.word "NOFIELDS"] else []) [] [] :=
    .flag (by decide) q.noFields
  have front : Shows (.word q.predicate.key :: q.filters.arguments)
      (q.predicate.key :: q.filters.strings) [] := .string q.filters.shows
  have paged := (front.and cursor).and limit
  have shaped := (paged.and noFields).and format
  exact shaped.append area

theorem FenceQuery.shows (q : FenceQuery) : Shows q.arguments q.strings [] := by
  have events : Shows (q.events.arguments "DETECT") [] [] :=
    q.events.shows (by decide) fun event => by cases event <;> decide
  have writes : Shows (q.writes.arguments "COMMANDS") [] [] :=
    q.writes.shows (by decide) fun write => by cases write <;> decide
  have output : Shows (q.format.elim q.predicate.roaming OutputFormat.arguments)
      (q.format.elim q.predicate.strings fun _ => []) [] := by
    cases q.format with
    | some format => exact format.shows
    | none =>
        cases q.predicate with
        | roam => exact .keyword (by decide) (.string (.string (.number .nil)))
        | nearby | intersects | within => exact .nil
  have point : Shows q.predicate.point [] [] := by
    cases q.predicate with
    | nearby => exact .point ..
    | intersects | within | roam => exact .nil
  have clip : Shows (if q.clip then [.word "CLIP"] else []) [] [] := .flag (by decide) q.clip
  have distance : Shows (if q.distance then [.word "DISTANCE"] else []) [] [] :=
    .flag (by decide) q.distance
  have cursor : Shows (q.cursor.elim [] fun n => [.word "CURSOR", .nat n.toNat]) [] [] :=
    .word64 (by decide) q.cursor
  have fence : Shows (.word "FENCE" :: q.events.arguments "DETECT") [] [] :=
    .keyword (by decide) events
  have key : Shows (.word q.predicate.key :: if q.clip then [.word "CLIP"] else [])
      [q.predicate.key] [] := .string clip
  have front := (key.and distance).append q.filters.shows
  have watching := ((front.and cursor).and fence).and writes
  exact (watching.append output).and point

theorem FieldValue.shows (f : FieldValue) : Shows f.arguments [f.name] [] := by
  apply Shows.keyword (by decide)
  apply Shows.string
  exact .number .nil

theorem WriteQuery.shows (q : WriteQuery) : Shows q.arguments q.strings q.objects := by
  have fields : Shows (q.fields.flatMap FieldValue.arguments) (q.fields.map FieldValue.name) [] :=
    .flatMap FieldValue.shows q.fields
  have condition : Shows (q.condition.elim [] fun c => [.word c.token]) [] [] :=
    .optional (fun c => .keyword (by cases c <;> decide) .nil) q.condition
  have payload : Shows (q.payload.elim [] Payload.arguments) (q.payload.elim [] Payload.strings)
      (q.payload.elim [] Payload.objects) := by
    cases q.payload with
    | none => exact .nil
    | some payload => exact payload.shows
  have expiration : Shows (q.expiration.elim [] fun n => [.word "EX", .nat n.toNat]) [] [] :=
    .word64 (by decide) q.expiration
  have front : Shows (.word q.key :: .word q.id ::
      q.expiration.elim [] fun n => [.word "EX", .nat n.toNat]) [q.key, q.id] [] := by
    apply Shows.string
    apply Shows.string
    exact expiration
  have named := front.append fields
  exact (named.and condition).append payload

theorem KeyQuery.shows (q : KeyQuery) : Shows q.arguments q.strings [] := by
  cases q with
  | drop => exact .string .nil
  | expire => exact .string (.string (.nat .nil))
  | get | del | persist | ttl => exact .string (.string .nil)

namespace Query

theorem shows (q : Query) : Shows q.arguments q.strings q.objects := by
  cases q with
  | search query => exact query.shows
  | geofence query => exact query.shows
  | set query => exact query.shows
  | key query => exact query.shows

theorem solid_name (q : Query) : Solid q.name.toList := by
  cases q with
  | search query =>
      rw [name]
      cases query.predicate <;> simp only [SearchPredicate.name] <;> decide
  | geofence query =>
      rw [name]
      cases query.predicate <;> simp only [FencePredicate.name] <;> decide
  | set query => exact (by decide : Solid "SET".toList)
  | key query => cases query <;> simp only [name, KeyQuery.name] <;> decide

/-- The only control characters in the line of a command are those of the strings that it shows. -/
theorem mem_line_iff {q : Query} {c : Command} (compiled : q.compile = .ok c) {control : Char}
    (low : control < ' ') : control ∈ c.line.toList ↔ ∃ s ∈ q.strings, control ∈ s.toList := by
  obtain ⟨-, rfl⟩ := compile_eq_ok_iff.1 compiled
  have other : control ∉ [' '] := by
    rintro member
    rw [List.mem_singleton.1 member] at low
    exact lt_irrefl _ low
  have tokens : control ∈ (Command.line ⟨q.name, q.arguments.map token⟩).toList ↔
      control ∈ q.name.toList ∨ ∃ a ∈ q.arguments, control ∈ a.token.toList := by
    rw [Command.line, String.toList_intercalate]
    change control ∈ [' '].intercalate _ ↔ _
    rw [mem_intercalate_iff other]
    simp [Command.tokens]
  have name : control ∉ q.name.toList := fun member =>
    lt_asymm low (q.solid_name control member)
  have objects : ¬ ∃ j ∈ q.objects, control ∈ j.compact.toList := by
    rintro ⟨j, -, member⟩
    exact absurd low (not_lt.2 (j.printed_compact control member))
  rw [tokens, q.shows.mem_token_iff (lt_asymm low)]
  simp only [name, objects, false_or, or_false]

end Query

end GeoQuery
