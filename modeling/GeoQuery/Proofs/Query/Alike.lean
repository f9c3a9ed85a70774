import GeoQuery.Proofs.Json.Sorted
import GeoQuery.Proofs.Query.Emitted
import GeoQuery.Proofs.Query.Layout
import GeoQuery.Proofs.Query.RoundTrip

/-!
Commands of equal queries. Equality does not see the sign of zero, and in a geometry it does not see
the order of members. No number of a command shows the sign of zero, so two commands can differ in a
geometry only, and not once that is sorted.
-/

namespace GeoQuery

open Json Outcome

theorem Binary64.unsignZero_eq_of_equal {x y : Binary64} (h : (x == y) = true) :
    x.unsignZero = y.unsignZero := by
  cases x with
  | finite x =>
      cases y with
      | finite y => exact congrArg finite (Finite64.equals_iff_unsignZero.1 h)
      | infinite | nan => cases h
  | infinite negative =>
      cases y with
      | infinite negative' => exact congrArg infinite (eq_of_beq h)
      | finite | nan => cases h
  | nan => cases y <;> cases h

namespace Argument

def unsignZero : Argument → Argument
  | .word text => .word text
  | .number clause value => .number clause value.unsignZero

theorem encode_unsignZero (a : Argument) : a.unsignZero.encode = a.encode := by
  cases a with
  | word text => rfl
  | number clause value =>
      cases value with
      | finite x => exact congrArg Except.ok x.token_unsignZero
      | infinite | nan => rfl

theorem encodeAll_unsignZero (arguments : List Argument) :
    encodeAll (arguments.map unsignZero) = encodeAll arguments := by
  rw [encodeAll, List.mapM_map]
  exact congrArg (arguments.mapM ·) (funext encode_unsignZero)

theorem encodeAll_append_words (front : List Argument) (s t : String) :
    encodeAll (front ++ [.word s, .word t]) = (encodeAll front).map (· ++ [s, t]) := by
  rw [encodeAll, encodeAll, List.mapM_append]
  cases front.mapM encode <;> rfl

/-- The arguments differ at most in the sign of zeros. -/
def Agree (arguments others : List Argument) : Prop :=
  arguments.map unsignZero = others.map unsignZero

section

variable {arguments others more moreOthers : List Argument} {α : Type}

theorem Agree.refl (arguments : List Argument) : Agree arguments arguments := rfl

theorem Agree.encodeAll_eq (h : Agree arguments others) : encodeAll arguments = encodeAll others := by
  rw [← encodeAll_unsignZero, h, encodeAll_unsignZero]

theorem Agree.append (h : Agree arguments others) (h' : Agree more moreOthers) :
    Agree (arguments ++ more) (others ++ moreOthers) := by
  rw [Agree, List.map_append, h, h', List.map_append]

theorem Agree.cons {a b : Argument} (h : a.unsignZero = b.unsignZero) (h' : Agree more moreOthers) :
    Agree (a :: more) (b :: moreOthers) :=
  congrArg₂ List.cons h h'

theorem Agree.word (text : String) (h : Agree more moreOthers) :
    Agree (.word text :: more) (.word text :: moreOthers) :=
  .cons rfl h

theorem Agree.number {x y : Binary64} (clause : String) (h : (x == y) = true)
    (h' : Agree more moreOthers) : Agree (.number clause x :: more) (.number clause y :: moreOthers) :=
  .cons (congrArg (Argument.number clause) (Binary64.unsignZero_eq_of_equal h)) h'

variable [BEq α] {body : α → List Argument}

theorem Agree.flatMap (each : ∀ a b, (a == b) = true → Agree (body a) (body b)) {l l' : List α}
    (same : (l == l') = true) : Agree (l.flatMap body) (l'.flatMap body) := by
  induction l generalizing l' with
  | nil =>
      cases l' with
      | nil => rfl
      | cons b l' => cases same
  | cons a l ih =>
      cases l' with
      | nil => cases same
      | cons b l' =>
          obtain ⟨head, tail⟩ := Bool.and_eq_true_iff.1 same
          rw [List.flatMap_cons, List.flatMap_cons]
          exact (each a b head).append (ih tail)

theorem agree_numbers (clause : String) {values values' : List Binary64}
    (same : (values == values') = true) : Agree (numbers clause values) (numbers clause values') := by
  have each (x y : Binary64) (same : (x == y) = true) :
      Agree [.number clause x] [.number clause y] :=
    .number clause same (.refl [])
  have all := Agree.flatMap each same
  rwa [← List.map_eq_flatMap, ← List.map_eq_flatMap] at all

theorem agree_counted (clause : String) {values values' : List Binary64}
    (same : (values == values') = true) : Agree (counted clause values) (counted clause values') := by
  have agree := agree_numbers clause same
  have length : values.length = values'.length := by
    simpa [numbers] using congrArg List.length agree
  rw [counted, counted, length]
  exact agree.word _

end

/-- The arguments agree, or they agree up to a geometry at their end, which is then the same once it
is sorted. -/
inductive Alike (objects otherObjects : List Json) : List Argument → List Argument → Prop
  | agree {arguments others : List Argument} (same : Agree arguments others) :
      Alike objects otherObjects arguments others
  | geometry {front otherFront : List Argument} {v w : Json} (fronts : Agree front otherFront)
      (left : v ∈ objects) (right : w ∈ otherObjects) (same : v.sorted = w.sorted) :
      Alike objects otherObjects (front ++ [.word "OBJECT", .word v.compact])
        (otherFront ++ [.word "OBJECT", .word w.compact])

theorem Alike.behind {objects otherObjects : List Json}
    {arguments others front otherFront : List Argument} (fronts : Agree front otherFront)
    (h : Alike objects otherObjects arguments others) :
    Alike objects otherObjects (front ++ arguments) (otherFront ++ others) := by
  cases h with
  | agree same => exact .agree (fronts.append same)
  | geometry inner left right same =>
      rw [← List.append_assoc, ← List.append_assoc]
      exact .geometry (fronts.append inner) left right same

end Argument

open Argument (Agree Alike agree_numbers)

theorem RangeFilter.agree_of_equal (f g : RangeFilter) (h : (f == g) = true) :
    Agree f.arguments g.arguments := by
  obtain ⟨field, min, max⟩ := f
  obtain ⟨field', min', max'⟩ := g
  obtain ⟨fields, bounds⟩ := Bool.and_eq_true_iff.1 h
  obtain ⟨mins, maxs⟩ := Bool.and_eq_true_iff.1 bounds
  obtain rfl := eq_of_beq fields
  apply Agree.word "WHERE"
  apply Agree.word field
  apply Agree.number "WHERE" mins
  apply Agree.number "WHERE" maxs
  exact .refl []

theorem MembershipFilter.agree_of_equal (f g : MembershipFilter) (h : (f == g) = true) :
    Agree f.arguments g.arguments := by
  obtain ⟨field, values⟩ := f
  obtain ⟨field', values'⟩ := g
  obtain ⟨fields, same⟩ := Bool.and_eq_true_iff.1 h
  obtain rfl := eq_of_beq fields
  apply Agree.word "WHEREIN"
  apply Agree.word field
  exact Argument.agree_counted "WHEREIN" same

theorem Filters.agree_of_equal (f g : Filters) (h : (f == g) = true) :
    Agree f.arguments g.arguments := by
  obtain ⟨ranges, memberships, pattern⟩ := f
  obtain ⟨ranges', memberships', pattern'⟩ := g
  obtain ⟨ranges, others⟩ := Bool.and_eq_true_iff.1 h
  obtain ⟨memberships, pattern⟩ := Bool.and_eq_true_iff.1 others
  obtain rfl := eq_of_beq pattern
  apply Agree.append
  · apply Agree.append
    · exact .flatMap RangeFilter.agree_of_equal ranges
    · exact .flatMap MembershipFilter.agree_of_equal memberships
  · exact .refl _

theorem Argument.agree_bounds {minLat minLon maxLat maxLon minLat' minLon' maxLat' maxLon' : Binary64}
    (h : (minLat == minLat' && (minLon == minLon' && (maxLat == maxLat' && maxLon == maxLon'))) =
      true) :
    Agree (bounds minLat minLon maxLat maxLon) (bounds minLat' minLon' maxLat' maxLon') := by
  obtain ⟨minLats, others⟩ := Bool.and_eq_true_iff.1 h
  obtain ⟨minLons, others⟩ := Bool.and_eq_true_iff.1 others
  obtain ⟨maxLats, maxLons⟩ := Bool.and_eq_true_iff.1 others
  apply Agree.word "BOUNDS"
  apply Agree.number "BOUNDS" minLats
  apply Agree.number "BOUNDS" minLons
  apply Agree.number "BOUNDS" maxLats
  apply Agree.number "BOUNDS" maxLons
  exact .refl []

theorem Argument.alike_object {v w : Json.Value} (h : (v == w) = true) :
    Alike [v.json] [w.json] [.word "OBJECT", .word v.json.compact]
      [.word "OBJECT", .word w.json.compact] := by
  have sorted : v.json.sorted = w.json.sorted :=
    v.json.sorted_eq_of_equals w.json v.distinct h
  have left : v.json ∈ [v.json] := List.mem_singleton_self _
  have right : w.json ∈ [w.json] := List.mem_singleton_self _
  exact .geometry (.refl []) left right sorted

theorem Area.alike_of_equal (a b : Area) (h : (a == b) = true) :
    Alike a.objects b.objects a.arguments b.arguments := by
  cases a with
  | tile x y z =>
      cases b with
      | tile x' y' z' =>
          obtain ⟨xs, others⟩ := Bool.and_eq_true_iff.1 h
          obtain ⟨ys, zs⟩ := Bool.and_eq_true_iff.1 others
          obtain rfl := eq_of_beq xs
          obtain rfl := eq_of_beq ys
          obtain rfl := eq_of_beq zs
          exact .agree (.refl _)
      | bounds | circle | get | hash | quadkey | object => cases h
  | bounds =>
      cases b with
      | bounds => exact .agree (Argument.agree_bounds h)
      | tile | circle | get | hash | quadkey | object => cases h
  | circle lat lon meters =>
      cases b with
      | circle lat' lon' meters' =>
          obtain ⟨lats, others⟩ := Bool.and_eq_true_iff.1 h
          obtain ⟨lons, meters⟩ := Bool.and_eq_true_iff.1 others
          apply Alike.agree
          apply Agree.word "CIRCLE"
          apply Agree.number "CIRCLE" lats
          apply Agree.number "CIRCLE" lons
          apply Agree.number "CIRCLE" meters
          exact .refl []
      | tile | bounds | get | hash | quadkey | object => cases h
  | get key id =>
      cases b with
      | get key' id' =>
          obtain ⟨keys, ids⟩ := Bool.and_eq_true_iff.1 h
          obtain rfl := eq_of_beq keys
          obtain rfl := eq_of_beq ids
          exact .agree (.refl _)
      | tile | bounds | circle | hash | quadkey | object => cases h
  | hash geohash =>
      cases b with
      | hash geohash' =>
          obtain rfl : geohash = geohash' := eq_of_beq h
          exact .agree (.refl _)
      | tile | bounds | circle | get | quadkey | object => cases h
  | quadkey digits =>
      cases b with
      | quadkey digits' =>
          obtain rfl : digits = digits' := eq_of_beq h
          exact .agree (.refl _)
      | tile | bounds | circle | get | hash | object => cases h
  | object v =>
      cases b with
      | object w =>
          exact Argument.alike_object h
      | tile | bounds | circle | get | hash | quadkey => cases h

theorem Payload.alike_of_equal (p q : Payload) (h : (p == q) = true) :
    Alike p.objects q.objects p.arguments q.arguments := by
  cases p with
  | point lat lon z =>
      cases q with
      | point lat' lon' z' =>
          obtain ⟨lats, others⟩ := Bool.and_eq_true_iff.1 h
          obtain ⟨lons, zs⟩ := Bool.and_eq_true_iff.1 others
          have listed : (z.toList == z'.toList) = true := by
            cases z <;> cases z' <;> simp_all
          apply Alike.agree
          apply Agree.word "POINT"
          apply Agree.number "POINT" lats
          apply Agree.number "POINT" lons
          exact agree_numbers "POINT" listed
      | bounds | hash | object | string => cases h
  | bounds =>
      cases q with
      | bounds => exact .agree (Argument.agree_bounds h)
      | point | hash | object | string => cases h
  | hash geohash =>
      cases q with
      | hash geohash' =>
          obtain rfl : geohash = geohash' := eq_of_beq h
          exact .agree (.refl _)
      | point | bounds | object | string => cases h
  | object v =>
      cases q with
      | object w =>
          exact Argument.alike_object h
      | point | bounds | hash | string => cases h
  | string value =>
      cases q with
      | string value' =>
          obtain rfl : value = value' := eq_of_beq h
          exact .agree (.refl _)
      | point | bounds | hash | object => cases h

theorem FieldValue.agree_of_equal (f g : FieldValue) (h : (f == g) = true) :
    Agree f.arguments g.arguments := by
  obtain ⟨name, value⟩ := f
  obtain ⟨name', value'⟩ := g
  obtain ⟨names, values⟩ := Bool.and_eq_true_iff.1 h
  obtain rfl := eq_of_beq names
  apply Agree.word "FIELD"
  apply Agree.word name
  apply Agree.number "FIELD" values
  exact .refl []

theorem Argument.agree_point {lat lon radius lat' lon' radius' : Binary64}
    (h : (lat == lat' && (lon == lon' && radius == radius')) = true) :
    Agree (point lat lon (some radius)) (point lat' lon' (some radius')) := by
  obtain ⟨lats, others⟩ := Bool.and_eq_true_iff.1 h
  obtain ⟨lons, radii⟩ := Bool.and_eq_true_iff.1 others
  apply Agree.word "POINT"
  apply Agree.number "POINT" lats
  apply Agree.number "POINT" lons
  apply Agree.number "POINT" radii
  exact .refl []

theorem SearchPredicate.agree_of_equal {p q : SearchPredicate} (h : (p == q) = true) :
    p.name = q.name ∧ p.key = q.key ∧ Agree p.arguments q.arguments := by
  cases p with
  | nearby key lat lon radius =>
      cases q with
      | nearby key' lat' lon' radius' =>
          obtain ⟨keys, same⟩ := Bool.and_eq_true_iff.1 h
          exact ⟨rfl, eq_of_beq keys, Argument.agree_point same⟩
      | intersects | within => cases h
  | intersects key =>
      cases q with
      | intersects key' => exact ⟨rfl, eq_of_beq h, .refl []⟩
      | nearby | within => cases h
  | within key =>
      cases q with
      | within key' => exact ⟨rfl, eq_of_beq h, .refl []⟩
      | nearby | intersects => cases h

theorem FencePredicate.agree_of_equal {p q : FencePredicate} (h : (p == q) = true) :
    p.name = q.name ∧ p.key = q.key ∧ Agree p.roaming q.roaming ∧ Agree p.point q.point := by
  cases p with
  | nearby key lat lon radius =>
      cases q with
      | nearby key' lat' lon' radius' =>
          obtain ⟨keys, same⟩ := Bool.and_eq_true_iff.1 h
          exact ⟨rfl, eq_of_beq keys, .refl [], Argument.agree_point same⟩
      | intersects | within | roam => cases h
  | intersects key =>
      cases q with
      | intersects key' => exact ⟨rfl, eq_of_beq h, .refl [], .refl []⟩
      | nearby | within | roam => cases h
  | within key =>
      cases q with
      | within key' => exact ⟨rfl, eq_of_beq h, .refl [], .refl []⟩
      | nearby | intersects | roam => cases h
  | roam key target pattern meters =>
      cases q with
      | roam key' target' pattern' meters' =>
          obtain ⟨keys, others⟩ := Bool.and_eq_true_iff.1 h
          obtain ⟨targets, others⟩ := Bool.and_eq_true_iff.1 others
          obtain ⟨patterns, meters⟩ := Bool.and_eq_true_iff.1 others
          obtain rfl := eq_of_beq targets
          obtain rfl := eq_of_beq patterns
          refine ⟨rfl, eq_of_beq keys, ?_, .refl []⟩
          apply Agree.word "ROAM"
          apply Agree.word target
          apply Agree.word pattern
          apply Agree.number "ROAM" meters
          exact .refl []
      | nearby | intersects | within => cases h

theorem SearchQuery.alike_of_equal {p q : SearchQuery} (h : (p == q) = true) :
    p.predicate.name = q.predicate.name ∧ Alike p.objects q.objects p.arguments q.arguments := by
  obtain ⟨predicate, filters, cursor, limit, noFields, format, area⟩ := p
  obtain ⟨predicate', filters', cursor', limit', noFields', format', area'⟩ := q
  obtain ⟨predicates, others⟩ := Bool.and_eq_true_iff.1 h
  obtain ⟨filters, others⟩ := Bool.and_eq_true_iff.1 others
  obtain ⟨cursors, others⟩ := Bool.and_eq_true_iff.1 others
  obtain ⟨limits, others⟩ := Bool.and_eq_true_iff.1 others
  obtain ⟨flags, others⟩ := Bool.and_eq_true_iff.1 others
  obtain ⟨formats, areas⟩ := Bool.and_eq_true_iff.1 others
  obtain rfl := eq_of_beq cursors
  obtain rfl := eq_of_beq limits
  obtain rfl := eq_of_beq flags
  obtain rfl := eq_of_beq formats
  obtain ⟨name, key, point⟩ := SearchPredicate.agree_of_equal predicates
  refine ⟨name, ?_⟩
  have keys : Agree [.word predicate.key] [.word predicate'.key] := by
    rw [key]
    exact .refl _
  rw [arguments_eq, arguments_eq]
  apply Alike.behind keys
  apply Alike.behind (Filters.agree_of_equal _ _ filters)
  apply Alike.behind (.refl _)
  cases area with
  | none =>
      cases area' with
      | none => exact .agree point
      | some => cases areas
  | some area =>
      cases area' with
      | none => cases areas
      | some area' => exact area.alike_of_equal area' areas

theorem FenceQuery.agree_of_equal {p q : FenceQuery} (h : (p == q) = true) :
    p.predicate.name = q.predicate.name ∧ Agree p.arguments q.arguments := by
  obtain ⟨predicate, clip, distance, filters, cursor, events, writes, format⟩ := p
  obtain ⟨predicate', clip', distance', filters', cursor', events', writes', format'⟩ := q
  obtain ⟨predicates, others⟩ := Bool.and_eq_true_iff.1 h
  obtain ⟨clips, others⟩ := Bool.and_eq_true_iff.1 others
  obtain ⟨distances, others⟩ := Bool.and_eq_true_iff.1 others
  obtain ⟨filters, others⟩ := Bool.and_eq_true_iff.1 others
  obtain ⟨cursors, others⟩ := Bool.and_eq_true_iff.1 others
  obtain ⟨eventSets, others⟩ := Bool.and_eq_true_iff.1 others
  obtain ⟨writeSets, formats⟩ := Bool.and_eq_true_iff.1 others
  obtain rfl := eq_of_beq clips
  obtain rfl := eq_of_beq distances
  obtain rfl := eq_of_beq cursors
  obtain rfl := eq_of_beq eventSets
  obtain rfl := eq_of_beq writeSets
  obtain rfl := eq_of_beq formats
  obtain ⟨name, key, roaming, point⟩ := FencePredicate.agree_of_equal predicates
  refine ⟨name, ?_⟩
  have keys : Agree [.word predicate.key] [.word predicate'.key] := by
    rw [key]
    exact .refl _
  have output : Agree (format.elim predicate.roaming OutputFormat.arguments)
      (format.elim predicate'.roaming OutputFormat.arguments) := by
    cases format with
    | none => exact roaming
    | some format => exact .refl _
  rw [arguments_eq, arguments_eq]
  apply Agree.append
  · exact keys.append (.refl _)
  · apply Agree.append (Filters.agree_of_equal _ _ filters)
    apply Agree.append (.refl _)
    exact output.append point

theorem WriteQuery.alike_of_equal {p q : WriteQuery} (h : (p == q) = true) :
    Alike p.objects q.objects p.arguments q.arguments := by
  obtain ⟨key, id, expiration, fields, condition, payload⟩ := p
  obtain ⟨key', id', expiration', fields', condition', payload'⟩ := q
  obtain ⟨keys, others⟩ := Bool.and_eq_true_iff.1 h
  obtain ⟨ids, others⟩ := Bool.and_eq_true_iff.1 others
  obtain ⟨expirations, others⟩ := Bool.and_eq_true_iff.1 others
  obtain ⟨sameFields, others⟩ := Bool.and_eq_true_iff.1 others
  obtain ⟨conditions, payloads⟩ := Bool.and_eq_true_iff.1 others
  obtain rfl := eq_of_beq keys
  obtain rfl := eq_of_beq ids
  obtain rfl := eq_of_beq expirations
  obtain rfl := eq_of_beq conditions
  have named : Agree (fields.flatMap FieldValue.arguments) (fields'.flatMap FieldValue.arguments) :=
    .flatMap FieldValue.agree_of_equal sameFields
  apply Alike.behind
  · apply Agree.append
    · exact Agree.append (.refl _) named
    · exact .refl _
  cases payload with
  | none =>
      cases payload' with
      | none => exact .agree (.refl [])
      | some => cases payloads
  | some payload =>
      cases payload' with
      | none => cases payloads
      | some payload' => exact payload.alike_of_equal payload' payloads

namespace Query

theorem alike_of_equal {p q : Query} (h : (p == q) = true) :
    p.name = q.name ∧ Alike p.objects q.objects p.arguments q.arguments := by
  cases p with
  | search p =>
      cases q with
      | search q => exact SearchQuery.alike_of_equal h
      | geofence | set | key => cases h
  | geofence p =>
      cases q with
      | geofence q => exact (FenceQuery.agree_of_equal h).imp_right .agree
      | search | set | key => cases h
  | set p =>
      cases q with
      | set q => exact ⟨rfl, WriteQuery.alike_of_equal h⟩
      | search | geofence | key => cases h
  | key p =>
      cases q with
      | key q =>
          obtain rfl : p = q := eq_of_beq h
          exact ⟨rfl, .agree (.refl _)⟩
      | search | geofence | set => cases h

/-- Queries that are equal, where zero has no sign and the members of an object have no order, fail
for the same number, or they have the same command up to a geometry at its end. The two texts of the
geometry become the same once the members are sorted by name and zero has no sign. -/
theorem compile_of_equal {p q : Query} (same : (p == q) = true) :
    (∃ c, p.compile = .ok c ∧ q.compile = .ok c) ∨
    (∃ (name : String) (front : List String) (v w : Json), v ∈ p.objects ∧ w ∈ q.objects ∧
      v.sorted.compact = w.sorted.compact ∧
        p.compile = .ok ⟨name, front ++ ["OBJECT", v.compact]⟩ ∧
        q.compile = .ok ⟨name, front ++ ["OBJECT", w.compact]⟩) ∨
    ∃ clause value, p.compile = .error (.nonFinite clause value) ∧
      q.compile = .error (.nonFinite clause value) := by
  obtain ⟨name, alike⟩ := alike_of_equal same
  rw [compile_eq, compile_eq, name, Compilation.result_ofArguments, Compilation.result_ofArguments]
  have failing {arguments : List Argument} {e : Error}
      (fails : Argument.encodeAll arguments = .error e) :
      ∃ clause value, e = .nonFinite clause value := by
    obtain ⟨n, -, rfl⟩ := Argument.encodeAll_eq_error_iff.1 fails
    exact ⟨n.1, n.2, rfl⟩
  generalize p.arguments = arguments at alike ⊢
  generalize q.arguments = others at alike ⊢
  cases alike with
  | agree agree =>
      rw [agree.encodeAll_eq]
      cases encoded : Argument.encodeAll others with
      | ok tokens => exact .inl ⟨_, rfl, rfl⟩
      | error e =>
          obtain ⟨clause, value, rfl⟩ := failing encoded
          exact .inr (.inr ⟨clause, value, rfl, rfl⟩)
  | @geometry front otherFront v w fronts left right sorted =>
      rw [Argument.encodeAll_append_words, Argument.encodeAll_append_words, fronts.encodeAll_eq]
      cases encoded : Argument.encodeAll otherFront with
      | ok tokens =>
          exact .inr (.inl ⟨q.name, tokens, v, w, left, right, congrArg compact sorted, rfl, rfl⟩)
      | error e =>
          obtain ⟨clause, value, rfl⟩ := failing encoded
          exact .inr (.inr ⟨clause, value, rfl, rfl⟩)

def writeOfZero (negative swapped : Bool) : Query :=
  let a := ("a", leaf (.number (.fraction ⟨negative, .zero⟩)))
  let b := ("b", .null)
  .set
    { key := "k"
      id := "i"
      payload := some (.object (.ofJson (.object (if swapped then [b, a] else [a, b])))) }

/-- Neither the sign of a zero nor the order of members is seen once the geometry is sorted. -/
theorem compile_of_equal_zeros :
    (writeOfZero true false == writeOfZero false true) = true ∧
      ∃ (front : List String) (v w : Json), v.sorted.compact = w.sorted.compact ∧
        (writeOfZero true false).compile = .ok ⟨"SET", front ++ ["OBJECT", v.compact]⟩ ∧
        (writeOfZero false true).compile = .ok ⟨"SET", front ++ ["OBJECT", w.compact]⟩ := by
  have same : (writeOfZero true false == writeOfZero false true) = true := by
    decide +kernel
  have left : (writeOfZero true false).compile =
      .ok ⟨"SET", ["k", "i", "OBJECT", "\x7b\"a\":-0.0,\"b\":null\x7d"]⟩ := by
    refine compile_eq_ok_iff.2 ⟨?_, by decide +kernel⟩
    simp [writeOfZero, arguments, WriteQuery.arguments, Payload.arguments, Argument.IsFinite]
  have right : (writeOfZero false true).compile =
      .ok ⟨"SET", ["k", "i", "OBJECT", "\x7b\"b\":null,\"a\":0.0\x7d"]⟩ := by
    refine compile_eq_ok_iff.2 ⟨?_, by decide +kernel⟩
    simp [writeOfZero, arguments, WriteQuery.arguments, Payload.arguments, Argument.IsFinite]
  refine ⟨same, ?_⟩
  obtain ⟨c, first, second⟩ | ⟨name, front, v, w, -, -, sorted, first, second⟩ | ⟨_, _, fails, -⟩ :=
    compile_of_equal same
  · have texts := left.symm.trans (first.trans (second.symm.trans right))
    simp at texts
  · obtain rfl : "SET" = name := congrArg Command.name (Except.ok.inj (left.symm.trans first))
    exact ⟨front, v, w, sorted, first, second⟩
  · cases left.symm.trans fails

end Query

end GeoQuery
