import GeoQuery.Proofs.Query.Accepted
import GeoQuery.Proofs.Shape.Nulls

/-!
What the JSON of a query tells when some of its numbers are not finite. The only number that may be
left out is the elevation of a point that is stored: an elevation that is not finite reads as none.
Any other number that is not finite makes the JSON unreadable.
-/

namespace GeoQuery

open Json

variable {inside : Nat}

namespace Payload

/-- The payload without an elevation that is not finite. -/
def masked : Payload → Payload
  | .point lat lon z => .point lat lon (z.filter Binary64.isFinite)
  | p => p

theorem ofValue_dropNulls (p : Payload) : ofValue (shape.dropNulls p.toValue) = p.masked := by
  cases p with
  | point lat lon z =>
      match z with
      | none | some (.finite _) | some (.infinite _) | some .nan => rfl
  | bounds | hash | object | string => rfl

theorem ofValue_reread_dropNulls (p : Payload) :
    ofValue (shape.reread (shape.dropNulls p.toValue)) = p.masked.reread := by
  cases p with
  | point lat lon z =>
      match z with
      | none | some (.finite _) | some (.infinite _) | some .nan => rfl
  | bounds | hash | object | string => rfl

theorem writable_dropNulls {p : Payload} (h : shape.Writable inside p.masked.toValue) :
    shape.Writable inside (shape.dropNulls p.toValue) := by
  cases p with
  | point lat lon z =>
      match z with
      | none | some (.finite _) => exact h
      | some (.infinite _) | some .nan =>
          obtain ⟨lat, lon, -⟩ := h
          exact ⟨lat, lon, trivial, trivial⟩
  | bounds | hash | object | string => exact h

theorem elevation_of_emitted {p : Payload} {n : String × Binary64} (shown : n ∈ p.emitted)
    (bad : n.2.isFinite = false) (others : ∀ x ∈ p.masked.numbers, x.isFinite = true) :
    ∃ lat lon z, p = .point lat lon (some z) ∧ n = ("POINT", z) := by
  have isShown : n.2 ∈ p.numbers := p.snd_emitted ▸ List.mem_map_of_mem shown
  have hidden : n.2 ∉ p.masked.numbers := fun member => by simp [others _ member] at bad
  cases p with
  | point lat lon z =>
      cases z with
      | none => exact absurd isShown hidden
      | some z =>
          simp only [masked, numbers, List.mem_cons, not_or] at hidden
          obtain ⟨notLat, notLon, -⟩ := hidden
          simp only [emitted, List.mem_cons, List.not_mem_nil, or_false] at shown
          rcases shown with rfl | rfl | rfl
          · exact absurd rfl notLat
          · exact absurd rfl notLon
          · exact ⟨lat, lon, z, rfl, rfl⟩
  | bounds | hash | object | string => exact absurd isShown hidden

end Payload

namespace WriteQuery

def masked (q : WriteQuery) : WriteQuery := { q with payload := q.payload.map Payload.masked }

theorem dropNulls_toValue (q : WriteQuery) :
    shape.dropNulls q.toValue =
      (q.key, q.id, q.expiration.map some, listValue FieldValue.toValue q.fields,
        q.condition.map (some ·.toValue),
        q.payload.map fun p => some (Payload.shape.dropNulls p.toValue), ()) := by
  have payload : (q.payload.map fun p => some p.toValue).map
      (fun value => (Shape.optional Payload.shape).dropNulls value) =
        q.payload.map fun p => some (Payload.shape.dropNulls p.toValue) := by
    cases q.payload with
    | none => rfl
    | some p => exact congrArg some (Shape.dropNulls_of_solid (Variants.isNull_toJson _ p.toValue))
  refine Prod.ext rfl (Prod.ext rfl ?_)
  refine Prod.ext (Shape.dropNulls_slot rfl _) ?_
  refine Prod.ext (Shape.dropNulls_slot rfl _) ?_
  refine Prod.ext (Shape.dropNulls_slot rfl _) ?_
  exact Prod.ext payload rfl

theorem ofValue_dropNulls (q : WriteQuery) : ofValue (shape.dropNulls q.toValue) = q.masked := by
  rw [dropNulls_toValue]
  obtain ⟨key, id, expiration, fields, condition, payload⟩ := q
  calc
    _ = { ofValue (toValue ⟨key, id, expiration, fields, condition, payload⟩) with
          payload := payload.map fun p => Payload.ofValue (Payload.shape.dropNulls p.toValue) } := by
      cases payload <;> rfl
    _ = masked ⟨key, id, expiration, fields, condition, payload⟩ := by
      simp only [ofValue_toValue, Payload.ofValue_dropNulls]
      rfl

theorem ofValue_reread_dropNulls (q : WriteQuery) :
    ofValue (shape.reread (shape.dropNulls q.toValue)) = q.masked.reread := by
  rw [dropNulls_toValue]
  obtain ⟨key, id, expiration, fields, condition, payload⟩ := q
  calc
    _ = { ofValue (shape.reread (toValue ⟨key, id, expiration, fields, condition, payload⟩)) with
          payload := payload.map fun p =>
            Payload.ofValue (Payload.shape.reread (Payload.shape.dropNulls p.toValue)) } := by
      cases payload <;> rfl
    _ = (masked ⟨key, id, expiration, fields, condition, payload⟩).reread := by
      simp only [← toValue_reread, ofValue_toValue, Payload.ofValue_reread_dropNulls]
      simp [masked, reread, Function.comp_def]

theorem writable_dropNulls {q : WriteQuery}
    (h : Writable inside q.masked.numbers q.masked.objects) :
    shape.Writable inside (shape.dropNulls q.toValue) := by
  have fields : ∀ f ∈ q.masked.fields, FieldValue.shape.Writable inside f.toValue :=
    writable_fields h
  have payload : ∀ p ∈ q.payload,
      Payload.shape.Writable inside (Payload.shape.dropNulls p.toValue) := by
    intro p member
    apply Payload.writable_dropNulls
    exact writable_payload h p.masked (Option.mem_map_of_mem _ member)
  rw [dropNulls_toValue]
  refine ⟨trivial, trivial, ?_⟩
  refine Fields.writable_optional (writable_some fun _ _ => trivial) ?_
  refine Fields.writable_optional (writable_listValue fields) ?_
  refine Fields.writable_optional (writable_some fun c _ => c.writable_toValue) ?_
  refine Fields.writable_optional (writable_some payload) ?_
  exact trivial

theorem elevation_of_emitted {q : WriteQuery} {n : String × Binary64} (shown : n ∈ q.emitted)
    (bad : n.2.isFinite = false) (others : ∀ x ∈ q.masked.numbers, x.isFinite = true) :
    ∃ lat lon z, q.payload = some (.point lat lon (some z)) ∧ n = ("POINT", z) := by
  obtain ⟨fields, stored⟩ := List.forall_mem_append.1 others
  rcases List.mem_append.1 shown with field | payload
  · obtain ⟨f, member, rfl⟩ := List.mem_map.1 field
    have finite := fields f.value (List.mem_flatMap.2 ⟨f, member, List.mem_singleton_self _⟩)
    rw [finite] at bad
    cases bad
  · cases held : q.payload with
    | none =>
        rw [held] at payload
        cases payload
    | some p =>
        rw [held] at payload
        simp only [masked, held] at stored
        obtain ⟨lat, lon, z, rfl, elevation⟩ := Payload.elevation_of_emitted payload bad stored
        exact ⟨lat, lon, z, rfl, elevation⟩

end WriteQuery

namespace Query

/-- The query that the JSON of a query tells. -/
def masked : Query → Query
  | .set query => .set query.masked
  | q => q

theorem set_or_dropNulls_toValue (q : Query) :
    (∃ query, q = set query) ∨ q.masked = q ∧ shape.dropNulls q.toValue = q.toValue := by
  cases q with
  | set query => exact .inl ⟨query, rfl⟩
  | search query =>
      have kept := SearchQuery.shape.dropNulls_of_exact rfl query.toValue
      exact .inr ⟨rfl, congrArg Sum.inl kept⟩
  | geofence query =>
      have kept := FenceQuery.shape.dropNulls_of_exact rfl query.toValue
      exact .inr ⟨rfl, congrArg (fun v => Sum.inr (Sum.inl v)) kept⟩
  | key query =>
      have kept := KeyQuery.shape.dropNulls_of_exact rfl query.toValue
      exact .inr ⟨rfl, congrArg (fun v => Sum.inr (Sum.inr (Sum.inr (Sum.inl v)))) kept⟩

theorem ofValue_dropNulls (q : Query) : ofValue (shape.dropNulls q.toValue) = q.masked := by
  rcases q.set_or_dropNulls_toValue with ⟨query, rfl⟩ | ⟨same, kept⟩
  · exact congrArg set query.ofValue_dropNulls
  · rw [kept, same, ofValue_toValue]

theorem ofValue_reread_dropNulls (q : Query) :
    ofValue (shape.reread (shape.dropNulls q.toValue)) = q.masked.reread := by
  rcases q.set_or_dropNulls_toValue with ⟨query, rfl⟩ | ⟨same, kept⟩
  · exact congrArg set query.ofValue_reread_dropNulls
  · rw [kept, same, ← toValue_reread, ofValue_toValue]

theorem writable_dropNulls {q : Query} (h : Writable inside q.masked.numbers q.masked.objects) :
    shape.Writable inside (shape.dropNulls q.toValue) := by
  rcases q.set_or_dropNulls_toValue with ⟨query, rfl⟩ | ⟨same, kept⟩
  · exact WriteQuery.writable_dropNulls h
  · rw [same] at h
    rw [kept]
    exact writable_toValue h

theorem ofJsonText_compact_masked {q : Query}
    (writable : Writable 124 q.masked.numbers q.masked.objects) :
    ofJsonText q.toJson.compact = .ok q.masked.reread := by
  have read := Shape.ofText_compact_dropNulls plain_shape faithful_shape (Nat.le_of_eq height_shape)
    (writable_dropNulls writable)
  rw [ofJsonText, toJson, read, ← ofValue_reread_dropNulls]

theorem finite_of_ofJsonText_compact {q found : Query}
    (read : ofJsonText q.toJson.compact = .ok found) : ∀ x ∈ q.masked.numbers, x.isFinite = true := by
  rw [← ofValue_dropNulls]
  apply finite_ofValue
  cases outcome : shape.ofText q.toJson.compact with
  | ok value => exact Shape.finite_of_ofText_compact plain_shape faithful_shape outcome
  | error reason =>
      rw [ofJsonText, outcome] at read
      cases read

theorem elevation_of_fails {q : Query} {e : Error} (fails : q.compile = .error e)
    (others : ∀ x ∈ q.masked.numbers, x.isFinite = true) :
    ∃ query lat lon z, q = set query ∧ query.payload = some (.point lat lon (some z)) ∧
      e = .nonFinite "POINT" z := by
  obtain ⟨n, first, rfl⟩ := compile_eq_error_iff.1 fails
  have shown := List.mem_of_find?_eq_some first
  have bad : n.2.isFinite = false := by simpa using List.find?_some first
  rcases q.set_or_dropNulls_toValue with ⟨query, rfl⟩ | ⟨same, -⟩
  · obtain ⟨lat, lon, z, held, rfl⟩ := WriteQuery.elevation_of_emitted shown bad others
    exact ⟨query, lat, lon, z, rfl, held, rfl⟩
  · rw [same] at others
    have finite := others _ (q.snd_emitted_subset (List.mem_map_of_mem shown))
    rw [finite] at bad
    cases bad

/-- If a query fails to compile, its JSON is refused too, with one exception: if the elevation of a
point is the only number that is not finite, the JSON is read as the query without it, which
compiles. -/
theorem refused_unless_elevation {q : Query} {e : Error} (fails : q.compile = .error e) :
    ((∃ x ∈ q.masked.numbers, x.isFinite = false) →
      ∃ reason, ofJsonText q.toJson.compact = .error (.json reason)) ∧
    ((∀ x ∈ q.masked.numbers, x.isFinite = true) →
      (∃ query lat lon z, q = set query ∧ query.payload = some (.point lat lon (some z)) ∧
        e = .nonFinite "POINT" z) ∧
      ofJsonText q.toJson.compact = .ok q.masked.reread ∧
        ∃ c, q.masked.reread.compile = .ok c) := by
  constructor
  · intro h
    obtain ⟨x, member, bad⟩ := h
    cases outcome : ofJsonText q.toJson.compact with
    | ok found =>
        rw [finite_of_ofJsonText_compact outcome x member] at bad
        cases bad
    | error e =>
        obtain ⟨reason, rfl⟩ := ofJsonText_eq_error outcome
        exact ⟨reason, rfl⟩
  · intro finite
    obtain ⟨query, lat, lon, z, rfl, held, rfl⟩ := elevation_of_fails fails finite
    have noObjects : (set query).masked.objects = [] := by
      simp [masked, WriteQuery.masked, objects, WriteQuery.objects, held, Payload.masked,
        Payload.objects]
    have read := ofJsonText_compact_masked (q := set query)
      ⟨finite, by simp [noObjects]⟩
    exact ⟨⟨query, lat, lon, z, rfl, held, rfl⟩, read, compile_of_ofJsonText read⟩

def unlevelWrite : Query :=
  .set
    { key := "fleet"
      id := "truck"
      payload := some (.point (.finite ⟨false, Magnitude.one⟩)
        (.finite ⟨false, 0x4000000000000000, by decide⟩) (some .nan)) }

def unlevelFieldWrite : Query :=
  .set
    { key := "fleet"
      id := "truck"
      fields := [⟨"speed", .infinite true⟩]
      payload := some (.point default default (some .nan)) }

theorem refused_unless_elevation_unlevel :
    ofJsonText unlevelWrite.toJson.compact = .ok unlevelWrite.masked.reread ∧
      ∃ reason, ofJsonText unlevelFieldWrite.toJson.compact = .error (.json reason) := by
  have fails : unlevelWrite.compile = .error (.nonFinite "POINT" .nan) := rfl
  have failsToo : unlevelFieldWrite.compile = .error (.nonFinite "FIELD" (.infinite true)) := rfl
  exact ⟨((refused_unless_elevation fails).2 (by decide)).2.1,
    (refused_unless_elevation failsToo).1 ⟨.infinite true, List.mem_cons_self .., rfl⟩⟩

/-- The elevation is masked: the query fails to compile, and its JSON is read as a query that
compiles. -/
theorem unlevelWrite_masked :
    unlevelWrite.compile = .error (.nonFinite "POINT" .nan) ∧
      ∃ q, ofJsonText unlevelWrite.toJson.compact = .ok q ∧
        q.compile = .ok ⟨"SET", ["fleet", "truck", "POINT", "1", "2"]⟩ := by
  refine ⟨rfl, unlevelWrite.masked.reread, ofJsonText_compact_masked ⟨by decide, ?_⟩, ?_⟩
  · exact nofun
  · exact compile_eq_ok_iff.2 ⟨by decide, by decide +kernel⟩

end Query

end GeoQuery
