import GeoQuery.Proofs.Json.Faithful
import GeoQuery.Proofs.Query.Emitted
import GeoQuery.Proofs.Query.Layout
import GeoQuery.Proofs.Query.RoundTrip

namespace GeoQuery

open Json

theorem Area.arguments_of_object {a : Area} {v : Json} (h : v ∈ a.objects) :
    a.arguments = [.word "OBJECT", .word v.compact] := by
  cases a with
  | object geometry =>
      obtain rfl : v = geometry.json := List.mem_singleton.1 h
      rfl
  | tile | bounds | circle | get | hash | quadkey => cases h

theorem Payload.arguments_of_object {p : Payload} {v : Json} (h : v ∈ p.objects) :
    p.arguments = [.word "OBJECT", .word v.compact] := by
  cases p with
  | object geometry =>
      obtain rfl : v = geometry.json := List.mem_singleton.1 h
      rfl
  | point | bounds | hash | string => cases h

namespace Query

theorem exists_arguments_of_object {q : Query} {v : Json} (h : v ∈ q.objects) :
    ∃ front, q.arguments = front ++ [.word "OBJECT", .word v.compact] := by
  cases q with
  | search q =>
      obtain ⟨predicate, filters, cursor, limit, noFields, format, area⟩ := q
      cases area with
      | none => cases h
      | some area => exact ⟨_, congrArg (_ ++ ·) (Area.arguments_of_object h)⟩
  | set q =>
      obtain ⟨key, id, expiration, fields, condition, payload⟩ := q
      cases payload with
      | none => cases h
      | some payload => exact ⟨_, congrArg (_ ++ ·) (Payload.arguments_of_object h)⟩
  | geofence | key => cases h

/-- A query with a geometry compiles if the numbers of its other clauses are finite. The geometry is
then the last token, behind a word for it, and this token is the value itself: without control
characters, which are those below the space in JSON, without blanks outside of strings, and the text of
this value only. -/
theorem compile_geometry {q : Query} {v : Json} (held : v ∈ q.objects) :
    ((∃ c, q.compile = .ok c) ↔ ∀ n ∈ q.emitted, n.2.isFinite = true) ∧
    (∀ c, q.compile = .ok c → ∃ front, c = ⟨q.name, front ++ ["OBJECT", v.compact]⟩) ∧
    (∀ c ∈ v.compact.toList, ' ' ≤ c) ∧
    (∀ front c back, v.compact.toList = front ++ c :: back →
      Quoting.outside.behind front = .outside → ' ' < c) ∧
    ∀ j, IsText v.compact j ↔ j = v := by
  refine ⟨exists_compile_iff, fun c compiled => ?_, v.printed_compact, v.tight_compact.solid,
    fun j => isText_compact_iff⟩
  obtain ⟨front, arguments⟩ := exists_arguments_of_object held
  obtain ⟨-, rfl⟩ := compile_eq_ok_iff.1 compiled
  exact ⟨front.map Argument.token, by rw [arguments, List.map_append]; rfl⟩

/-- A string with a line break in it, and a zero with a sign. -/
def brokenLine : Json :=
  .array [.text "one line\nand another", .leaf (.number (.fraction ⟨true, .zero⟩))]

def brokenLineWrite : Query :=
  .set { key := "k", id := "i", payload := some (.object (.ofJson brokenLine)) }

/-- The line break is not seen in the token, and the sign of zero is. -/
theorem compile_geometry_brokenLine :
    brokenLine ∈ brokenLineWrite.objects ∧
      ∃ front, brokenLineWrite.compile =
          .ok ⟨"SET", front ++ ["OBJECT", "[\"one line\\nand another\",-0.0]"]⟩ ∧
        ∀ j, IsText "[\"one line\\nand another\",-0.0]" j ↔ j = brokenLine := by
  have held : brokenLine ∈ brokenLineWrite.objects := List.mem_singleton_self _
  obtain ⟨compiles, shown, -, -, read⟩ := compile_geometry held
  obtain ⟨c, compiled⟩ := compiles.2 nofun
  obtain ⟨front, rfl⟩ := shown c compiled
  have text : brokenLine.compact = "[\"one line\\nand another\",-0.0]" := by
    decide +kernel
  exact ⟨held, front, text ▸ compiled, text ▸ read⟩

end Query

end GeoQuery
