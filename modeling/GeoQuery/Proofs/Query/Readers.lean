import GeoQuery.Cli.Batch
import GeoQuery.Proofs.Json.Render
import GeoQuery.Proofs.Shape.Collapse

namespace GeoQuery

open Json Outcome

namespace Query

theorem plain_shape : shape.plain = true := by decide

theorem ofJsonText_eq_ok_iff {text : String} {q : Query} :
    ofJsonText text = .ok q ↔
      ∃ j, readWhole (read maxDepth) text = .ok j ∧ ∃ value, shape.ofWritten j = .ok value ∧
        ofValue value = q := by
  have reads : ofJsonText text = .ok q ↔
      ∃ value, shape.ofText text = .ok value ∧ ofValue value = q := by
    unfold ofJsonText
    cases shape.ofText text <;> simp
  rw [reads]
  simp only [Shape.ofText_eq_ok_iff plain_shape]
  constructor
  · intro h
    obtain ⟨value, ⟨j, read, accepted⟩, same⟩ := h
    exact ⟨j, read, value, accepted, same⟩
  · intro h
    obtain ⟨j, read, value, accepted, same⟩ := h
    exact ⟨value, ⟨j, read, accepted⟩, same⟩

theorem ofJson_eq_ok_iff {j : Json} {q : Query} :
    ofJson j = .ok q ↔ ∃ value, shape.ofJson j = .ok value ∧ ofValue value = q := map_eq_ok_iff

end Query

theorem Cli.queriesOfText_eq_ok_iff {text : String} {queries : List Query}
    (single : ∀ j, readWhole (read maxDepth) text = .ok j → ∀ items, j ≠ .array items) :
    Cli.queriesOfText text = .ok queries ↔
      ∃ j, readWhole (read maxDepth) text = .ok j ∧ ∃ q, Query.ofJson j.collapse = .ok q ∧
        queries = [q] := by
  cases hread : readWhole (read maxDepth) text with
  | error reason =>
      unfold Cli.queriesOfText Json.ofText
      rw [hread]
      simp [Except.map]
  | ok j =>
      have one : Cli.queriesOfText text =
          ((Query.ofJson j.collapse).map fun query => [query]).mapError .misdescribed := by
        unfold Cli.queriesOfText Json.ofText
        rw [hread]
        cases j with
        | leaf l => rfl
        | array items => exact absurd rfl (single _ hread items)
        | object members => rfl
      rw [one]
      simp only [Except.ok.injEq, exists_eq_left']
      cases Query.ofJson j.collapse <;> simp [Except.map, Except.mapError, eq_comm]

/-- Both readings of a text that describes no array, repeats no name outside of what is kept as JSON
and names the fields of every variant that has some: the tool takes one query from the text, the one
that the library reads, or else both refuse it. -/
theorem ofJsonText_iff_queriesOfText {text : String}
    (regular : ∀ j, readWhole (read maxDepth) text = .ok j →
      (∀ items, j ≠ .array items) ∧ Query.shape.Regular j) :
    (∀ q, Query.ofJsonText text = .ok q ↔ Cli.queriesOfText text = .ok [q]) ∧
      ∀ queries, Cli.queriesOfText text = .ok queries → ∃ q, queries = [q] := by
  have tool (queries : List Query) : Cli.queriesOfText text = .ok queries ↔ _ :=
    Cli.queriesOfText_eq_ok_iff fun j read => (regular j read).1
  refine ⟨fun q => ?_, fun queries h => ?_⟩
  · rw [tool, Query.ofJsonText_eq_ok_iff]
    refine exists_congr fun j => and_congr_right fun read => ?_
    have agree := Query.shape.ofWritten_agrees Query.plain_shape j (regular j read).2
    simp only [agree _, Query.ofJson_eq_ok_iff, List.cons.injEq, and_true]
    constructor
    · intro h
      obtain ⟨value, accepted, rfl⟩ := h
      exact ⟨_, ⟨value, accepted, rfl⟩, rfl⟩
    · intro h
      obtain ⟨q', ⟨value, accepted, rfl⟩, rfl⟩ := h
      exact ⟨value, accepted, rfl⟩
  · obtain ⟨j, -, q, -, rfl⟩ := (tool queries).1 h
    exact ⟨q, rfl⟩

def repeatingJson : Json :=
  .object [("set", .object
    [("key", .leaf (.text "k")), ("id", .leaf (.text "i")),
      ("payload", .object [("object", .object [("a", .leaf .null), ("a", .array [])])])])]

def repeatingText : String :=
  "\x7b\"set\":\x7b\"key\":\"k\",\"id\":\"i\",\"payload\":\x7b\"object\":\x7b\"a\":null,\"a\":[]\x7d\x7d\x7d\x7d"

theorem readWhole_repeatingText : readWhole (read maxDepth) repeatingText = .ok repeatingJson := by
  have text : repeatingJson.compact = repeatingText := by decide +kernel
  rw [← text]
  exact readWhole_compact (by decide)

theorem ofJsonText_iff_queriesOfText_repeated :
    Cli.queriesOfText repeatingText =
      .ok [.set { key := "k", id := "i", payload := some (.object (.ofJson (.object [("a", .array [])]))) }] := by
  have accepted := Query.ofJsonText_eq_ok_iff.2 ⟨_, readWhole_repeatingText, _, rfl, rfl⟩
  refine ((ofJsonText_iff_queriesOfText fun j read => ?_).1 _).1 accepted
  rw [readWhole_repeatingText] at read
  obtain rfl := Except.ok.inj read
  simp [repeatingJson, Shape.Regular, Variants.Regular, Fields.RegularMember]

end GeoQuery
