import GeoQuery.Proofs.Query.Strings

/-!
The words of a line. A command is written with one space between its tokens, so the line splits at its
spaces into the tokens again exactly if no text that comes from the caller has a space. The tokens that
do not come from the caller are keywords, counts, numbers and lists of names, and have none.
-/

namespace GeoQuery

open Text

namespace Text

/-- What stands between the spaces of a text. A word is empty where there are two spaces in a row, or
one at an end. -/
def words (text : String) : List String := (text.toList.splitOn ' ').map String.ofList

theorem words_intercalate_eq_iff {tokens : List String} (nonempty : tokens ≠ []) :
    words (" ".intercalate tokens) = tokens ↔ ∀ token ∈ tokens, ' ' ∉ token.toList := by
  constructor
  · intro same token member
    have inside : token ∈ words (" ".intercalate tokens) := by
      rw [same]
      exact member
    exact not_mem_of_mem_pieces inside
  · intro each
    have split : ([' '].intercalate (tokens.map String.toList)).splitOn ' ' =
        tokens.map String.toList := by
      apply List.splitOn_intercalate
      · simpa using each
      · simpa using nonempty
    have chars : (" ".intercalate tokens).toList = [' '].intercalate (tokens.map String.toList) :=
      String.toList_intercalate
    rw [words, chars, split]
    simp

end Text

namespace Query

/-- The texts of the caller that a command shows: strings, and behind them that of a JSON value. -/
def texts (q : Query) : List String := q.strings ++ q.objects.map Json.compact

theorem tokens_perm {q : Query} {c : Command} (compiled : q.compile = .ok c) :
    ∃ others, c.tokens.Perm (q.texts ++ others) ∧ ∀ token ∈ others, Solid token.toList := by
  obtain ⟨-, rfl⟩ := compile_eq_ok_iff.1 compiled
  obtain ⟨others, same, solid⟩ := q.shows.tokens_perm
  refine ⟨q.name :: others, ?_, List.forall_mem_cons.2 ⟨q.solid_name, solid⟩⟩
  exact (same.cons q.name).trans List.perm_middle.symm

/-- The line of a command splits at its spaces into the name and the arguments, empty ones included,
exactly if none of the texts of the caller that it shows has a space. No other token has one. -/
theorem words_line_eq_iff {q : Query} {c : Command} (compiled : q.compile = .ok c) :
    (Text.words c.line = c.name :: c.args ↔ ∀ text ∈ q.texts, ' ' ∉ text.toList) ∧
      ∃ others, (c.name :: c.args).Perm (q.texts ++ others) ∧ ∀ token ∈ others, ' ' ∉ token.toList := by
  obtain ⟨others, same, solid⟩ := tokens_perm compiled
  have spaceless : ∀ token ∈ others, ' ' ∉ token.toList := by
    intro token member space
    exact lt_irrefl ' ' (solid token member ' ' space)
  refine ⟨?_, others, same, spaceless⟩
  calc Text.words c.line = c.name :: c.args
      ↔ ∀ token ∈ c.tokens, ' ' ∉ token.toList := words_intercalate_eq_iff (List.cons_ne_nil _ _)
    _ ↔ ∀ token ∈ q.texts ++ others, ' ' ∉ token.toList := by simp only [same.mem_iff]
    _ ↔ ∀ text ∈ q.texts, ' ' ∉ text.toList := by
        rw [List.forall_mem_append]
        exact and_iff_left spaceless

def emptyWrite : Query := .set { key := "fleet", id := "", payload := some (.string "") }

theorem words_line_eq_iff_empty :
    ∃ c, emptyWrite.compile = .ok c ∧
      Text.words c.line = ["SET", "fleet", "", "STRING", ""] := by
  have compiled : emptyWrite.compile = .ok ⟨"SET", ["fleet", "", "STRING", ""]⟩ := rfl
  refine ⟨_, compiled, (words_line_eq_iff compiled).1.2 ?_⟩
  simp [texts, strings, objects, emptyWrite, WriteQuery.strings, WriteQuery.objects,
    Payload.strings, Payload.objects]

end Query

end GeoQuery
