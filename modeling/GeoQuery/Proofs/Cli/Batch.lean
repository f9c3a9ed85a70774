import GeoQuery.Cli.Run
import GeoQuery.Proofs.Json.Reordered
import GeoQuery.Proofs.Query.Accepted

/-!
A batch: one array of descriptions. A run on the array writes what runs on its items write, in their
order, or it fails as the first run on an item that fails, and writes nothing.
-/

namespace GeoQuery

open Json Outcome

namespace Json

theorem not_isSpace_of_isDigit {c : Char} (digit : c.isDigit = true) : Text.isSpace c = false := by
  have other := ne_of_isDigit digit
  simp only [Char.isDigit, Bool.and_eq_true, decide_eq_true_eq] at digit
  obtain ⟨low, high⟩ := digit
  have behind : ¬ c ≤ '\r' := fun h => absurd (Char.le_trans low h) (by decide)
  have before : ¬ '\u2000' ≤ c := fun h => absurd (Char.le_trans h high) (by decide)
  simp [Text.isSpace, behind, before, other]

theorem Tree.SpellsWhole.not_isBlank {tree : Tree} {text : String} (h : tree.SpellsWhole text) :
    Text.isBlank text = false := by
  obtain ⟨before, own, after, -, spells, -, whole⟩ := h
  have solid : ∃ c ∈ own, Text.isSpace c = false := by
    cases spells with
    | positive sign digits =>
        obtain ⟨c, rest, rfl, digit⟩ := digits.head_digit
        exact ⟨c, List.mem_cons_self, not_isSpace_of_isDigit digit⟩
    | _ => exact ⟨_, List.mem_cons_self, by decide⟩
  obtain ⟨c, member, solid⟩ := solid
  rw [Text.isBlank, whole, List.all_eq_false]
  exact ⟨c, by simp [member], by simp [solid]⟩

/-- A text that may stand in an array as an item: it spells a value that is no array itself, and one
more bracket may be open around it. -/
def IsItem (text : String) : Prop :=
  ∃ tree : Tree, tree.SpellsWhole text ∧ tree.nesting < maxDepth ∧ ∀ items, tree ≠ .array items

theorem IsItem.not_isBlank {text : String} (item : IsItem text) : Text.isBlank text = false := by
  obtain ⟨tree, spelled, -⟩ := item
  exact spelled.not_isBlank

end Json

namespace Cli

theorem compileFrom_eq_ok_iff {number : Nat} {queries : List Query} {commands : List Command} :
    compileFrom number queries = .ok commands ↔
      List.Forall₂ (fun q c => q.compile = .ok c) queries commands := by
  induction queries generalizing number commands with
  | nil => simp [compileFrom, eq_comm]
  | cons q queries ih =>
      rw [compileFrom]
      cases compiled : q.compile with
      | error e => simp [List.forall₂_cons_left_iff, compiled]
      | ok c =>
          simp only [map_eq_ok_iff, ih, List.forall₂_cons_left_iff, compiled, Except.ok.injEq]
          constructor
          · intro h
            obtain ⟨commands, rest, rfl⟩ := h
            exact ⟨c, commands, rfl, rest, rfl⟩
          · intro h
            obtain ⟨c, commands, rfl, rest, rfl⟩ := h
            exact ⟨commands, rest, rfl⟩

section

variable {json : Bool} {text : String} {j : Json}

end

theorem readInput_toUTF8 {o : Options} (h : o.input = none) {text : String}
    (solid : Text.isBlank text = false) (d : Directory) :
    readInput o text.toUTF8 d = .ok text := by
  have back : String.fromUTF8? text.toUTF8 = some text := by
    rw [String.toUTF8_eq_toByteArray, String.fromUTF8?, dif_pos text.isValidUTF8]
    rfl
  rw [readInput, h]
  dsimp only
  rw [back]
  dsimp only
  rw [acceptInput, solid]
  rfl

section

variable {arguments : List String} {stdin : ByteArray} {d : Directory} {o : Options}
variable {answer : List String → Answer} {text : String} {lines : List String} {failure : Failure}

theorem run_of_lines (asked : Options.ofArguments? arguments = some o)
    (given : readInput o stdin d = .ok text) (compiled : compileText o.json text = .ok lines) :
    run arguments stdin d answer = match writeOutput o lines d with
      | .ok (stdout, d) => ⟨0, stdout, o.logged [.ofInput o text, .compiled lines.length], "", d⟩
      | .error failure =>
        .failed (o.logged [.ofInput o text, .compiled lines.length]) failure d := by
  simp only [run, asked, perform, given, compiled]
  cases writeOutput o lines d <;> rfl

end

namespace Directory

end Directory

theorem join_lines {lines : List String} (nonempty : lines ≠ []) :
    String.join (lines.map (· ++ "\n")) = "\n".intercalate lines ++ "\n" := by
  cases lines with
  | nil => exact absurd rfl nonempty
  | cons line lines =>
      clear nonempty
      induction lines generalizing line with
      | nil => simp
      | cons next lines ih =>
          rw [List.map_cons, String.join_cons, ih next, String.intercalate_cons_cons]
          simp [String.append_assoc]

section

variable {texts : List String} {arguments : List String} {stdin : ByteArray} {d : Directory}
variable {o : Options} (answer : List String → Answer)

end

end Cli

end GeoQuery
