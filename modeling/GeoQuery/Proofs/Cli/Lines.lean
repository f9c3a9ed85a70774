import GeoQuery.Proofs.Cli.Batch
import GeoQuery.Proofs.Query.Strings

/-!
The lines of the output. A command is written as it is, so its line break in the output is the only
one exactly if none of the strings that it shows has one.
-/

namespace GeoQuery

open Json Outcome

namespace Text

/-- What stands between the line breaks of a text. The last line is empty if the text ends with a
line break. -/
def lines (text : String) : List String := (text.toList.splitOn '\n').map String.ofList

theorem break_not_mem_of_mem_lines {text line : String} (h : line ∈ lines text) :
    '\n' ∉ line.toList := not_mem_of_mem_pieces h

theorem lines_of_break_not_mem {text : String} (h : '\n' ∉ text.toList) : lines text = [text] := by
  rw [lines, List.splitOn_eq_singleton h, List.map_singleton, String.ofList_toList]

theorem lines_append_break (front back : String) :
    lines (front ++ "\n" ++ back) = lines front ++ lines back := by
  have split : (front ++ "\n" ++ back).toList = front.toList ++ '\n' :: back.toList := by simp
  rw [lines, split, List.splitOn_append_cons_self, List.map_append]
  rfl

theorem lines_join (parts : List String) :
    lines (String.join (parts.map (· ++ "\n"))) = parts.flatMap lines ++ [""] := by
  induction parts with
  | nil => rfl
  | cons part parts ih =>
      rw [List.map_cons, String.join_cons, lines_append_break, ih, List.flatMap_cons,
        List.append_assoc]

/-- Texts written on lines of their own are the lines exactly if there are no breaks in them. -/
theorem lines_join_eq_iff {parts : List String} :
    lines (String.join (parts.map (· ++ "\n"))) = parts ++ [""] ↔
      ∀ part ∈ parts, '\n' ∉ part.toList := by
  constructor
  · intro same part member
    have inside : part ∈ lines (String.join (parts.map (· ++ "\n"))) := by
      rw [same]
      exact List.mem_append_left _ member
    exact break_not_mem_of_mem_lines inside
  · intro each
    rw [lines_join, List.append_cancel_right_eq]
    calc parts.flatMap lines = parts.flatMap fun part => [part] :=
          List.flatMap_congr fun part member => lines_of_break_not_mem (each part member)
      _ = parts := by simp

end Text

namespace Cli

theorem not_isBlank_of_accepted {text : String} {queries : List Query}
    (accepted : queriesOfText text = .ok queries) : Text.isBlank text = false := by
  obtain ⟨j, read, -⟩ := queriesOfText_eq_ok_iff_each.1 accepted
  obtain ⟨written, read, -⟩ := map_eq_ok_iff.1 read
  obtain ⟨tree, spelled⟩ := Tree.exists_spellsWhole_of_readWhole read
  exact spelled.not_isBlank

theorem compileText_of_accepted {json : Bool} {text : String} {queries : List Query}
    {commands : List Command} (accepted : queriesOfText text = .ok queries)
    (compiled : List.Forall₂ (fun q c => q.compile = .ok c) queries commands) :
    compileText json text = .ok (commands.map (render json)) := by
  rw [compileText, accepted]
  change compileFrom 1 queries >>= _ = _
  rw [compileFrom_eq_ok_iff.2 compiled]
  rfl

theorem exists_commands {text : String} {queries : List Query}
    (accepted : queriesOfText text = .ok queries) :
    ∃ commands, List.Forall₂ (fun q c => q.compile = .ok c) queries commands := by
  obtain ⟨commands, compiled⟩ := compileFrom_of_compile (compile_of_queriesOfText accepted) 1
  exact ⟨commands, compileFrom_eq_ok_iff.1 compiled⟩

theorem break_not_mem_line_iff {queries : List Query} {commands : List Command}
    (compiled : List.Forall₂ (fun q c => q.compile = .ok c) queries commands) :
    (∀ line ∈ commands.map Command.line, '\n' ∉ line.toList) ↔
      ∀ q ∈ queries, ∀ s ∈ q.strings, '\n' ∉ s.toList := by
  induction compiled with
  | nil => simp
  | cons head tail ih =>
      have control : '\n' < ' ' := by decide
      have own := Query.mem_line_iff head control
      rw [List.map_cons, List.forall_mem_cons, List.forall_mem_cons, ih, own]
      simp only [not_exists, not_and]

section

variable {arguments : List String} {stdin : ByteArray} {d : Directory} {o : Options}
variable (answer : List String → Answer) {text : String} {queries : List Query}

theorem run_of_accepted {commands : List Command}
    (asked : Options.ofArguments? arguments = some o) (printed : o.output = none)
    (given : readInput o stdin d = .ok text) (accepted : queriesOfText text = .ok queries)
    (compiled : List.Forall₂ (fun q c => q.compile = .ok c) queries commands)
    (nonempty : queries ≠ []) :
    run arguments stdin d answer =
      ⟨0, String.join ((commands.map (render o.json)).map (· ++ "\n")),
        o.logged [.ofInput o text, .compiled queries.length], "", d⟩ := by
  have lines : commands.map (render o.json) ≠ [] := by
    rw [ne_eq, List.map_eq_nil_iff]
    rintro rfl
    exact nonempty (List.forall₂_nil_right_iff.1 compiled)
  rw [run_of_lines asked given (compileText_of_accepted accepted compiled), writeOutput, printed,
    join_lines lines, List.length_map, compiled.length_eq]

/-- A run that accepts queries writes their commands, each with a line break behind it. These are the
lines of the output exactly if no string that a query shows has a line break of its own. -/
theorem run_plain (asked : Options.ofArguments? arguments = some o)
    (plain : o.json = false) (printed : o.output = none)
    (given : readInput o stdin d = .ok text) (accepted : queriesOfText text = .ok queries)
    (nonempty : queries ≠ []) :
    ∃ commands, List.Forall₂ (fun q c => q.compile = .ok c) queries commands ∧
      run arguments stdin d answer =
        ⟨0, String.join (commands.map fun c => c.line ++ "\n"),
          o.logged [.ofInput o text, .compiled queries.length], "", d⟩ ∧
      (Text.lines (run arguments stdin d answer).stdout = commands.map Command.line ++ [""] ↔
        ∀ q ∈ queries, ∀ s ∈ q.strings, '\n' ∉ s.toList) := by
  obtain ⟨commands, compiled⟩ := exists_commands accepted
  have written := run_of_accepted answer asked printed given accepted compiled nonempty
  have render : render false = Command.line := rfl
  rw [plain, render] at written
  refine ⟨commands, compiled, ?_, ?_⟩
  · rw [written, List.map_map]
    rfl
  · rw [written, Text.lines_join_eq_iff, break_not_mem_line_iff compiled]

end

def dropNamed (key : String) : Json :=
  .object [("key", .object [("cmd", .leaf (.text "drop")), ("key", .leaf (.text key))])]

def dropsText : String :=
  "[\x7b\"key\":\x7b\"cmd\":\"drop\",\"key\":\"a\"\x7d\x7d," ++
    "\x7b\"key\":\x7b\"cmd\":\"drop\",\"key\":\"b\"\x7d\x7d]"

theorem queriesOfText_dropsText :
    queriesOfText dropsText = .ok [.key (.drop "a"), .key (.drop "b")] := by
  have text : (Json.array [dropNamed "a", dropNamed "b"]).compact = dropsText := by decide +kernel
  rw [queriesOfText, Json.ofText, ← text, readWhole_compact (by decide)]
  rfl

theorem run_plain_drops :
    ∃ commands, Text.lines (run ["compile"] dropsText.toUTF8 ⟨[]⟩).stdout =
      commands.map Command.line ++ [""] ∧
        List.Forall₂ (fun q c => Query.compile q = .ok c) [.key (.drop "a"), .key (.drop "b")]
          commands := by
  have accepted := queriesOfText_dropsText
  have asked : Options.ofArguments? ["compile"] = some {} := by decide
  have given := readInput_toUTF8 (o := {}) rfl (not_isBlank_of_accepted accepted) ⟨[]⟩
  obtain ⟨commands, compiled, -, lines⟩ :=
    run_plain Answer.complaint asked rfl rfl given accepted (by simp)
  refine ⟨commands, lines.2 ?_, compiled⟩
  simp [Query.strings, KeyQuery.strings]

def breakText : String := "\x7b\"key\":\x7b\"cmd\":\"drop\",\"key\":\"a\\nDROP b\"\x7d\x7d"

theorem queriesOfText_breakText : queriesOfText breakText = .ok [.key (.drop "a\nDROP b")] := by
  have text : (dropNamed "a\nDROP b").compact = breakText := by decide +kernel
  rw [queriesOfText, Json.ofText, ← text, readWhole_compact (by decide)]
  rfl

/-- The query is printed as the commands of two others. -/
theorem run_plain_break :
    queriesOfText breakText = .ok [.key (.drop "a\nDROP b")] ∧
      (run ["compile"] breakText.toUTF8 ⟨[]⟩).stdout =
        (run ["compile"] dropsText.toUTF8 ⟨[]⟩).stdout ∧
      Text.lines (run ["compile"] breakText.toUTF8 ⟨[]⟩).stdout = ["DROP a", "DROP b", ""] := by
  refine ⟨queriesOfText_breakText, by decide +kernel, by decide +kernel⟩

end Cli

end GeoQuery
