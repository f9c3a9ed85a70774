import GeoQuery.Proofs.Cli.Lines
import GeoQuery.Proofs.Command.RoundTrip

namespace GeoQuery

namespace Cli

theorem break_not_mem_compact (j : Json) : '\n' ∉ j.compact.toList := fun member =>
  absurd (Json.printed_compact j '\n' member) (by decide)

/-- A run that accepts queries and writes JSON writes one line for each, with a line break behind it
and no other line break. What is read from a line is the command of its query. -/
theorem run_json {arguments : List String} {stdin : ByteArray} {d : Directory} {o : Options}
    (answer : List String → Answer) {text : String} {queries : List Query}
    (asked : Options.ofArguments? arguments = some o)
    (json : o.json = true) (printed : o.output = none) (given : readInput o stdin d = .ok text)
    (accepted : queriesOfText text = .ok queries) (nonempty : queries ≠ []) :
    ∃ lines, run arguments stdin d answer = ⟨0, String.join (lines.map (· ++ "\n")),
        o.logged [.ofInput o text, .compiled queries.length], "", d⟩ ∧
      Text.lines (run arguments stdin d answer).stdout = lines ++ [""] ∧
      List.Forall₂ (fun q line => ∃ c, q.compile = .ok c ∧ Command.ofJsonText line = .ok c)
        queries lines := by
  obtain ⟨commands, compiled⟩ := exists_commands accepted
  have written := run_of_accepted answer asked printed given accepted compiled nonempty
  refine ⟨commands.map (render o.json), written, ?_, ?_⟩
  · rw [written, Text.lines_join_eq_iff]
    intro line member
    obtain ⟨c, -, rfl⟩ := List.mem_map.1 member
    rw [json, render, if_pos rfl]
    exact break_not_mem_compact _
  · rw [List.forall₂_map_right_iff]
    refine compiled.imp fun q c compiled => ⟨c, compiled, ?_⟩
    rw [json, render, if_pos rfl]
    exact c.ofJsonText_toJson

/-- A line break in a key stays inside the line of its query. -/
theorem run_json_break :
    queriesOfText breakText = .ok [.key (.drop "a\nDROP b")] ∧
    ∃ line, Text.lines (run ["compile", "--json"] breakText.toUTF8 ⟨[]⟩).stdout = [line, ""] ∧
      Command.ofJsonText line = .ok ⟨"DROP", ["a\nDROP b"]⟩ := by
  have accepted := queriesOfText_breakText
  have asked : Options.ofArguments? ["compile", "--json"] = some { json := true } := by decide
  have given := readInput_toUTF8 (o := { json := true }) rfl (not_isBlank_of_accepted accepted) ⟨[]⟩
  obtain ⟨lines, -, split, each⟩ :=
    run_json Answer.complaint asked rfl rfl given accepted (by simp)
  obtain ⟨line, others, ⟨c, compiled, read⟩, rest, rfl⟩ := List.forall₂_cons_left_iff.1 each
  obtain rfl := List.forall₂_nil_left_iff.1 rest
  refine ⟨accepted, line, split, ?_⟩
  rw [read]
  exact compiled.symm.trans rfl

end Cli

end GeoQuery
