import GeoQuery.Proofs.Query.Accepted
import GeoQuery.Proofs.Shape.Reordered

namespace GeoQuery

open Json Outcome

theorem Json.spellsText_of_plain {chars text : List Char} (same : text = chars ++ ['"'])
    (plain : ∀ c ∈ chars, c ≠ '"' ∧ c ≠ '\\' ∧ ¬ c < ' ') : SpellsText chars text := by
  subst same
  induction chars with
  | nil => exact .closing
  | cons c chars ih =>
      obtain ⟨⟨quote, backslash, printed⟩, others⟩ := List.forall_mem_cons.1 plain
      exact .plain quote backslash printed (ih others)

namespace Json

variable {name s : String} {tree : Tree} {members : List (String × Tree)} {own behind : List Char}

theorem spells_text_of_plain (plain : ∀ c ∈ s.toList, c ≠ '"' ∧ c ≠ '\\' ∧ ¬ c < ' ') :
    (Tree.text s).Spells ('"' :: (s.toList ++ ['"'])) :=
  .text (spellsText_of_plain rfl plain)

theorem spellsMembers_first (plain : ∀ c ∈ name.toList, c ≠ '"' ∧ c ≠ '\\' ∧ ¬ c < ' ')
    (spells : tree.Spells own) (row : SpellsMembers false members behind) :
    SpellsMembers true ((name, tree) :: members)
      ('"' :: (name.toList ++ ['"'] ++ ':' :: (own ++ behind))) :=
  .member leads_first (spellsText_of_plain rfl plain) allBlank_nil allBlank_nil spells row

theorem spellsMembers_later (plain : ∀ c ∈ name.toList, c ≠ '"' ∧ c ≠ '\\' ∧ ¬ c < ' ')
    (spells : tree.Spells own) (row : SpellsMembers false members behind) :
    SpellsMembers false ((name, tree) :: members)
      (',' :: '"' :: (name.toList ++ ['"'] ++ ':' :: (own ++ behind))) :=
  .member leads_later (spellsText_of_plain rfl plain) allBlank_nil allBlank_nil spells row

theorem spellsMembers_end : SpellsMembers false [] ['}'] := .closing allBlank_nil

end Json

namespace Query

theorem keepsIn_shape : shape.keepsIn "object" = true := by decide

theorem ofJsonText_of_reordered_ok {tree tree' : Tree} {text text' : String} {q : Query}
    (same : Reordered Tree.array Tree.object "object" tree tree') (spelled : tree.SpellsWhole text)
    (spelled' : tree'.SpellsWhole text') (accepted : ofJsonText text = .ok q) :
    ofJsonText text' = .ok q := by
  obtain ⟨j, read, value, described, rfl⟩ := ofJsonText_eq_ok_iff_describes.1 accepted
  obtain ⟨within, known⟩ := (spelled.read_iff maxDepth j).1 read
  obtain ⟨j', within', known', moved⟩ := same.value within known
  exact ofJsonText_eq_ok_iff_describes.2 ⟨j', (spelled'.read_iff maxDepth j').2 ⟨within', known'⟩,
    value, moved.moves shape keepsIn_shape value described, rfl⟩

/-- Two spellings of a tree, in which members may stand in another order outside of GeoJSON objects,
are both accepted, as one query with its command, or both refused. -/
theorem ofJsonText_of_reordered {tree tree' : Tree} {text text' : String}
    (same : Reordered Tree.array Tree.object "object" tree tree') (spelled : tree.SpellsWhole text)
    (spelled' : tree'.SpellsWhole text') :
    (∃ q command, ofJsonText text = .ok q ∧ ofJsonText text' = .ok q ∧
        q.compile = .ok command) ∨
      (∃ reason, ofJsonText text = .error (.json reason)) ∧
        ∃ reason, ofJsonText text' = .error (.json reason) := by
  cases outcome : ofJsonText text with
  | ok q =>
      obtain ⟨command, compiled⟩ := compile_of_ofJsonText outcome
      exact .inl ⟨q, command, rfl, ofJsonText_of_reordered_ok same spelled spelled' outcome,
        compiled⟩
  | error e =>
      obtain ⟨reason, rfl⟩ := ofJsonText_eq_error outcome
      cases outcome' : ofJsonText text' with
      | ok q =>
          rw [ofJsonText_of_reordered_ok same.symm spelled' spelled outcome'] at outcome
          cases outcome
      | error e' =>
          obtain ⟨reason', rfl⟩ := ofJsonText_eq_error outcome'
          exact .inr ⟨⟨reason, rfl⟩, reason', rfl⟩

def dropTree (members : List (String × Tree)) : Tree := .object [("key", .object members)]

def dropText : String := "\x7b\"key\":\x7b\"cmd\":\"drop\",\"key\":\"k\"\x7d\x7d"

/-- The tag comes last, and the key is escaped. -/
def dropText' : String := " \x7b\"key\" : \x7b\"key\":\"\\u006b\",\"cmd\":\"drop\"\x7d\x7d\n"

theorem spellsWhole_dropText :
    (dropTree [("cmd", .text "drop"), ("key", .text "k")]).SpellsWhole dropText := by
  have key : SpellsMembers false [("key", .text "k")] _ :=
    spellsMembers_later (by simp) (spells_text_of_plain (by simp)) spellsMembers_end
  have command : SpellsMembers true [("cmd", .text "drop"), ("key", .text "k")] _ :=
    spellsMembers_first (by simp) (spells_text_of_plain (by simp)) key
  have whole : SpellsMembers true [("key", .object [("cmd", .text "drop"), ("key", .text "k")])] _ :=
    spellsMembers_first (by simp) (.object command) spellsMembers_end
  refine ⟨[], _, [], allBlank_nil, .object whole, allBlank_nil, ?_⟩
  decide +kernel

theorem spellsWhole_dropText' :
    (dropTree [("key", .text "k"), ("cmd", .text "drop")]).SpellsWhole dropText' := by
  have space : AllBlank [' '] := by simp [AllBlank, isBlank]
  have line : AllBlank ['\n'] := by simp [AllBlank, isBlank]
  have k : SpellsText "k".toList "\\u006b\"".toList :=
    .unit (n := 0x6b) (by decide) (by decide) (by decide) .closing
  have cmd : SpellsMembers false [("cmd", .text "drop")] _ :=
    spellsMembers_later (by simp) (spells_text_of_plain (by simp)) spellsMembers_end
  have command : SpellsMembers true [("key", .text "k"), ("cmd", .text "drop")] _ :=
    spellsMembers_first (by simp) (.text k) cmd
  have key : SpellsText "key".toList "key\"".toList := spellsText_of_plain rfl (by simp)
  have whole : SpellsMembers true [("key", .object [("key", .text "k"), ("cmd", .text "drop")])] _ :=
    .member leads_first key space space (.object command) spellsMembers_end
  refine ⟨[' '], _, ['\n'], space, .object whole, line, ?_⟩
  decide +kernel

theorem ofJsonText_of_reordered_drop :
    ∃ q command, ofJsonText dropText = .ok q ∧ ofJsonText dropText' = .ok q ∧
      q.compile = .ok command := by
  have swapped : Reordered Tree.array Tree.object "object"
      (dropTree [("cmd", .text "drop"), ("key", .text "k")])
      (dropTree [("key", .text "k"), ("cmd", .text "drop")]) :=
    @Reordered.member _ _ _ _ [] [] _ _ _ (by decide) (.members (.swap _ _ _))
  obtain accepted | ⟨⟨reason, refused⟩, -⟩ :=
    ofJsonText_of_reordered swapped spellsWhole_dropText spellsWhole_dropText'
  · exact accepted
  · have read : (ofJsonText dropText).isOk = true := by decide +kernel
    rw [refused] at read
    cases read

end Query

end GeoQuery
