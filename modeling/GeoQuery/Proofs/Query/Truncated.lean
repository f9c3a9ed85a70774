import GeoQuery.Proofs.Json.Places
import GeoQuery.Proofs.Query.Accepted
import GeoQuery.Proofs.Shape.Resume

namespace GeoQuery

open Json Outcome

namespace Json

def trimmed (text : String) : String := String.ofList (text.toList.rdropWhile isBlank)

theorem rdropWhile_append_blanks {blanks : List Char} (blank : AllBlank blanks)
    (front : List Char) : (front ++ blanks).rdropWhile isBlank = front.rdropWhile isBlank := by
  have reversed : ∀ c ∈ blanks.reverse, isBlank c = true :=
    fun c member => blank c (List.mem_reverse.1 member)
  rw [List.rdropWhile, List.reverse_append, List.dropWhile_append_of_pos reversed, List.rdropWhile]

section

variable {α : Type} {reader : Reader α} {front back text rest : List Char} {a : α}

/-- A reader that leaves only blanks of a whole text has not finished a part of it that lacks more
than blanks. -/
theorem unfinished_of_resumes (resumes : Resumes reader)
    (whole : reader (front ++ back) = .ok (a, rest)) (ended : AllBlank rest)
    (solid : ¬ AllBlank back) (parted : ¬ MeetNumeric front back) :
    ∃ fault, reader front = .error fault ∧ fault.cause.category = .unfinished := by
  have goesOn := (resumes front).goesOn back parted
  cases own : reader front with
  | ok pair =>
      obtain ⟨b, left⟩ := pair
      rw [own, whole] at goesOn
      obtain ⟨rfl, rfl⟩ := Prod.mk.inj (Except.ok.inj goesOn)
      exact absurd (fun c member => ended c (List.mem_append_right left member)) solid
  | error fault =>
      rw [own, whole] at goesOn
      obtain unfinished | ⟨fault', refused⟩ := goesOn
      · exact ⟨fault, rfl, unfinished⟩
      · cases refused

theorem readWhole_append_of_ok (resumes : Resumes reader) {text more : String}
    (accepted : readWhole reader text = .ok a) (solid : ¬ AllBlank more.toList)
    (parted : ¬ MeetNumeric text.toList more.toList) :
    ∃ reason, readWhole reader (text ++ more) = .error reason := by
  obtain ⟨rest, read, ended⟩ := readWhole_eq_ok_iff.1 accepted
  cases outcome : readWhole reader (text ++ more) with
  | error reason => exact ⟨reason, rfl⟩
  | ok b =>
      obtain ⟨rest', whole, ended'⟩ := readWhole_eq_ok_iff.1 outcome
      rw [String.toList_append] at whole
      obtain ⟨fault, refused, -⟩ := unfinished_of_resumes resumes whole
        (skipBlanks_eq_nil_iff.1 ended') solid parted
      rw [read] at refused
      cases refused

theorem readWhole_unfinished (resumes : Resumes reader) {front back : String}
    (accepted : readWhole reader (front ++ back) = .ok a) (solid : ¬ AllBlank back.toList)
    (parted : ¬ MeetNumeric front.toList back.toList) :
    ∃ reason, readWhole reader front = .error reason ∧ reason.cause.category = .unfinished := by
  obtain ⟨rest, whole, ended⟩ := readWhole_eq_ok_iff.1 accepted
  rw [String.toList_append] at whole
  obtain ⟨fault, refused, unfinished⟩ := unfinished_of_resumes resumes whole
    (skipBlanks_eq_nil_iff.1 ended) solid parted
  exact ⟨.ofFault front.toList fault, by rw [readWhole, refused], unfinished⟩

end

end Json

theorem Json.SpellsMembers.last_brace {members : List (String × Tree)} {first : Bool}
    {text : List Char} (h : SpellsMembers first members text) :
    ∃ inside, text = inside ++ ['}'] := by
  induction members generalizing first text with
  | nil =>
      cases h with
      | closing blank => exact ⟨_, rfl⟩
  | cons member members ih =>
      cases h with
      | @member _ _ _ _ lead chars before after own _ leads named blank blank' spells row =>
          obtain ⟨inside, rfl⟩ := ih row
          exact ⟨lead ++ '"' :: (chars ++ (before ++ ':' :: (after ++ (own ++ inside)))), by simp⟩

theorem Json.Tree.Spells.last_brace {tree : Tree} {text : List Char} (h : tree.Spells text)
    {members : List (String × Json)} (value : tree.json? = some (.object members)) :
    ∃ inside, text = inside ++ ['}'] := by
  cases h with
  | object row =>
      obtain ⟨inside, rfl⟩ := row.last_brace
      exact ⟨'{' :: inside, rfl⟩
  | positive | negative | array row =>
      obtain ⟨_, -, other⟩ := Option.map_eq_some_iff.1 value
      cases other
  | null | yes | no | text chars => cases value

theorem Variants.carrying_of_ofName {known name : String} {way : Carrying} {carried : Shape}
    {rest : Variants} {value : (Variants.carrying known way carried rest).Value}
    (h : (Variants.carrying known way carried rest).ofName name = .ok value) :
    ∃ value', rest.ofName name = .ok value' := by
  rw [Variants.ofName] at h
  split at h
  · cases h
  · obtain ⟨value', named, -⟩ := map_eq_ok_iff.1 h
    exact ⟨value', named⟩

namespace Query

theorem object_of_ofWritten {j : Json} {value : shape.Value} (h : shape.ofWritten j = .ok value) :
    ∃ members, j = .object members := by
  cases j with
  | object members => exact ⟨members, rfl⟩
  | array items => cases h
  | leaf l =>
      cases l with
      | text s =>
          obtain ⟨name, -, named⟩ := bind_eq_ok_iff.1 h
          obtain ⟨_, named⟩ := Variants.carrying_of_ofName named
          obtain ⟨_, named⟩ := Variants.carrying_of_ofName named
          obtain ⟨_, named⟩ := Variants.carrying_of_ofName named
          obtain ⟨_, named⟩ := Variants.carrying_of_ofName named
          cases named
      | _ => cases h

/-- An accepted description is an object, so it ends with a brace. -/
theorem spells_of_ofJsonText {text : String} {q : Query} (h : ofJsonText text = .ok q) :
    ∃ (tree : Tree) (before inside after : List Char), AllBlank before ∧ AllBlank after ∧
      tree.Spells (inside ++ ['}']) ∧ text.toList = before ++ (inside ++ ['}'] ++ after) := by
  obtain ⟨j, read, value, accepted, -⟩ := ofJsonText_eq_ok_iff.1 h
  obtain ⟨members, rfl⟩ := object_of_ofWritten accepted
  obtain ⟨tree, spelled⟩ := Tree.exists_spellsWhole_of_readWhole read
  have known := ((spelled.read_iff maxDepth _).1 read).2
  obtain ⟨before, own, after, blank, spells, blank', whole⟩ := spelled
  obtain ⟨inside, rfl⟩ := spells.last_brace known
  exact ⟨tree, before, inside, after, blank, blank', spells, whole⟩

theorem trimmed_of_ofJsonText {text : String} {q : Query} (h : ofJsonText text = .ok q) :
    (∃ front, (trimmed text).toList = front ++ ['}']) ∧ ofJsonText (trimmed text) = .ok q := by
  obtain ⟨tree, before, inside, after, blank, blank', spells, whole⟩ := spells_of_ofJsonText h
  have short : (trimmed text).toList = before ++ (inside ++ ['}']) := by
    have text : text.toList = before ++ inside ++ ['}'] ++ after := by rw [whole]; simp
    rw [trimmed, String.toList_ofList, text, rdropWhile_append_blanks blank',
      List.rdropWhile_concat_neg _ _ _ (by decide), List.append_assoc]
  refine ⟨⟨before ++ inside, by rw [short, List.append_assoc]⟩, ?_⟩
  have same (j : Json) : readWhole (read maxDepth) (trimmed text) = .ok j ↔
      readWhole (read maxDepth) text = .ok j := by
    rw [Tree.SpellsWhole.read_iff ⟨before, _, after, blank, spells, blank', whole⟩,
      Tree.SpellsWhole.read_iff ⟨before, _, [], blank, spells, nofun, by rw [short]; simp⟩]
  rw [ofJsonText_eq_ok_iff] at h ⊢
  simpa only [same] using h

theorem not_meetNumeric_of_ofJsonText {text : String} {q : Query} (h : ofJsonText text = .ok q)
    (back : List Char) : ¬ MeetNumeric text.toList back := by
  obtain ⟨tree, before, inside, after, -, blank, -, whole⟩ := spells_of_ofJsonText h
  have plain : Plain ('}' :: after) := List.forall_mem_cons.2 ⟨by decide, blank.plain⟩
  have ending : text.toList = (before ++ inside) ++ '}' :: after := by
    rw [whole]
    simp
  rw [ending]
  rintro ⟨-, ⟨c, last, numeric⟩, -⟩
  rw [List.getLast?_append_cons] at last
  rw [plain.last c last] at numeric
  cases numeric

theorem exists_value_of_ofJsonText {text : String} {q : Query} (h : ofJsonText text = .ok q) :
    ∃ value, readWhole (shape.read maxDepth) text = .ok value := by
  unfold ofJsonText Shape.ofText at h
  split at h
  · next value read => exact ⟨value, read⟩
  · cases h

theorem ofJsonText_of_error {text : String} {reason : Json.Error}
    (h : readWhole (shape.read maxDepth) text = .error reason) :
    ofJsonText text = .error (.json reason) := by
  rw [ofJsonText, Shape.ofText, h]

theorem ofJsonText_append_of_ok {text more : String} {q : Query} (accepted : ofJsonText text = .ok q)
    (solid : ¬ AllBlank more.toList) :
    ∃ reason, ofJsonText (text ++ more) = .error (.json reason) := by
  obtain ⟨value, read⟩ := exists_value_of_ofJsonText accepted
  obtain ⟨reason, refused⟩ := readWhole_append_of_ok (shape.read_resumes plain_shape maxDepth) read
    solid (not_meetNumeric_of_ofJsonText accepted _)
  exact ⟨reason, ofJsonText_of_error refused⟩

theorem ofJsonText_of_cut {front back : String} {q : Query}
    (accepted : ofJsonText (front ++ back) = .ok q) (solid : ¬ AllBlank back.toList) :
    ∃ reason, ofJsonText front = .error (.json reason) ∧
      (¬ CutsNumber front.toList back.toList → reason.cause.category = .unfinished) := by
  by_cases meet : MeetNumeric front.toList back.toList
  · obtain ⟨j, read, -⟩ := ofJsonText_eq_ok_iff.1 accepted
    obtain ⟨tree, spelled⟩ := Tree.exists_spellsWhole_of_readWhole read
    have cut := spelled.cutsNumber (String.toList_append ..) meet
    cases outcome : ofJsonText front with
    | ok q' => exact absurd meet (not_meetNumeric_of_ofJsonText outcome _)
    | error e =>
        obtain ⟨reason, rfl⟩ := ofJsonText_eq_error outcome
        exact ⟨reason, rfl, fun other => absurd cut other⟩
  · obtain ⟨value, read⟩ := exists_value_of_ofJsonText accepted
    obtain ⟨reason, refused, unfinished⟩ :=
      readWhole_unfinished (shape.read_resumes plain_shape maxDepth) read solid meet
    exact ⟨reason, ofJsonText_of_error refused, fun _ => unfinished⟩

/-- An accepted description without the blanks at its end. Cut short, it is refused, and as
unfinished unless the cut is inside of a number; followed by more than blanks, it is refused too. So
one accepted description begins with another one only if it has more blanks at its end. -/
theorem ofJsonText_of_accepted {text : String} {q : Query} (accepted : ofJsonText text = .ok q) :
    (∀ front back, trimmed text = front ++ back → back ≠ "" →
      ∃ reason, ofJsonText front = .error (.json reason) ∧
        (¬ CutsNumber front.toList back.toList → reason.cause.category = .unfinished)) ∧
    (∀ more, ¬ AllBlank more.toList →
      ∃ reason, ofJsonText (trimmed text ++ more) = .error (.json reason)) ∧
    ∀ more q', ofJsonText (text ++ more) = .ok q' → AllBlank more.toList := by
  obtain ⟨⟨inside, brace⟩, short⟩ := trimmed_of_ofJsonText accepted
  refine ⟨fun front back split nonempty => ?_, fun more => ofJsonText_append_of_ok short,
    fun more q' longer => ?_⟩
  · have solid : ¬ AllBlank back.toList := by
      intro blank
      have last : back.toList.getLast? = some '}' := by
        have whole := congrArg List.getLast? brace
        rw [split, String.toList_append, List.getLast?_append_of_ne_nil _ (by simpa using nonempty),
          List.getLast?_concat] at whole
        exact whole
      exact absurd (blank '}' (List.mem_of_getLast? last)) (by decide)
    exact ofJsonText_of_cut (split ▸ short) solid
  · by_contra solid
    obtain ⟨reason, refused⟩ := ofJsonText_append_of_ok accepted solid
    rw [longer] at refused
    cases refused

def expireText : String :=
  "\x7b\"key\":\x7b\"cmd\":\"expire\",\"key\":\"k\",\"id\":\"i\",\"seconds\":10\x7d\x7d\n"

theorem ofJsonText_of_accepted_expire :
    (∃ reason, ofJsonText "\x7b\"key\":\x7b\"cmd\":\"ex" = .error (.json reason) ∧
      reason.cause.category = .unfinished) ∧
    (∃ reason, ofJsonText
      "\x7b\"key\":\x7b\"cmd\":\"expire\",\"key\":\"k\",\"id\":\"i\",\"seconds\":1" =
        .error (.json reason)) ∧
    ∃ reason, ofJsonText (trimmed expireText ++ "\n\x7d") = .error (.json reason) := by
  have taken : (ofJsonText expireText).isOk = true := by decide +kernel
  obtain ⟨q, accepted⟩ := exists_eq_ok_of_isOk taken
  obtain ⟨cut, followed, -⟩ := ofJsonText_of_accepted accepted
  obtain ⟨reason, refused, unfinished⟩ := cut "\x7b\"key\":\x7b\"cmd\":\"ex"
    "pire\",\"key\":\"k\",\"id\":\"i\",\"seconds\":10\x7d\x7d" (by decide +kernel) (by decide)
  obtain ⟨reason', refused', -⟩ := cut
    "\x7b\"key\":\x7b\"cmd\":\"expire\",\"key\":\"k\",\"id\":\"i\",\"seconds\":1" "0\x7d\x7d"
    (by decide +kernel) (by decide)
  refine ⟨⟨reason, refused, unfinished fun cut => ?_⟩, ⟨reason', refused'⟩, followed _ ?_⟩
  · exact absurd cut.meetNumeric.1 (by decide)
  · exact fun blank => absurd (blank '}' (by simp)) (by decide)

end Query

end GeoQuery
