import GeoQuery.Proofs.Json.Cut
import GeoQuery.Proofs.Json.Tree

/-!
Where a JSON text may be cut. Two parts of it that meet in characters of numbers are cut out of one
number: no other two parts of the grammar meet in such characters.
-/

namespace GeoQuery.Json

/-- A cut that falls strictly inside of a number. -/
def CutsNumber (front back : List Char) : Prop :=
  ∃ before left right after n, front = before ++ left ∧ back = right ++ after ∧
    Quoting.outside.behind before = .outside ∧ left ≠ [] ∧ right ≠ [] ∧
    (Tree.number n).Spells (left ++ right)

/-- A text that ends outside of strings, and that is cut out of numbers only. -/
structure Segmented (text : List Char) : Prop where
  closed : Quoting.outside.behind text = .outside
  cuts : ∀ front back, text = front ++ back → MeetNumeric front back → CutsNumber front back

theorem CutsNumber.extend {front back : List Char} (h : CutsNumber front back) {before : List Char}
    (closed : Quoting.outside.behind before = .outside) (after : List Char) :
    CutsNumber (before ++ front) (back ++ after) := by
  obtain ⟨before', left, right, after', n, rfl, rfl, closed', nonempty, nonempty', spells⟩ := h
  exact ⟨before ++ before', left, right, after' ++ after, n, by simp, by simp,
    by rw [Quoting.behind_append, closed, closed'], nonempty, nonempty', spells⟩

/-- No character of a number, and no quote. -/
def Plain (text : List Char) : Prop := ∀ c ∈ text, isNumeric c = false ∧ c ≠ '"'

instance (text : List Char) : Decidable (Plain text) := List.decidableBAll _ text

theorem Plain.append {x y : List Char} (hx : Plain x) (hy : Plain y) : Plain (x ++ y) :=
  List.forall_mem_append.2 ⟨hx, hy⟩

theorem AllBlank.plain {text : List Char} (h : AllBlank text) : Plain text := by
  intro c member
  have blank := h c member
  simp only [isBlank, Bool.or_eq_true, decide_eq_true_eq] at blank
  obtain ((rfl | rfl) | rfl) | rfl := blank <;> decide

theorem Leads.plain {first : Bool} {lead : List Char} (h : Leads first lead) : Plain lead := by
  cases h with
  | first blank => exact blank.plain
  | later blank blank' =>
      exact blank.plain.append (List.forall_mem_cons.2 ⟨by decide, blank'.plain⟩)

theorem Tree.Spells.numeric {n : Numeral} {text : List Char} (h : (Tree.number n).Spells text) :
    ∀ c ∈ text, isNumeric c = true := by
  cases h with
  | positive sign digits => exact digits.numeric
  | negative sign digits => exact List.forall_mem_cons.2 ⟨by decide, digits.numeric⟩

namespace Segmented

variable {x y : List Char}

theorem of_plain (h : Plain x) : Segmented x := by
  refine ⟨Quoting.outside_behind_of_no_quote fun c member => (h c member).2, ?_⟩
  rintro front back rfl ⟨-, ⟨c, last, numeric⟩, -⟩
  have member : c ∈ front ++ back := List.mem_append_left _ (List.mem_of_getLast? last)
  rw [(h c member).1] at numeric
  cases numeric

theorem single {c : Char} (other : c ≠ '"') : Segmented [c] := by
  refine ⟨by simp [Quoting.next, other], ?_⟩
  rintro front back split ⟨-, ⟨d, last, -⟩, ⟨e, head, -⟩⟩
  have lengths := congrArg List.length split
  cases front with
  | nil => cases last
  | cons d front =>
      cases back with
      | nil => cases head
      | cons e back =>
          simp only [List.length_append, List.length_cons, List.length_nil] at lengths
          omega

theorem append (hx : Segmented x) (hy : Segmented y)
    (apart : (∀ c ∈ x.getLast?, isNumeric c = false) ∨ ∀ c ∈ y.head?, isNumeric c = false) :
    Segmented (x ++ y) := by
  have between : ¬ MeetNumeric x y := by
    rintro ⟨-, ⟨c, last, numeric⟩, d, head, numeric'⟩
    obtain other | other := apart
    · rw [other c last] at numeric
      cases numeric
    · rw [other d head] at numeric'
      cases numeric'
  refine ⟨by rw [Quoting.behind_append, hx.closed, hy.closed], fun front back split meet => ?_⟩
  obtain ⟨middle, rfl, rfl⟩ | ⟨middle, rfl, rfl⟩ := List.append_eq_append_iff.1 split
  · -- The cut is in the second text, or before it.
    cases middle with
    | nil =>
        rw [List.append_nil] at meet
        exact absurd meet between
    | cons c middle =>
        obtain ⟨outside, last, head⟩ := meet
        rw [Quoting.behind_append, hx.closed] at outside
        rw [List.getLast?_append_cons] at last
        have inner := hy.cuts (c :: middle) back rfl ⟨outside, last, head⟩
        simpa using inner.extend hx.closed []
  · -- The cut is in the first text, or behind it.
    cases middle with
    | nil =>
        rw [List.append_nil] at between
        exact absurd meet between
    | cons c middle =>
        have inner := hx.cuts front (c :: middle) rfl meet
        exact @CutsNumber.extend _ _ inner [] rfl y

theorem number {n : Numeral} {text : List Char} (h : (Tree.number n).Spells text) :
    Segmented text := by
  refine ⟨Quoting.outside_behind_of_no_quote fun c member =>
    ne_quote_of_isNumeric (h.numeric c member), ?_⟩
  rintro front back rfl ⟨-, ⟨c, last, -⟩, d, head, -⟩
  refine ⟨[], front, back, [], n, rfl, (List.append_nil _).symm, rfl, ?_, ?_, h⟩
  · rintro rfl
    cases last
  · rintro rfl
    cases head

end Segmented

theorem Quoting.inside_behind_of_no_quote {text : List Char} (h : ∀ c ∈ text, c ≠ '"') :
    inside.behind text ≠ .outside ∧ escaped.behind text ≠ .outside := by
  induction text with
  | nil => exact ⟨nofun, nofun⟩
  | cons c text ih =>
      obtain ⟨first, others⟩ := List.forall_mem_cons.1 h
      obtain ⟨plain, behindSlash⟩ := ih others
      refine ⟨?_, plain⟩
      rw [behind_cons, next, if_neg first]
      split
      · exact behindSlash
      · exact plain

theorem no_quote_of_hexUnit? {a b c d : Char} {unit : Nat} (h : hexUnit? a b c d = some unit) :
    ∀ x ∈ ['\\', 'u', a, b, c, d], x ≠ '"' := by
  have hex : ∀ x ∈ [a, b, c, d], x ≠ '"' := fun x member => by
    obtain ⟨n, value⟩ := hexValues_of_hexUnit? h x member
    exact (ordinary_of_hexValue? value).1
  exact List.forall_mem_cons.2 ⟨by decide, List.forall_mem_cons.2 ⟨by decide, hex⟩⟩

/-- An escape and what follows it: no cut in the escape ends outside of the string. -/
theorem unclosed_behind_unit {a b c d : Char} {unit : Nat} (value : hexUnit? a b c d = some unit)
    {text : List Char}
    (h : ∀ front back, text = front ++ back → Quoting.inside.behind front = .outside → back = [])
    {front back : List Char} (split : ['\\', 'u', a, b, c, d] ++ text = front ++ back)
    (closed : Quoting.inside.behind front = .outside) : back = [] := by
  obtain ⟨middle, rfl, rfl⟩ | ⟨middle, escape, rfl⟩ := List.append_eq_append_iff.1 split
  · rw [Quoting.behind_append, Quoting.inside_behind_unit value] at closed
    exact h middle back rfl closed
  · refine absurd closed (Quoting.inside_behind_of_no_quote fun x member => ?_).1
    exact no_quote_of_hexUnit? value x (escape ▸ List.mem_append_left _ member)

/-- A string is closed by its last character only. -/
theorem SpellsText.unclosed {chars text : List Char} (h : SpellsText chars text) :
    ∀ front back, text = front ++ back → Quoting.inside.behind front = .outside → back = [] := by
  induction h with
  | closing =>
      intro front back split closed
      cases front with
      | nil => cases closed
      | cons c front => exact (List.append_eq_nil_iff.1 (List.cons.inj split).2.symm).2
  | plain quote backslash _ _ ih =>
      intro front back split closed
      cases front with
      | nil => cases closed
      | cons c front =>
          rw [List.cons_append, List.cons.injEq] at split
          obtain ⟨rfl, split⟩ := split
          rw [Quoting.behind_cons, Quoting.next, if_neg quote, if_neg backslash] at closed
          exact ih front back split closed
  | letter _ _ ih =>
      intro front back split closed
      obtain - | ⟨c, - | ⟨e, front⟩⟩ := front
      · cases closed
      · rw [List.cons_append, List.cons.injEq] at split
        obtain ⟨rfl, -⟩ := split
        cases closed
      · simp only [List.cons_append, List.cons.injEq] at split
        obtain ⟨rfl, rfl, split⟩ := split
        exact ih front back split closed
  | unit value _ _ _ ih => exact fun front back => unclosed_behind_unit value ih
  | pair value _ value' _ _ ih =>
      exact fun front back => unclosed_behind_unit value fun front back =>
        unclosed_behind_unit value' ih

theorem Segmented.string {chars text : List Char} (h : SpellsText chars text) :
    Segmented ('"' :: text) := by
  refine ⟨h.closes, ?_⟩
  rintro front back split ⟨outside, ⟨c, last, -⟩, d, head, -⟩
  cases front with
  | nil => cases last
  | cons e front =>
      rw [List.cons_append, List.cons.injEq] at split
      obtain ⟨rfl, split⟩ := split
      obtain rfl := h.unclosed front back split outside
      cases head

theorem Plain.last {text : List Char} (h : Plain text) : ∀ c ∈ text.getLast?, isNumeric c = false :=
  fun c last => (h c (List.mem_of_getLast? last)).1

theorem Plain.head_append {text : List Char} (h : Plain text) (nonempty : text ≠ [])
    (rest : List Char) : ∀ c ∈ (text ++ rest).head?, isNumeric c = false := by
  obtain ⟨d, text, rfl⟩ := List.exists_cons_of_ne_nil nonempty
  rintro c ⟨⟩
  exact (h d List.mem_cons_self).1

theorem plain_closing {blanks : List Char} (blank : AllBlank blanks) {c : Char}
    (bracket : isNumeric c = false ∧ c ≠ '"') : Plain (blanks ++ [c]) :=
  blank.plain.append (by simpa [Plain] using bracket)

theorem Leads.ne_nil {lead : List Char} (h : Leads false lead) : lead ≠ [] := by
  cases h
  simp

theorem SpellsItems.head_plain {items : List Tree} {text : List Char}
    (h : SpellsItems false items text) : ∀ c ∈ text.head?, isNumeric c = false := by
  cases h with
  | closing blank => simpa using (plain_closing blank (by decide)).head_append (by simp) []
  | item leads spells row => exact leads.plain.head_append leads.ne_nil _

theorem SpellsMembers.head_plain {members : List (String × Tree)} {text : List Char}
    (h : SpellsMembers false members text) : ∀ c ∈ text.head?, isNumeric c = false := by
  cases h with
  | closing blank => simpa using (plain_closing blank (by decide)).head_append (by simp) []
  | member leads named blank blank' spells row => exact leads.plain.head_append leads.ne_nil _

mutual

/-- A spelling is cut out of numbers only. -/
theorem Tree.Spells.segmented : (tree : Tree) → {text : List Char} → tree.Spells text →
    Segmented text
  | .null, _, spells => by
      cases spells
      exact .of_plain (by decide)
  | .boolean b, _, spells => by
      cases spells with
      | yes =>
          exact .append (x := ['t', 'r', 'u']) (.of_plain (by decide))
            (.single (by decide)) (.inl (Plain.last (by decide)))
      | no =>
          exact .append (x := ['f', 'a', 'l', 's']) (.of_plain (by decide))
            (.single (by decide)) (.inl (Plain.last (by decide)))
  | .number n, _, spells => .number spells
  | .text s, _, spells => by
      cases spells with
      | text chars => exact .string chars
  | .array items, _, spells => by
      cases spells with
      | array row =>
          exact .append (x := ['[']) (.single (by decide)) (SpellsItems.segmented items row)
            (.inl (Plain.last (by decide)))
  | .object members, _, spells => by
      cases spells with
      | object row =>
          exact .append (x := ['{']) (.single (by decide)) (SpellsMembers.segmented members row)
            (.inl (Plain.last (by decide)))

theorem SpellsItems.segmented : (items : List Tree) → {first : Bool} → {text : List Char} →
    SpellsItems first items text → Segmented text
  | [], _, _, spells => by
      cases spells with
      | closing blank => exact .of_plain (plain_closing blank (by decide))
  | tree :: items, _, _, spells => by
      cases spells with
      | item leads spells row =>
          have behind := SpellsItems.segmented items row
          have own := (Tree.Spells.segmented tree spells).append behind (.inr row.head_plain)
          exact (Segmented.of_plain leads.plain).append own (.inl leads.plain.last)

theorem SpellsMembers.segmented : (members : List (String × Tree)) → {first : Bool} →
    {text : List Char} → SpellsMembers first members text → Segmented text
  | [], _, _, spells => by
      cases spells with
      | closing blank => exact .of_plain (plain_closing blank (by decide))
  | (name, tree) :: members, _, _, spells => by
      cases spells with
      | @member _ _ _ _ lead chars before after own behind leads named blank blank' spells row =>
          have colon : Plain (before ++ ':' :: after) :=
            blank.plain.append (List.forall_mem_cons.2 ⟨by decide, blank'.plain⟩)
          have behind := SpellsMembers.segmented members row
          have own := (Tree.Spells.segmented tree spells).append behind (.inr row.head_plain)
          have valued := (Segmented.of_plain colon).append own (.inl colon.last)
          have whole := (Segmented.string named).append valued
            (.inr (colon.head_append (by simp) _))
          simpa using (Segmented.of_plain leads.plain).append whole (.inl leads.plain.last)

end

theorem CutsNumber.meetNumeric {front back : List Char} (h : CutsNumber front back) :
    MeetNumeric front back := by
  obtain ⟨before, left, right, after, n, rfl, rfl, closed, nonempty, nonempty', spells⟩ := h
  obtain ⟨numeric, numeric'⟩ := List.forall_mem_append.1 spells.numeric
  refine ⟨?_, ⟨left.getLast nonempty, ?_, numeric _ (List.getLast_mem nonempty)⟩,
    right.head nonempty', ?_, numeric' _ (List.head_mem nonempty')⟩
  · rw [Quoting.behind_append, closed]
    exact Quoting.outside_behind_of_no_quote fun c member => ne_quote_of_isNumeric (numeric c member)
  · rw [List.getLast?_append_of_ne_nil _ nonempty]
    exact List.getLast?_eq_getLast_of_ne_nil nonempty
  · rw [List.head?_append_of_ne_nil _ nonempty']
    exact List.head?_eq_some_head nonempty'

/-- In a text that spells a tree, parts that meet in characters of numbers are cut out of a number. -/
theorem Tree.SpellsWhole.cutsNumber {tree : Tree} {text : String} (h : tree.SpellsWhole text)
    {front back : List Char} (split : text.toList = front ++ back)
    (meet : MeetNumeric front back) : CutsNumber front back := by
  obtain ⟨before, own, after, blank, spells, blank', whole⟩ := h
  have own := (Tree.Spells.segmented tree spells).append (.of_plain blank'.plain)
    (.inr fun c head => (blank'.plain c (List.mem_of_head? head)).1)
  have segmented := (Segmented.of_plain blank.plain).append own (.inl blank.plain.last)
  exact segmented.cuts front back (whole ▸ split) meet

end GeoQuery.Json
