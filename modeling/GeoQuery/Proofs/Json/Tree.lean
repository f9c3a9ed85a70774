import GeoQuery.Proofs.Json.Render
import GeoQuery.Proofs.Json.Spelling

/-!
The grammar of JSON texts. A tree is what a text denotes when its numerals are kept as they are
written; a tree has many spellings, which differ in blanks, in escapes and in the exponents of
numerals. The reader reads every spelling of a tree alike, and reads nothing else.
-/

namespace GeoQuery.Json

open Outcome

/-- A JSON value whose numbers are numerals. -/
inductive Tree
  | null
  | boolean (b : Bool)
  | number (n : Numeral)
  | text (s : String)
  | array (items : List Tree)
  | object (members : List (String × Tree))

namespace Tree

mutual

/-- The value of a tree, if none of its numbers is out of range. -/
def json? : Tree → Option Json
  | .null => some Json.null
  | .boolean b => some (.leaf (.boolean b))
  | .number n => n.value?.map fun number => .leaf (.number number)
  | .text s => some (.leaf (.text s))
  | .array items => (jsonItems? items).map .array
  | .object members => (jsonMembers? members).map .object

def jsonItems? : List Tree → Option (List Json)
  | [] => some []
  | tree :: items => do return (← tree.json?) :: (← jsonItems? items)

def jsonMembers? : List (String × Tree) → Option (List (String × Json))
  | [] => some []
  | (name, tree) :: members => do return (name, ← tree.json?) :: (← jsonMembers? members)

end

mutual

def nesting : Tree → Nat
  | .null | .boolean _ | .number _ | .text _ => 0
  | .array items => nestingItems items + 1
  | .object members => nestingMembers members + 1

def nestingItems : List Tree → Nat
  | [] => 0
  | tree :: items => max tree.nesting (nestingItems items)

def nestingMembers : List (String × Tree) → Nat
  | [] => 0
  | (_, tree) :: members => max tree.nesting (nestingMembers members)

end

end Tree

/-- What stands before an item or a member: blanks, and a comma among them if it is not the first. -/
inductive Leads : Bool → List Char → Prop
  | first {blanks : List Char} (blank : AllBlank blanks) : Leads true blanks
  | later {before after : List Char} (blank : AllBlank before) (blank' : AllBlank after) :
      Leads false (before ++ ',' :: after)

theorem allBlank_nil : AllBlank [] := nofun

theorem leads_first : Leads true [] := .first allBlank_nil

theorem leads_later : Leads false [','] := .later allBlank_nil allBlank_nil

mutual

inductive Tree.Spells : Tree → List Char → Prop
  | null : Tree.Spells .null ['n', 'u', 'l', 'l']
  | yes : Tree.Spells (.boolean true) ['t', 'r', 'u', 'e']
  | no : Tree.Spells (.boolean false) ['f', 'a', 'l', 's', 'e']
  | positive {n : Numeral} {text : List Char} (sign : n.negative = false) (digits : n.Spells text) :
      Tree.Spells (.number n) text
  | negative {n : Numeral} {text : List Char} (sign : n.negative = true) (digits : n.Spells text) :
      Tree.Spells (.number n) ('-' :: text)
  | text {s : String} {inside : List Char} (chars : SpellsText s.toList inside) :
      Tree.Spells (.text s) ('"' :: inside)
  | array {items : List Tree} {inside : List Char} (row : SpellsItems true items inside) :
      Tree.Spells (.array items) ('[' :: inside)
  | object {members : List (String × Tree)} {inside : List Char}
      (row : SpellsMembers true members inside) : Tree.Spells (.object members) ('{' :: inside)

inductive SpellsItems : Bool → List Tree → List Char → Prop
  | closing {first : Bool} {blanks : List Char} (blank : AllBlank blanks) :
      SpellsItems first [] (blanks ++ [']'])
  | item {first : Bool} {tree : Tree} {items : List Tree} {lead own behind : List Char}
      (leads : Leads first lead) (spells : tree.Spells own) (row : SpellsItems false items behind) :
      SpellsItems first (tree :: items) (lead ++ (own ++ behind))

inductive SpellsMembers : Bool → List (String × Tree) → List Char → Prop
  | closing {first : Bool} {blanks : List Char} (blank : AllBlank blanks) :
      SpellsMembers first [] (blanks ++ ['}'])
  | member {first : Bool} {name : String} {tree : Tree} {members : List (String × Tree)}
      {lead chars before after own behind : List Char} (leads : Leads first lead)
      (named : SpellsText name.toList chars) (blank : AllBlank before) (blank' : AllBlank after)
      (spells : tree.Spells own) (row : SpellsMembers false members behind) :
      SpellsMembers first ((name, tree) :: members)
        (lead ++ '"' :: (chars ++ (before ++ ':' :: (after ++ (own ++ behind)))))

end

/-- A whole text that spells a tree: blanks may stand around it. -/
def Tree.SpellsWhole (tree : Tree) (text : String) : Prop :=
  ∃ before own after, AllBlank before ∧ tree.Spells own ∧ AllBlank after ∧
    text.toList = before ++ (own ++ after)

theorem Numeral.Spells.head_digit {n : Numeral} {text : List Char} (h : n.Spells text) :
    ∃ c rest, text = c :: rest ∧ c.isDigit = true := by
  obtain ⟨wellFormed, tail, rfl, -⟩ := h
  have digits := wellFormed.whole_digits
  obtain zero | ⟨first, others, whole, -⟩ := wellFormed.whole_head
  · rw [zero]
    exact ⟨_, _, rfl, by decide⟩
  · rw [whole] at digits ⊢
    exact ⟨_, _, rfl, digits first List.mem_cons_self⟩

theorem ne_of_isDigit {c : Char} (digit : c.isDigit = true) (d : Char)
    (other : d.isDigit = false) : c ≠ d := by
  rintro rfl
  rw [digit] at other
  cases other

theorem scanFound_digit {c : Char} (digit : c.isDigit = true) (rest : List Char) :
    scanFound (c :: rest) =
      (Numeral.read false (c :: rest)).map fun (n, rest) => (.leaf (.number n), rest) := by
  simp [scanFound, skipBlanks_cons (not_blank_of_isDigit digit), digit, ne_of_isDigit digit]

theorem Tree.Spells.head {tree : Tree} {text : List Char} (h : tree.Spells text) :
    ∃ c rest, text = c :: rest ∧ isBlank c = false ∧ c ≠ ']' := by
  cases h with
  | positive sign digits =>
      obtain ⟨c, rest, rfl, digit⟩ := digits.head_digit
      exact ⟨c, rest, rfl, not_blank_of_isDigit digit, ne_of_isDigit digit _ (by decide)⟩
  | _ => exact ⟨_, _, rfl, by decide, by decide⟩

section Rows

variable {first : Bool} {lead rest : List Char}

theorem ends_of_blanks {blanks : List Char} (blank : AllBlank blanks) (h : Ends rest) :
    Ends (blanks ++ rest) := by
  cases blanks with
  | nil => exact h
  | cons c blanks =>
      have solid := blank c List.mem_cons_self
      refine ends_cons ?_ _
      simp only [isBlank, Bool.or_eq_true, decide_eq_true_eq] at solid
      obtain ((rfl | rfl) | rfl) | rfl := solid <;> decide

theorem Leads.ends (h : Leads false lead) (rest : List Char) : Ends (lead ++ rest) := by
  cases h with
  | later blank blank' =>
      rw [List.append_assoc]
      exact ends_of_blanks blank (ends_cons (by decide) _)

theorem SpellsItems.ends {items : List Tree} {text : List Char} (h : SpellsItems false items text)
    (rest : List Char) : Ends (text ++ rest) := by
  cases h with
  | closing blank =>
      rw [List.append_assoc]
      exact ends_of_blanks blank (ends_cons (by decide) _)
  | item leads spells row =>
      rw [List.append_assoc]
      exact leads.ends _

theorem SpellsMembers.ends {members : List (String × Tree)} {text : List Char}
    (h : SpellsMembers false members text) (rest : List Char) : Ends (text ++ rest) := by
  cases h with
  | closing blank =>
      rw [List.append_assoc]
      exact ends_of_blanks blank (ends_cons (by decide) _)
  | member leads named blank blank' spells row =>
      rw [List.append_assoc]
      exact leads.ends _

theorem Leads.nextItem_eq (h : Leads first lead) {c : Char} (solid : isBlank c = false)
    (other : c ≠ ']') (rest : List Char) :
    nextItem first (lead ++ c :: rest) = .ok (true, c :: rest) := by
  cases h with
  | first blank => simp [nextItem, blank.skipBlanks_eq solid]
  | later blank blank' =>
      rw [List.append_assoc, List.cons_append]
      simp [nextItem, blank.skipBlanks_eq (show isBlank ',' = false by decide),
        blank'.skipBlanks_eq solid, other]

theorem Leads.nextMember_eq (h : Leads first lead) (rest : List Char) :
    nextMember first (lead ++ '"' :: rest) = scanName rest := by
  have solid : isBlank '"' = false := by decide
  cases h with
  | first blank => simp [nextMember, blank.skipBlanks_eq solid]
  | later blank blank' =>
      rw [List.append_assoc, List.cons_append]
      simp [nextMember, blank.skipBlanks_eq (show isBlank ',' = false by decide),
        blank'.skipBlanks_eq solid]

end Rows

theorem read_blanks_append {blanks : List Char} (blank : AllBlank blanks) (depth : Nat)
    (text : List Char) : read depth (blanks ++ text) = read depth text := by
  have same : scanFound (blanks ++ text) = scanFound text := by
    rw [← scanFound_skipBlanks, blank.skipBlanks_append, scanFound_skipBlanks]
  cases depth <;> simp only [read, readWith, same]

theorem read_leaf_iff {depth : Nat} {text rest back : List Char} {l : Leaf} {j : Json}
    (found : scanFound text = .ok (.leaf l, rest)) :
    read depth text = .ok (j, back) ↔ j = .leaf l ∧ back = rest := by
  rw [read_leaf found]
  simp [eq_comm]

theorem read_number_iff {depth : Nat} {text : List Char} {scanned : Except Fault (Number × List Char)}
    (found : scanFound text = scanned.map fun (n, rest) => (.leaf (.number n), rest)) {j : Json}
    {back : List Char} :
    read depth text = .ok (j, back) ↔
      ∃ number, scanned = .ok (number, back) ∧ j = .leaf (.number number) := by
  cases scanned with
  | error fault => simp [read_fault found]
  | ok pair =>
      obtain ⟨number, rest⟩ := pair
      rw [read_leaf_iff found]
      simp only [Except.ok.injEq, Prod.mk.injEq]
      constructor
      · intro h
        obtain ⟨rfl, rfl⟩ := h
        exact ⟨number, ⟨rfl, rfl⟩, rfl⟩
      · intro h
        obtain ⟨_, ⟨rfl, rfl⟩, rfl⟩ := h
        exact ⟨rfl, rfl⟩

theorem succ_le_iff_exists {n depth : Nat} :
    n + 1 ≤ depth ↔ ∃ inner, depth = inner + 1 ∧ n ≤ inner := by
  constructor
  · intro h
    obtain ⟨inner, rfl⟩ := Nat.exists_eq_add_one_of_ne_zero (show depth ≠ 0 by omega)
    exact ⟨inner, rfl, Nat.le_of_succ_le_succ h⟩
  · intro h
    obtain ⟨inner, rfl, within⟩ := h
    exact Nat.succ_le_succ within

theorem bracket_iff {α : Type} {n depth : Nat} {x : Option α} {f : α → Json} {j : Json} {p : Prop} :
    (∃ inner a, depth = inner + 1 ∧ (n ≤ inner ∧ x = some a ∧ p) ∧ j = f a) ↔
      n + 1 ≤ depth ∧ x.map f = some j ∧ p := by
  rw [Option.map_eq_some_iff, succ_le_iff_exists]
  constructor
  · intro h
    obtain ⟨inner, a, rfl, ⟨within, value, side⟩, rfl⟩ := h
    exact ⟨⟨inner, rfl, within⟩, ⟨a, value, rfl⟩, side⟩
  · intro h
    obtain ⟨⟨inner, rfl, within⟩, ⟨a, value, rfl⟩, side⟩ := h
    exact ⟨inner, a, rfl, ⟨within, value, side⟩, rfl⟩

theorem some_pair_iff {α β γ : Type} {x : Option α} {y : Option β} {f : α → β → γ} {c : γ} :
    (do return f (← x) (← y)) = some c ↔ ∃ a b, x = some a ∧ y = some b ∧ f a b = c := by
  cases x <;> cases y <;> simp

theorem Tree.Spells.scanFound_number {n : Numeral} {text : List Char}
    (h : (Tree.number n).Spells text) (rest : List Char) :
    ∃ digits, n.Spells digits ∧
      scanFound (text ++ rest) = (Numeral.read n.negative (digits ++ rest)).map
        fun (n, rest) => (.leaf (.number n), rest) := by
  cases h with
  | positive sign digits =>
      refine ⟨_, digits, ?_⟩
      obtain ⟨c, tail, rfl, digit⟩ := digits.head_digit
      rw [sign]
      exact scanFound_digit digit (tail ++ rest)
  | negative sign digits =>
      refine ⟨_, digits, ?_⟩
      rw [sign]
      rfl

mutual

/-- A tree is read from each of its spellings, if as many brackets may be open and no number is out
of range. -/
theorem Tree.read_iff : (tree : Tree) → {spelling : List Char} → tree.Spells spelling →
    {rest : List Char} → Ends rest → (depth : Nat) → (j : Json) → (back : List Char) →
    (read depth (spelling ++ rest) = .ok (j, back) ↔
      tree.nesting ≤ depth ∧ tree.json? = some j ∧ back = rest)
  | .null, spelling, spells, rest, _, depth, j, back => by
      have found : scanFound (spelling ++ rest) = .ok (.leaf .null, rest) := by
        cases spells
        rfl
      rw [read_leaf_iff found]
      simp [nesting, json?, Json.null, eq_comm]
  | .boolean b, spelling, spells, rest, _, depth, j, back => by
      have found : scanFound (spelling ++ rest) = .ok (.leaf (.boolean b), rest) := by
        cases spells <;> rfl
      rw [read_leaf_iff found]
      simp [nesting, json?, eq_comm]
  | .number n, spelling, spells, rest, ends, depth, j, back => by
      -- Nothing in a numeral marks its end, so what follows must not go on with it.
      obtain ⟨digits, spelled, found⟩ := spells.scanFound_number rest
      simp only [read_number_iff found, spelled.read_eq ends, nesting, json?,
        Option.map_eq_some_iff, Nat.zero_le, true_and]
      constructor
      · intro h
        obtain ⟨number, ⟨value, rfl⟩, rfl⟩ := h
        exact ⟨⟨number, value, rfl⟩, rfl⟩
      · intro h
        obtain ⟨⟨number, value, rfl⟩, rfl⟩ := h
        exact ⟨number, ⟨value, rfl⟩, rfl⟩
  | .text s, spelling, spells, rest, _, depth, j, back => by
      have found : scanFound (spelling ++ rest) = .ok (.leaf (.text s), rest) := by
        cases spells with
        | text chars =>
            exact scanFound_text_iff.2 ⟨_, skipBlanks_cons (by decide) _,
              scanString_eq_ok_iff.2 ⟨_, rfl, chars⟩⟩
      rw [read_leaf_iff found]
      simp [nesting, json?, eq_comm]
  | .array items, spelling, spells, rest, _, depth, j, back => by
      cases spells with
      | @array _ inside row =>
          have found := scanFound_array_iff.2
            ⟨inside ++ rest, skipBlanks_cons (show isBlank '[' = false by decide) _, rfl⟩
          rw [List.cons_append, read_array_iff found]
          simp only [List.tail_cons, Tree.itemsRow_iff items row]
          exact bracket_iff
  | .object members, spelling, spells, rest, _, depth, j, back => by
      cases spells with
      | @object _ inside row =>
          have found := scanFound_object_iff.2
            ⟨inside ++ rest, skipBlanks_cons (show isBlank '\x7b' = false by decide) _, rfl⟩
          rw [List.cons_append, read_object_iff found]
          simp only [List.tail_cons, Tree.membersRow_iff members row]
          exact bracket_iff

theorem Tree.itemsRow_iff : (items : List Tree) → {first : Bool} → {spelling : List Char} →
    SpellsItems first items spelling → {rest : List Char} → (depth : Nat) → (values : List Json) →
    (back : List Char) → (ItemsRow (read depth) first (spelling ++ rest) values back ↔
      nestingItems items ≤ depth ∧ jsonItems? items = some values ∧ back = rest)
  | [], first, spelling, spells, rest, depth, values, back => by
      have closed : skipBlanks (spelling ++ rest) = ']' :: rest := by
        cases spells with
        | closing blank =>
            rw [List.append_assoc]
            exact blank.skipBlanks_eq (by decide) rest
      simp only [nestingItems, jsonItems?, Nat.zero_le, true_and, Option.some.injEq]
      constructor
      · intro row
        cases row with
        | nil closed' =>
            rw [closed] at closed'
            cases closed'
            exact ⟨rfl, rfl⟩
        | cons next read tail =>
            rw [nextItem_false_iff.2 ⟨rest, closed, rfl⟩] at next
            cases next
      · intro h
        obtain ⟨rfl, rfl⟩ := h
        exact .nil closed
  | tree :: items, first, _, spells, rest, depth, values, back => by
      cases spells with
      | @item _ _ _ lead own behind leads spells row =>
          obtain ⟨c, tail, head, solid, other⟩ := spells.head
          have next : nextItem first (lead ++ (own ++ (behind ++ rest))) =
              .ok (true, own ++ (behind ++ rest)) := by
            rw [head]
            exact leads.nextItem_eq solid other _
          have value := Tree.read_iff tree spells (row.ends rest) depth
          have others := @Tree.itemsRow_iff items _ _ row rest depth
          simp only [List.append_assoc, nestingItems, Nat.max_le, jsonItems?, some_pair_iff]
          constructor
          · intro h
            cases h with
            | nil closed =>
                rw [nextItem_false_iff.2 ⟨_, closed, rfl⟩] at next
                cases next
            | cons next' read tail =>
                rw [next] at next'
                cases next'
                obtain ⟨within, same, rfl⟩ := (value ..).1 read
                obtain ⟨withins, sames, rfl⟩ := (others ..).1 tail
                exact ⟨⟨within, withins⟩, ⟨_, _, same, sames, rfl⟩, rfl⟩
          · intro h
            obtain ⟨⟨within, withins⟩, ⟨j, js, same, sames, rfl⟩, rfl⟩ := h
            exact .cons next ((value ..).2 ⟨within, same, rfl⟩)
              ((others ..).2 ⟨withins, sames, rfl⟩)

theorem Tree.membersRow_iff : (members : List (String × Tree)) → {first : Bool} →
    {spelling : List Char} → SpellsMembers first members spelling → {rest : List Char} → (depth : Nat) →
    (values : List (String × Json)) → (back : List Char) →
    (MembersRow (read depth) first (spelling ++ rest) values back ↔
      nestingMembers members ≤ depth ∧ jsonMembers? members = some values ∧ back = rest)
  | [], first, spelling, spells, rest, depth, values, back => by
      have closed : skipBlanks (spelling ++ rest) = '}' :: rest := by
        cases spells with
        | closing blank =>
            rw [List.append_assoc]
            exact blank.skipBlanks_eq (by decide) rest
      simp only [nestingMembers, jsonMembers?, Nat.zero_le, true_and, Option.some.injEq]
      constructor
      · intro row
        cases row with
        | nil closed' =>
            rw [closed] at closed'
            cases closed'
            exact ⟨rfl, rfl⟩
        | cons next separated read tail =>
            rw [nextMember_none_iff.2 ⟨rest, closed, rfl⟩] at next
            cases next
      · intro h
        obtain ⟨rfl, rfl⟩ := h
        exact .nil closed
  | (name, tree) :: members, first, _, spells, rest, depth, values, back => by
      cases spells with
      | @member _ _ _ _ lead chars before after own behind leads named blank blank' spells row =>
          have next : nextMember first (lead ++ '"' ::
              (chars ++ (before ++ ':' :: (after ++ (own ++ (behind ++ rest)))))) =
              .ok (some name, before ++ ':' :: (after ++ (own ++ (behind ++ rest)))) := by
            rw [leads.nextMember_eq, scanName, scanString_eq_ok_iff.2 ⟨_, rfl, named⟩]
            rfl
          have separated : scanColon (before ++ ':' :: (after ++ (own ++ (behind ++ rest)))) =
              .ok (after ++ (own ++ (behind ++ rest))) :=
            scanColon_eq_ok_iff.2 (blank.skipBlanks_eq (by decide) _)
          have value (j : Json) (back : List Char) :
              read depth (after ++ (own ++ (behind ++ rest))) = .ok (j, back) ↔
                tree.nesting ≤ depth ∧ tree.json? = some j ∧ back = behind ++ rest := by
            rw [read_blanks_append blank']
            exact Tree.read_iff tree spells (row.ends rest) depth j back
          have others := @Tree.membersRow_iff members _ _ row rest depth
          simp only [List.append_assoc, List.cons_append, nestingMembers, Nat.max_le, jsonMembers?,
            some_pair_iff]
          constructor
          · intro h
            cases h with
            | nil closed =>
                rw [nextMember_none_iff.2 ⟨_, closed, rfl⟩] at next
                cases next
            | cons next' separated' read tail =>
                rw [next] at next'
                cases next'
                rw [separated] at separated'
                cases separated'
                obtain ⟨within, same, rfl⟩ := (value ..).1 read
                obtain ⟨withins, sames, rfl⟩ := (others ..).1 tail
                exact ⟨⟨within, withins⟩, ⟨_, _, same, sames, rfl⟩, rfl⟩
          · intro h
            obtain ⟨⟨within, withins⟩, ⟨j, js, same, sames, rfl⟩, rfl⟩ := h
            exact .cons next separated ((value ..).2 ⟨within, same, rfl⟩)
              ((others ..).2 ⟨withins, sames, rfl⟩)

end

theorem Leads.append_blanks {first : Bool} {lead blanks : List Char} (h : Leads first lead)
    (blank : AllBlank blanks) : Leads first (lead ++ blanks) := by
  cases h with
  | first blank' => exact .first (blank'.append blank)
  | later before after =>
      rw [List.append_assoc, List.cons_append]
      exact .later before (after.append blank)

theorem leads_of_nextItem {first : Bool} {text front : List Char}
    (h : nextItem first text = .ok (true, front)) :
    ∃ lead, Leads first lead ∧ text = lead ++ front := by
  obtain ⟨blanks, split, blank⟩ := skipBlanks_split text
  unfold nextItem at h
  split at h
  · cases h
  · cases h
  · next c rest _ hb =>
      rw [hb] at split
      split at h
      · next isFirst =>
          cases h
          rw [isFirst]
          exact ⟨blanks, .first blank, split⟩
      · next notFirst =>
          split at h
          · next comma =>
              subst comma
              obtain ⟨blanks', split', blank'⟩ := skipBlanks_split rest
              rw [Bool.not_eq_true] at notFirst
              split at h
              · cases h
              · cases h
              · cases h
                rw [notFirst]
                exact ⟨_, .later blank blank', by
                  rw [List.append_assoc, List.cons_append, ← split', split]⟩
          · cases h

theorem leads_of_nextMember {first : Bool} {text rest : List Char} {name : String}
    (h : nextMember first text = .ok (some name, rest)) :
    ∃ lead chars, Leads first lead ∧ SpellsText name.toList chars ∧
      text = lead ++ '"' :: (chars ++ rest) := by
  have named {inside : List Char} (h : scanName inside = .ok (some name, rest)) :
      ∃ chars, SpellsText name.toList chars ∧ inside = chars ++ rest := by
    obtain ⟨⟨s, back⟩, scanned, same⟩ := map_eq_ok_iff.1 h
    cases same
    obtain ⟨chars, rfl, spelled⟩ := scanString_eq_ok_iff.1 scanned
    exact ⟨chars, spelled, rfl⟩
  obtain ⟨blanks, split, blank⟩ := skipBlanks_split text
  unfold nextMember at h
  split at h
  · cases h
  · cases h
  · next c inside _ hb =>
      rw [hb] at split
      split at h
      · next isFirst =>
          split at h
          · next quote =>
              subst quote
              obtain ⟨chars, spelled, rfl⟩ := named h
              rw [isFirst]
              exact ⟨blanks, chars, .first blank, spelled, split⟩
          · cases h
      · next notFirst =>
          split at h
          · next comma =>
              subst comma
              obtain ⟨blanks', split', blank'⟩ := skipBlanks_split inside
              rw [Bool.not_eq_true] at notFirst
              split at h
              · cases h
              · cases h
              · next inside' hb' =>
                  obtain ⟨chars, spelled, rfl⟩ := named h
                  rw [hb'] at split'
                  rw [notFirst]
                  exact ⟨blanks ++ ',' :: blanks', chars, .later blank blank', spelled, by
                    rw [split, split']; simp⟩
              · cases h
          · cases h

def Tree.BeginsWith (text rest : List Char) : Prop :=
  ∃ (tree : Tree) (blanks own : List Char), AllBlank blanks ∧ tree.Spells own ∧
    text = blanks ++ (own ++ rest)

theorem Tree.Spells.beginsWith_of_keyword {tree : Tree} {c : Char} {word : List Char}
    (spells : tree.Spells (c :: word)) {text inside rest : List Char} {f found : Found}
    (begins : skipBlanks text = c :: inside)
    (h : (scanKeyword word inside).map (fun rest => (f, rest)) = .ok (found, rest)) :
    Tree.BeginsWith text rest := by
  obtain ⟨blanks, split, blank⟩ := skipBlanks_split text
  obtain ⟨back, scanned, same⟩ := map_eq_ok_iff.1 h
  cases same
  obtain rfl := scanKeyword_eq_ok_iff.1 scanned
  exact ⟨tree, blanks, _, blank, spells, by rw [split, begins]; rfl⟩

theorem Tree.beginsWith_of_leaf {text rest : List Char} {l : Leaf}
    (h : scanFound text = .ok (.leaf l, rest)) : Tree.BeginsWith text rest := by
  obtain ⟨blanks, split, blank⟩ := skipBlanks_split text
  unfold scanFound at h
  split at h
  · cases h
  · cases h
  · cases h
  · next hb =>
      obtain ⟨⟨s, back⟩, scanned, same⟩ := map_eq_ok_iff.1 h
      cases same
      obtain ⟨chars, rfl, spelled⟩ := scanString_eq_ok_iff.1 scanned
      exact ⟨.text s, blanks, _, blank, .text spelled, by rw [split, hb]; rfl⟩
  · next hb => exact Tree.Spells.null.beginsWith_of_keyword hb h
  · next hb => exact Tree.Spells.yes.beginsWith_of_keyword hb h
  · next hb => exact Tree.Spells.no.beginsWith_of_keyword hb h
  · next hb =>
      obtain ⟨⟨number, back⟩, scanned, same⟩ := map_eq_ok_iff.1 h
      cases same
      obtain ⟨n, sign, -, digits, rfl, spelled⟩ := Numeral.numeral_of_read scanned
      exact ⟨.number n, blanks, _, blank, .negative sign spelled, by rw [split, hb]; rfl⟩
  · next c inside _ _ _ _ _ _ _ hb =>
      split at h
      · obtain ⟨⟨number, back⟩, scanned, same⟩ := map_eq_ok_iff.1 h
        cases same
        obtain ⟨n, sign, -, digits, whole, spelled⟩ := Numeral.numeral_of_read scanned
        exact ⟨.number n, blanks, _, blank, .positive sign spelled, by rw [split, hb, whole]⟩
      · cases h

theorem spellsItems_of_row {item : Reader Json}
    (begins : ∀ {text j rest}, item text = .ok (j, rest) → Tree.BeginsWith text rest)
    {first : Bool} {text rest : List Char} {values : List Json}
    (row : ItemsRow item first text values rest) :
    ∃ items own, SpellsItems first items own ∧ text = own ++ rest := by
  induction row with
  | @nil first text rest closed =>
      obtain ⟨blanks, split, blank⟩ := skipBlanks_split text
      rw [closed] at split
      exact ⟨[], _, .closing blank, by rw [split]; simp⟩
  | cons next read tail ih =>
      obtain ⟨lead, leads, rfl⟩ := leads_of_nextItem next
      obtain ⟨tree, blanks, own, blank, spells, rfl⟩ := begins read
      obtain ⟨items, behind, row, rfl⟩ := ih
      exact ⟨tree :: items, _, .item (leads.append_blanks blank) spells row, by simp⟩

theorem spellsMembers_of_row {value : Reader Json}
    (begins : ∀ {text j rest}, value text = .ok (j, rest) → Tree.BeginsWith text rest)
    {first : Bool} {text rest : List Char} {values : List (String × Json)}
    (row : MembersRow value first text values rest) :
    ∃ members own, SpellsMembers first members own ∧ text = own ++ rest := by
  induction row with
  | @nil first text rest closed =>
      obtain ⟨blanks, split, blank⟩ := skipBlanks_split text
      rw [closed] at split
      exact ⟨[], _, .closing blank, by rw [split]; simp⟩
  | @cons first text colon front back rest name j values next separated read tail ih =>
      obtain ⟨lead, chars, leads, named, rfl⟩ := leads_of_nextMember next
      obtain ⟨before, split, blank⟩ := skipBlanks_split colon
      rw [scanColon_eq_ok_iff.1 separated] at split
      obtain ⟨tree, after, own, blank', spells, rfl⟩ := begins read
      obtain ⟨members, behind, row, rfl⟩ := ih
      refine ⟨(name, tree) :: members, _, .member leads named blank blank' spells row, ?_⟩
      rw [split]
      simp

theorem Tree.beginsWith_of_read {depth : Nat} {text rest : List Char} {j : Json}
    (h : read depth text = .ok (j, rest)) : Tree.BeginsWith text rest := by
  induction depth using Nat.strongRecOn generalizing text j rest with
  | ind depth ih =>
      obtain ⟨blanks, split, blank⟩ := skipBlanks_split text
      cases found : scanFound text with
      | error fault =>
          rw [read_fault found] at h
          cases h
      | ok pair =>
          obtain ⟨f, front⟩ := pair
          cases f with
          | leaf l =>
              rw [read_leaf found] at h
              cases h
              exact Tree.beginsWith_of_leaf found
          | array =>
              obtain ⟨inner, values, rfl, row, rfl⟩ := (read_array_iff found).1 h
              obtain ⟨inside, hb, rfl⟩ := scanFound_array_iff.1 found
              obtain ⟨items, own, spelled, whole⟩ :=
                spellsItems_of_row (ih inner (Nat.lt_succ_self inner)) row
              rw [List.tail_cons] at whole
              exact ⟨.array items, blanks, _, blank, .array spelled, by
                rw [split, hb, whole, List.cons_append]⟩
          | object =>
              obtain ⟨inner, values, rfl, row, rfl⟩ := (read_object_iff found).1 h
              obtain ⟨inside, hb, rfl⟩ := scanFound_object_iff.1 found
              obtain ⟨members, own, spelled, whole⟩ :=
                spellsMembers_of_row (ih inner (Nat.lt_succ_self inner)) row
              rw [List.tail_cons] at whole
              exact ⟨.object members, blanks, _, blank, .object spelled, by
                rw [split, hb, whole, List.cons_append]⟩

theorem Tree.SpellsWhole.read_iff {tree : Tree} {text : String} (h : tree.SpellsWhole text)
    (depth : Nat) (j : Json) :
    readWhole (read depth) text = .ok j ↔ tree.nesting ≤ depth ∧ tree.json? = some j := by
  obtain ⟨before, own, after, blank, spells, blank', whole⟩ := h
  have ends : Ends after := by simpa using ends_of_blanks blank' ends_nil
  rw [readWhole_eq_ok_iff, whole]
  simp only [read_blanks_append blank, Tree.read_iff tree spells ends]
  constructor
  · intro h
    obtain ⟨rest, ⟨within, value, rfl⟩, -⟩ := h
    exact ⟨within, value⟩
  · intro h
    exact ⟨after, ⟨h.1, h.2, rfl⟩, skipBlanks_eq_nil_iff.2 blank'⟩

theorem Tree.exists_spellsWhole_of_readWhole {depth : Nat} {text : String} {j : Json}
    (h : readWhole (read depth) text = .ok j) : ∃ tree : Tree, tree.SpellsWhole text := by
  obtain ⟨rest, read, ended⟩ := readWhole_eq_ok_iff.1 h
  obtain ⟨tree, before, own, blank, spells, whole⟩ := Tree.beginsWith_of_read read
  exact ⟨tree, before, own, rest, blank, spells, skipBlanks_eq_nil_iff.1 ended, whole⟩

end GeoQuery.Json
