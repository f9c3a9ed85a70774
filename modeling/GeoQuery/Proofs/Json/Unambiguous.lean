import GeoQuery.Proofs.Json.Tree

/-!
A text spells one tree at most. The first character tells which kind of tree it is, and each part ends
where its scanner stops, so two spellings that begin one text are the same.
-/

namespace GeoQuery.Json

namespace Tree

/-- The first character of all spellings of a tree, with `0` for any digit. -/
def opening : Tree → Char
  | .null => 'n'
  | .boolean b => if b then 't' else 'f'
  | .number n => if n.negative then '-' else '0'
  | .text _ => '"'
  | .array _ => '['
  | .object _ => '{'

/-- Trees of one kind, with the same sign if they are numbers. -/
inductive SameKind : Tree → Tree → Prop
  | null : SameKind .null .null
  | boolean (b : Bool) : SameKind (.boolean b) (.boolean b)
  | number {n n' : Numeral} (sign : n.negative = n'.negative) : SameKind (.number n) (.number n')
  | text (s s' : String) : SameKind (.text s) (.text s')
  | array (items items' : List Tree) : SameKind (.array items) (.array items')
  | object (members members' : List (String × Tree)) : SameKind (.object members) (.object members')

variable {tree tree' : Tree} {own own' rest rest' : List Char}

theorem Spells.opening_eq (h : tree.Spells own) : ∃ c tail, own = c :: tail ∧
    tree.opening = if c.isDigit then '0' else c := by
  cases h with
  | positive sign digits =>
      obtain ⟨c, tail, rfl, digit⟩ := digits.head_digit
      exact ⟨c, tail, rfl, by simp [opening, sign, digit]⟩
  | negative sign digits => exact ⟨_, _, rfl, by simp [opening, sign]⟩
  | _ => exact ⟨_, _, rfl, rfl⟩

theorem sameKind_of_opening (h : tree.opening = tree'.opening) : SameKind tree tree' := by
  -- Each letter belongs to one kind.
  cases tree <;> cases tree' <;> grind [SameKind, opening]

theorem Spells.sameKind (h : tree.Spells own) (h' : tree'.Spells own')
    (same : own ++ rest = own' ++ rest') : SameKind tree tree' := by
  obtain ⟨c, tail, rfl, opens⟩ := h.opening_eq
  obtain ⟨c', tail', rfl, opens'⟩ := h'.opening_eq
  obtain rfl : c = c' := (List.cons.inj same).1
  exact sameKind_of_opening (opens.trans opens'.symm)

end Tree

variable {rest rest' : List Char}

theorem SpellsText.unique {chars chars' text text' : List Char} (h : SpellsText chars text)
    (h' : SpellsText chars' text') (same : text ++ rest = text' ++ rest') :
    chars = chars' ∧ rest = rest' := by
  have scanned := h.scanString_eq [] rest
  rw [same, h'.scanString_eq] at scanned
  obtain ⟨chars, rest⟩ := Prod.mk.inj (Except.ok.inj scanned)
  exact ⟨(String.ofList_inj.1 chars).symm, rest.symm⟩

theorem Numeral.Spells.unique {n n' : Numeral} {text text' : List Char} (h : n.Spells text)
    (h' : n'.Spells text') (sign : n.negative = n'.negative) (ends : Ends rest) (ends' : Ends rest')
    (same : text ++ rest = text' ++ rest') : n = n' ∧ rest = rest' := by
  have scanned := h.scan_eq (.unfinished .value) ends
  rw [same, sign, h'.scan_eq _ ends'] at scanned
  obtain ⟨numeral, rest⟩ := Prod.mk.inj (Except.ok.inj scanned)
  exact ⟨numeral.symm, rest.symm⟩

theorem SpellsItems.next_nil {first : Bool} {text : List Char} (h : SpellsItems first [] text)
    (rest : List Char) : nextItem first (text ++ rest) = .ok (false, ']' :: rest) := by
  cases h with
  | closing blank =>
      rw [List.append_assoc]
      exact nextItem_false_iff.2 ⟨rest, blank.skipBlanks_eq (by decide) rest, rfl⟩

theorem SpellsMembers.next_nil {first : Bool} {text : List Char} (h : SpellsMembers first [] text)
    (rest : List Char) : nextMember first (text ++ rest) = .ok (none, '}' :: rest) := by
  cases h with
  | closing blank =>
      rw [List.append_assoc]
      exact nextMember_none_iff.2 ⟨rest, blank.skipBlanks_eq (by decide) rest, rfl⟩

theorem SpellsItems.next_cons {first : Bool} {tree : Tree} {items : List Tree} {text : List Char}
    (h : SpellsItems first (tree :: items) text) (rest : List Char) : ∃ own behind,
      tree.Spells own ∧ SpellsItems false items behind ∧
        nextItem first (text ++ rest) = .ok (true, own ++ (behind ++ rest)) := by
  cases h with
  | @item _ _ _ lead own behind leads spells row =>
      obtain ⟨c, tail, rfl, solid, other⟩ := spells.head
      refine ⟨_, behind, spells, row, ?_⟩
      have next := leads.nextItem_eq solid other (tail ++ (behind ++ rest))
      simpa only [List.append_assoc, List.cons_append] using next

theorem SpellsMembers.next_cons {first : Bool} {name : String} {tree : Tree}
    {members : List (String × Tree)} {text : List Char}
    (h : SpellsMembers first ((name, tree) :: members) text) (rest : List Char) :
    ∃ own behind colon inside, tree.Spells own ∧ SpellsMembers false members behind ∧
      nextMember first (text ++ rest) = .ok (some name, colon) ∧ scanColon colon = .ok inside ∧
        skipBlanks inside = own ++ (behind ++ rest) := by
  cases h with
  | @member _ _ _ _ lead chars before after own behind leads named blank blank' spells row =>
      obtain ⟨c, tail, rfl, solid, -⟩ := spells.head
      refine ⟨_, behind, before ++ ':' :: (after ++ (c :: tail ++ (behind ++ rest))), _, spells, row,
        ?_, scanColon_eq_ok_iff.2 (blank.skipBlanks_eq (by decide) _), blank'.skipBlanks_eq solid _⟩
      have next := leads.nextMember_eq
        (chars ++ (before ++ ':' :: (after ++ (c :: tail ++ (behind ++ rest)))))
      rw [scanName, scanString_eq_ok_iff.2 ⟨_, rfl, named⟩] at next
      simpa only [List.append_assoc, List.cons_append, Except.map] using next

mutual

/-- Two spellings at the front of one text are of one tree, if both end there. -/
theorem Tree.Spells.unique : (tree : Tree) → {tree' : Tree} → {own own' rest rest' : List Char} →
    tree.Spells own → tree'.Spells own' → Ends rest → Ends rest' → own ++ rest = own' ++ rest' →
      tree = tree' ∧ rest = rest'
  | .null, _, _, _, _, _, h, h', _, _, same => by
      cases h.sameKind h' same
      cases h
      cases h'
      exact ⟨rfl, List.append_cancel_left same⟩
  | .boolean true, _, _, _, _, _, h, h', _, _, same
  | .boolean false, _, _, _, _, _, h, h', _, _, same => by
      cases h.sameKind h' same
      cases h
      cases h'
      exact ⟨rfl, List.append_cancel_left same⟩
  | .number n, _, _, _, _, _, h, h', ends, ends', same => by
      obtain - | - | @⟨_, n', sign⟩ := h.sameKind h' same
      cases h with
      | positive own digits =>
          cases h' with
          | positive own' digits' =>
              exact (digits.unique digits' sign ends ends' same).imp_left (congrArg Tree.number)
          | negative own' digits' => cases own.symm.trans (sign.trans own')
      | negative own digits =>
          cases h' with
          | positive own' digits' => cases own.symm.trans (sign.trans own')
          | negative own' digits' =>
              exact (digits.unique digits' sign ends ends' (List.cons.inj same).2).imp_left
                (congrArg Tree.number)
  | .text s, _, _, _, _, _, h, h', _, _, same => by
      cases h.sameKind h' same
      cases h with
      | text chars =>
          cases h' with
          | text chars' =>
              exact (chars.unique chars' (List.cons.inj same).2).imp_left fun chars =>
                congrArg Tree.text (String.toList_inj.1 chars)
  | .array items, _, _, _, _, _, h, h', _, _, same => by
      cases h.sameKind h' same
      cases h with
      | array row =>
          cases h' with
          | array row' =>
              exact (SpellsItems.unique items row row' (List.cons.inj same).2).imp_left
                (congrArg Tree.array)
  | .object members, _, _, _, _, _, h, h', _, _, same => by
      cases h.sameKind h' same
      cases h with
      | object row =>
          cases h' with
          | object row' =>
              exact (SpellsMembers.unique members row row' (List.cons.inj same).2).imp_left
                (congrArg Tree.object)

theorem SpellsItems.unique : (items : List Tree) → {items' : List Tree} → {first : Bool} →
    {text text' rest rest' : List Char} → SpellsItems first items text →
    SpellsItems first items' text' → text ++ rest = text' ++ rest' → items = items' ∧ rest = rest'
  | [], [], _, _, _, rest, rest', h, h', same => by
      have next := h.next_nil rest
      rw [same, h'.next_nil] at next
      exact ⟨rfl, by simpa using next.symm⟩
  | tree :: items, tree' :: items', _, _, _, rest, rest', h, h', same => by
      obtain ⟨own, behind, spells, row, next⟩ := h.next_cons rest
      obtain ⟨own', behind', spells', row', next'⟩ := h'.next_cons rest'
      rw [same, next'] at next
      have fronts := (Prod.mk.inj (Except.ok.inj next)).2.symm
      obtain ⟨rfl, backs⟩ := Tree.Spells.unique tree spells spells' (row.ends rest) (row'.ends rest')
        fronts
      exact (SpellsItems.unique items row row' backs).imp_left (congrArg (tree :: ·))
  | [], _ :: _, _, _, _, rest, rest', h, h', same => by
      obtain ⟨_, _, -, -, next'⟩ := h'.next_cons rest'
      cases next'.symm.trans (same ▸ h.next_nil rest)
  | _ :: _, [], _, _, _, rest, rest', h, h', same => by
      obtain ⟨_, _, -, -, next⟩ := h.next_cons rest
      cases next.symm.trans (same ▸ h'.next_nil rest')

theorem SpellsMembers.unique : (members : List (String × Tree)) →
    {members' : List (String × Tree)} → {first : Bool} → {text text' rest rest' : List Char} →
    SpellsMembers first members text → SpellsMembers first members' text' →
    text ++ rest = text' ++ rest' → members = members' ∧ rest = rest'
  | [], [], _, _, _, rest, rest', h, h', same => by
      have next := h.next_nil rest
      rw [same, h'.next_nil] at next
      exact ⟨rfl, by simpa using next.symm⟩
  | (name, tree) :: members, (name', tree') :: members', _, _, _, rest, rest', h, h', same => by
      obtain ⟨own, behind, colon, inside, spells, row, next, separated, front⟩ := h.next_cons rest
      obtain ⟨own', behind', colon', inside', spells', row', next', separated', front'⟩ :=
        h'.next_cons rest'
      rw [same, next'] at next
      cases next
      rw [separated] at separated'
      cases separated'
      obtain ⟨rfl, backs⟩ := Tree.Spells.unique tree spells spells' (row.ends rest) (row'.ends rest')
        (front.symm.trans front')
      exact (SpellsMembers.unique members row row' backs).imp_left (congrArg ((name, tree) :: ·))
  | [], _ :: _, _, _, _, rest, rest', h, h', same => by
      obtain ⟨_, _, _, _, -, -, next', -⟩ := h'.next_cons rest'
      cases next'.symm.trans (same ▸ h.next_nil rest)
  | _ :: _, [], _, _, _, rest, rest', h, h', same => by
      obtain ⟨_, _, _, _, -, -, next, -⟩ := h.next_cons rest
      cases next.symm.trans (same ▸ h'.next_nil rest')

end

/-- A text spells one tree at most. -/
theorem Tree.SpellsWhole.unique {tree tree' : Tree} {text : String} (h : tree.SpellsWhole text)
    (h' : tree'.SpellsWhole text) : tree = tree' := by
  obtain ⟨before, own, after, blank, spells, ended, whole⟩ := h
  obtain ⟨before', own', after', blank', spells', ended', whole'⟩ := h'
  obtain ⟨c, tail, rfl, solid, -⟩ := spells.head
  obtain ⟨c', tail', rfl, solid', -⟩ := spells'.head
  have ends {blanks : List Char} (blank : AllBlank blanks) : Ends blanks := by
    simpa using ends_of_blanks blank ends_nil
  have same : c :: tail ++ after = c' :: tail' ++ after' := by
    have front := blank.skipBlanks_eq solid (tail ++ after)
    rw [← List.cons_append, ← whole, whole'] at front
    exact front.symm.trans (blank'.skipBlanks_eq solid' _)
  exact (Tree.Spells.unique tree spells spells' (ends ended) (ends ended') same).1

end GeoQuery.Json
