import GeoQuery.Json.Compact
import GeoQuery.Proofs.Json.InRange
import GeoQuery.Proofs.Json.Rows

/-!
The compact text of a JSON value is read back as the value, with each fraction in it replaced by what
the reader of numerals takes from its text. Nothing else changes: names and texts, the order of items
and members, and which numbers are integers.
-/

namespace GeoQuery

namespace Json

theorem hexUnit?_control : ∀ n < 32,
    hexUnit? '0' '0' (Nat.digitChar (n / 16)) (Nat.digitChar (n % 16)) = some n := by decide

theorem not_surrogate_of_control {n : Nat} (h : n < 32) :
    isLowSurrogate n = false ∧ isHighSurrogate n = false := by
  simp only [isLowSurrogate, isHighSurrogate, Bool.and_eq_false_iff, decide_eq_false_iff_not]
  omega

theorem scanString_escapeChar (c : Char) (read rest : List Char) :
    scanString read (escapeChar c ++ rest) = scanString (c :: read) rest := by
  unfold escapeChar
  split
  · next h => subst h; simp [scanString, letterEscape?]
  split
  · next h => subst h; simp [scanString, letterEscape?]
  split
  · next h => subst h; simp [scanString, letterEscape?]
  split
  · next h => subst h; simp [scanString, letterEscape?]
  split
  · next h => subst h; simp [scanString, letterEscape?]
  split
  · next h => subst h; simp [scanString, letterEscape?]
  split
  · next h => subst h; simp [scanString, letterEscape?]
  split
  case isTrue control =>
    have small : c.toNat < 32 := control
    obtain ⟨low, high⟩ := not_surrogate_of_control small
    simp [scanString, hexUnit?_control _ small, low, high]
  case isFalse _ backslash _ _ _ _ _ solid =>
    simp [scanString, backslash, solid]

theorem scanString_escaped (characters read rest : List Char) :
    scanString read (characters.flatMap escapeChar ++ '"' :: rest) =
      .ok (String.ofList (read.reverse ++ characters), rest) := by
  induction characters generalizing read with
  | nil => simp [scanString]
  | cons c characters ih =>
      rw [List.flatMap_cons, List.append_assoc, scanString_escapeChar, ih]
      simp

theorem scanString_quote (s : String) (rest : List Char) :
    scanString [] ((quote s ++ rest).tail) = .ok (s, rest) := by
  have text : (quote s ++ rest).tail = s.toList.flatMap escapeChar ++ '"' :: rest := by
    simp [quote]
  rw [text, scanString_escaped]
  simp

theorem not_blank_of_isDigit {c : Char} (h : c.isDigit = true) : isBlank c = false := by
  rw [isBlank]
  simp only [Bool.or_eq_false_iff, decide_eq_false_iff_not]
  refine ⟨⟨⟨?_, ?_⟩, ?_⟩, ?_⟩ <;> rintro rfl <;> exact absurd h (by decide)

def Numeral.text (n : Numeral) : List Char := (if n.negative then ['-'] else []) ++ n.render

theorem scanFound_numeral {n : Numeral} (wellFormed : n.WellFormed) {m : Number}
    (value : n.value? = some m) {rest : List Char} (ends : Ends rest) :
    scanFound (n.text ++ rest) = .ok (.leaf (.number m), rest) := by
  have read : Numeral.read n.negative (n.render ++ rest) = .ok (m, rest) := by
    rw [Numeral.read, Numeral.scan_render _ wellFormed ends]
    simp only [bind, Except.bind, value]
    rfl
  obtain ⟨first, tail, render, digit⟩ := Numeral.head_render wellFormed
  rw [Numeral.text]
  cases sign : n.negative with
  | true =>
      rw [sign] at read
      have solid : skipBlanks ('-' :: (n.render ++ rest)) = '-' :: (n.render ++ rest) :=
        skipBlanks_cons (by decide) _
      simp [scanFound, solid, read, Except.map]
  | false =>
      rw [sign, render, List.cons_append] at read
      have solid := skipBlanks_cons (not_blank_of_isDigit digit) (tail ++ rest)
      have other : ∀ c : Char, c.isDigit = false → first ≠ c := by
        rintro c noDigit rfl
        rw [digit] at noDigit
        cases noDigit
      simp [scanFound, render, solid, read, digit, other, Except.map]

theorem Numeral.wellFormed_toDigits (negative : Bool) (k : Nat) :
    WellFormed ⟨negative, Nat.toDigits 10 k, [], none⟩ := by
  have head : Nat.toDigits 10 k = ['0'] ∨
      ∃ first rest, Nat.toDigits 10 k = first :: rest ∧ first ≠ '0' := by
    cases k with
    | zero => exact .inl rfl
    | succ k => exact .inr (head_toDigits_ne_zero k.succ_pos)
  exact ⟨fun c member => Nat.isDigit_of_mem_toDigits (by decide) (by decide) member, head, nofun,
    nofun⟩

theorem Integer.exists_numeral (i : Integer) : ∃ n : Numeral, n.WellFormed ∧
    n.value? = some (.integer i) ∧ (toString i.val).toList = n.text := by
  obtain ⟨val, ge_min, lt_max⟩ := i
  cases val with
  | ofNat k =>
      refine ⟨⟨false, Nat.toDigits 10 k, [], none⟩, Numeral.wellFormed_toDigits false k, ?_, ?_⟩
      · have fits : k < 0x10000000000000000 := by
          simp only [Int.ofNat_eq_natCast] at lt_max
          omega
        simp [Numeral.value?, Numeral.integer?, digitsValue_eq_ofDigitChars, fits, Integer.ofNat]
      · change (Nat.repr k).toList = _
        simp [Nat.repr, Numeral.text, Numeral.render, Numeral.renderFraction]
  | negSucc k =>
      refine ⟨⟨true, Nat.toDigits 10 (k + 1), [], none⟩, Numeral.wellFormed_toDigits true (k + 1),
        ?_, ?_⟩
      · have fits : k + 1 ≤ 0x8000000000000000 := by
          simp only [Int.negSucc_eq] at ge_min
          omega
        simp [Numeral.value?, Numeral.integer?, digitsValue_eq_ofDigitChars, fits, Int.negSucc_eq]
      · change ("-" ++ Nat.repr (k + 1)).toList = _
        simp [Nat.repr, Numeral.text, Numeral.render, Numeral.renderFraction]

theorem ofText_leaf {text : String} {l : Leaf} (found : scanFound text.toList = .ok (.leaf l, [])) :
    ofText text = .ok (.leaf l) := by
  rw [ofText, readWhole_eq_ok_iff.2 ⟨[], read_leaf found, rfl⟩]
  rfl

end Json

namespace Finite64

open Json (Numeral)

/-- The numeral that stands for a number in JSON. -/
def jsonNumeral (x : Finite64) : Numeral :=
  if x.magnitude = .zero then ⟨x.negative, ['0'], ['0'], none⟩
  else Decimal.generalNumeral x.negative (Decimal.shortest .even x.magnitude)

/-- The numeral is the text of the number, with its sign and its value, and it is no integer. -/
structure WritesJson (x : Finite64) (n : Numeral) : Prop where
  wellFormed : n.WellFormed
  negative : n.negative = x.negative
  readsAs : n.exact.ReadsAs x.magnitude
  text : x.json.toList = n.text
  fraction : n.integer? = none

theorem jsonNumeral_writesJson (x : Finite64) : x.WritesJson x.jsonNumeral := by
  rw [jsonNumeral]
  split
  case isTrue zero =>
    refine ⟨⟨by simp, .inl rfl, by simp, by simp⟩, rfl, ?_, ?_, ?_⟩
    · rw [zero]
      rfl
    · rw [json, if_pos (Magnitude.isZero_iff.2 zero), toList_signed]
      rfl
    · exact Numeral.integer?_eq_none (.inl (by simp))
  case isFalse nonzero =>
    have reads := Decimal.shortest_readsAs .even x.magnitude
    have written := Decimal.general_writtenAs x.negative
      (Decimal.coefficient_pos_of_readsAs reads nonzero)
    refine ⟨written.wellFormed, Decimal.generalNumeral_negative _ _,
      (written.value.readsAs_iff _).2 reads, ?_,
      Numeral.integer?_eq_none (Decimal.generalNumeral_not_integer _ _)⟩
    rw [json, if_neg (by rwa [Magnitude.isZero_iff]), toList_signed, Numeral.text,
      Decimal.generalNumeral_negative, written.render]

theorem exists_value?_jsonNumeral (x : Finite64) : ∃ y, x.jsonNumeral.value? = some (.fraction y) := by
  have inRange : ∃ y, x.jsonNumeral.magnitude? = some y := by
    rw [jsonNumeral]
    split
    case isTrue zero =>
      exact Numeral.magnitude?_of_readsAs (y := .zero) (show digitsValue ['0'] < _ by decide) rfl
        (by decide)
    case isFalse nonzero => exact Numeral.magnitude?_shortest _ nonzero
  obtain ⟨y, inRange⟩ := inRange
  exact ⟨⟨_, y⟩, by rw [Numeral.value?, x.jsonNumeral_writesJson.fraction, inRange]; rfl⟩

end Finite64

/-- What the reader of JSON numbers takes from the text of a number. -/
def Finite64.reread (x : Finite64) : Finite64 :=
  match Json.ofText x.json with
  | .ok (.leaf (.number (.fraction y))) => y
  | _ => x

theorem Finite64.exists_reread_numeral (x : Finite64) : ∃ n : Json.Numeral, n.WellFormed ∧
    n.value? = some (.fraction x.reread) ∧ x.json.toList = n.text := by
  have written := x.jsonNumeral_writesJson
  obtain ⟨y, value⟩ := x.exists_value?_jsonNumeral
  have found := Json.scanFound_numeral written.wellFormed value Json.ends_nil
  rw [List.append_nil, ← written.text] at found
  have same : x.reread = y := by rw [reread, Json.ofText_leaf found]
  exact ⟨_, written.wellFormed, same ▸ value, written.text⟩

/-- The text of a number is never out of range for the reader of JSON numbers. -/
theorem Finite64.ofText_json (x : Finite64) :
    Json.ofText x.json = .ok (.leaf (.number (.fraction x.reread))) := by
  obtain ⟨n, wellFormed, value, text⟩ := x.exists_reread_numeral
  have found := Json.scanFound_numeral wellFormed value Json.ends_nil
  rw [List.append_nil, ← text] at found
  exact Json.ofText_leaf found

namespace Json

def Number.reread : Number → Number
  | .integer i => .integer i
  | .fraction x => .fraction x.reread

def Leaf.reread : Leaf → Leaf
  | .number n => .number n.reread
  | .null => .null
  | .boolean b => .boolean b
  | .text s => .text s

mutual

/-- The value with each fraction replaced by what the reader of JSON numbers takes from its text. -/
def reread : Json → Json
  | .leaf l => .leaf l.reread
  | .array items => .array (rereadItems items)
  | .object members => .object (rereadMembers members)

def rereadItems : List Json → List Json
  | [] => []
  | item :: rest => item.reread :: rereadItems rest

def rereadMembers : List (String × Json) → List (String × Json)
  | [] => []
  | (name, value) :: rest => (name, value.reread) :: rereadMembers rest

end

mutual

def nesting : Json → Nat
  | .leaf _ => 0
  | .array items => nestingItems items + 1
  | .object members => nestingMembers members + 1

def nestingItems : List Json → Nat
  | [] => 0
  | item :: rest => max item.nesting (nestingItems rest)

def nestingMembers : List (String × Json) → Nat
  | [] => 0
  | (_, value) :: rest => max value.nesting (nestingMembers rest)

end

theorem Number.exists_numeral (m : Number) : ∃ n : Numeral, n.WellFormed ∧
    n.value? = some m.reread ∧ m.render = n.text := by
  cases m with
  | integer i => exact i.exists_numeral
  | fraction x => exact x.exists_reread_numeral

theorem scanFound_render (l : Leaf) {rest : List Char} (ends : Ends rest) :
    scanFound (l.render ++ rest) = .ok (.leaf l.reread, rest) := by
  cases l with
  | null => simp [Leaf.render, scanFound, skipBlanks, isBlank, scanKeyword, Except.map, Leaf.reread]
  | boolean b =>
      cases b <;>
        simp [Leaf.render, scanFound, skipBlanks, isBlank, scanKeyword, Except.map, Leaf.reread]
  | number m =>
      obtain ⟨n, wellFormed, value, text⟩ := m.exists_numeral
      rw [Leaf.render, text]
      exact scanFound_numeral wellFormed value ends
  | text s =>
      exact scanFound_text_iff.2 ⟨_, skipBlanks_cons (by decide) _, scanString_quote s rest⟩

/-- A value begins with a character that is neither a blank nor a closing bracket. -/
theorem head_render (j : Json) :
    ∃ first tail, j.render = first :: tail ∧ isBlank first = false ∧ first ≠ ']' := by
  cases j with
  | leaf l =>
      cases l with
      | null => exact ⟨_, _, rfl, by decide, by decide⟩
      | boolean b => cases b <;> exact ⟨_, _, rfl, by decide, by decide⟩
      | number m =>
          obtain ⟨n, wellFormed, -, text⟩ := m.exists_numeral
          obtain ⟨first, tail, render, digit⟩ := Numeral.head_render wellFormed
          simp only [Json.render, Leaf.render, text, Numeral.text, render]
          cases n.negative with
          | true => exact ⟨'-', _, rfl, by decide, by decide⟩
          | false =>
              refine ⟨first, tail, rfl, not_blank_of_isDigit digit, ?_⟩
              rintro rfl
              exact absurd digit (by decide)
      | text s => exact ⟨_, _, rfl, by decide, by decide⟩
  | array items => cases items <;> exact ⟨_, _, rfl, by decide, by decide⟩
  | object members => cases members <;> exact ⟨_, _, rfl, by decide, by decide⟩

theorem ends_cons {c : Char} (h : c.isDigit = false ∧ c ≠ '.' ∧ c ≠ 'e' ∧ c ≠ 'E')
    (rest : List Char) : Ends (c :: rest) := by
  rintro _ ⟨⟩
  exact h

theorem ends_renderItems (items : List Json) (rest : List Char) :
    Ends (renderItems items ++ rest) := by
  cases items <;> exact ends_cons (by decide) _

theorem ends_renderMembers (members : List (String × Json)) (rest : List Char) :
    Ends (renderMembers members ++ rest) := by
  cases members with
  | nil => exact ends_cons (by decide) _
  | cons m members => exact ends_cons (by decide) _

theorem nextItem_render_first (j : Json) (rest : List Char) :
    nextItem true (j.render ++ rest) = .ok (true, j.render ++ rest) := by
  obtain ⟨first, tail, render, solid, notClose⟩ := j.head_render
  simp [nextItem, render, skipBlanks_cons solid]

theorem nextItem_render_next (j : Json) (rest : List Char) :
    nextItem false (',' :: (j.render ++ rest)) = .ok (true, j.render ++ rest) := by
  obtain ⟨first, tail, render, solid, notClose⟩ := j.head_render
  have comma := skipBlanks_cons (show isBlank ',' = false by decide) (j.render ++ rest)
  simp only [render, List.cons_append] at comma ⊢
  simp [nextItem, comma, skipBlanks_cons solid, notClose]

theorem scanName_quote (name : String) (rest : List Char) :
    scanName (quote name ++ rest).tail = .ok (some name, rest) := by
  rw [scanName, scanString_quote]
  rfl

theorem nextMember_quote_first (name : String) (rest : List Char) :
    nextMember true (quote name ++ rest) = .ok (some name, rest) := by
  have solid := skipBlanks_cons (show isBlank '"' = false by decide)
    ((quote name ++ rest).tail)
  have scanned := scanName_quote name rest
  unfold nextMember
  rw [show quote name ++ rest = '"' :: (quote name ++ rest).tail from rfl, solid]
  exact scanned

theorem nextMember_quote_next (name : String) (rest : List Char) :
    nextMember false (',' :: (quote name ++ rest)) = .ok (some name, rest) := by
  have comma := skipBlanks_cons (show isBlank ',' = false by decide) (quote name ++ rest)
  have solid := skipBlanks_cons (show isBlank '"' = false by decide)
    ((quote name ++ rest).tail)
  have scanned := scanName_quote name rest
  unfold nextMember
  rw [comma]
  rw [show quote name ++ rest = '"' :: (quote name ++ rest).tail from rfl]
  simp [solid, scanned]

theorem scanColon_cons (rest : List Char) : scanColon (':' :: rest) = .ok rest :=
  scanColon_eq_ok_iff.2 (skipBlanks_cons (by decide) rest)

mutual

/-- The text of a value is read back up to its end, if as many brackets may be open. -/
theorem read_render : (j : Json) → {depth : Nat} → j.nesting ≤ depth → {rest : List Char} →
    Ends rest → read depth (j.render ++ rest) = .ok (j.reread, rest)
  | .leaf l, _, _, rest, ends => read_leaf (scanFound_render l ends)
  | .array items, depth, within, rest, _ => by
      obtain ⟨inner, rfl⟩ := Nat.exists_eq_add_one_of_ne_zero
        (show depth ≠ 0 by rw [nesting] at within; omega)
      have within : nestingItems items ≤ inner := by
        rw [nesting] at within
        omega
      have found (inside : List Char) := scanFound_array_iff.2
        ⟨inside, skipBlanks_cons (show isBlank '[' = false by decide) inside, rfl⟩
      cases items with
      | nil => exact (read_array_iff (found _)).2 ⟨inner, [], rfl, .nil rfl, rfl⟩
      | cons item items =>
          rw [nestingItems, Nat.max_le] at within
          have text : (array (item :: items)).render ++ rest =
              '[' :: (item.render ++ (renderItems items ++ rest)) := by
            simp only [render, List.append_assoc, List.cons_append]
          rw [text]
          refine (read_array_iff (found _)).2 ⟨inner, _, rfl, ?_, rfl⟩
          exact .cons (nextItem_render_first item _)
            (item.read_render within.1 (ends_renderItems items rest))
            (itemsRow_render items within.2 rest)
  | .object members, depth, within, rest, _ => by
      obtain ⟨inner, rfl⟩ := Nat.exists_eq_add_one_of_ne_zero
        (show depth ≠ 0 by rw [nesting] at within; omega)
      have within : nestingMembers members ≤ inner := by
        rw [nesting] at within
        omega
      have found (inside : List Char) := scanFound_object_iff.2
        ⟨inside, skipBlanks_cons (show isBlank '{' = false by decide) inside, rfl⟩
      cases members with
      | nil => exact (read_object_iff (found _)).2 ⟨inner, [], rfl, .nil rfl, rfl⟩
      | cons m members =>
          obtain ⟨name, value⟩ := m
          rw [nestingMembers, Nat.max_le] at within
          have text : (object ((name, value) :: members)).render ++ rest =
              '{' :: (quote name ++ ':' :: (value.render ++ (renderMembers members ++ rest))) := by
            simp only [render, List.append_assoc, List.cons_append]
          rw [text]
          refine (read_object_iff (found _)).2 ⟨inner, _, rfl, ?_, rfl⟩
          exact .cons (nextMember_quote_first name _) (scanColon_cons _)
            (value.read_render within.1 (ends_renderMembers members rest))
            (membersRow_render members within.2 rest)

theorem itemsRow_render : (items : List Json) → {depth : Nat} → nestingItems items ≤ depth →
    (rest : List Char) →
    ItemsRow (read depth) false (renderItems items ++ rest) (rereadItems items) rest
  | [], _, _, rest => .nil (skipBlanks_cons (by decide) rest)
  | item :: items, depth, within, rest => by
      rw [nestingItems, Nat.max_le] at within
      have text : renderItems (item :: items) ++ rest =
          ',' :: (item.render ++ (renderItems items ++ rest)) := by
        simp only [renderItems, List.append_assoc, List.cons_append]
      rw [text]
      exact .cons (nextItem_render_next item _)
        (item.read_render within.1 (ends_renderItems items rest))
        (itemsRow_render items within.2 rest)

theorem membersRow_render : (members : List (String × Json)) → {depth : Nat} →
    nestingMembers members ≤ depth → (rest : List Char) →
    MembersRow (read depth) false (renderMembers members ++ rest) (rereadMembers members) rest
  | [], _, _, rest => .nil (skipBlanks_cons (by decide) rest)
  | (name, value) :: members, depth, within, rest => by
      rw [nestingMembers, Nat.max_le] at within
      have text : renderMembers ((name, value) :: members) ++ rest =
          ',' :: (quote name ++ ':' :: (value.render ++ (renderMembers members ++ rest))) := by
        simp only [renderMembers, List.append_assoc, List.cons_append]
      rw [text]
      exact .cons (nextMember_quote_next name _) (scanColon_cons _)
        (value.read_render within.1 (ends_renderMembers members rest))
        (membersRow_render members within.2 rest)

end

theorem readWhole_compact {j : Json} (within : j.nesting ≤ maxDepth) :
    readWhole (read maxDepth) j.compact = .ok j.reread := by
  have text : j.compact.toList = j.render ++ [] := by simp [compact]
  exact readWhole_eq_ok_iff.2 ⟨[], by rw [text]; exact j.read_render within ends_nil, rfl⟩

/-- The text of a value is read as nothing else, however many brackets it opens. -/
theorem eq_reread_of_readWhole {j j' : Json} (h : readWhole (read maxDepth) j.compact = .ok j') :
    j' = j.reread := by
  obtain ⟨rest, front, -⟩ := readWhole_eq_ok_iff.1 h
  have text : j.compact.toList = j.render ++ [] := by simp [compact]
  rw [text] at front
  have deep := read_mono (Nat.le_max_left maxDepth j.nesting) front
  rw [j.read_render (Nat.le_max_right ..) ends_nil] at deep
  exact (Prod.mk.inj (Except.ok.inj deep)).1.symm

end Json

end GeoQuery
