import GeoQuery.Json.Brackets
import GeoQuery.Proofs.Json.Spelling

/-!
Texts that are cut short. A reader that was given the front of a text either lacks the rest, or has
already decided: what it has read it reads from the whole text too, and what it has refused stays
refused. Only a cut between two characters of a number may change what is read, because the front of
a number is a number.
-/

namespace GeoQuery.Json

open Outcome

/-- How a place in a text stands to the strings of the text. -/
inductive Quoting
  | outside
  | inside
  | escaped
deriving DecidableEq

namespace Quoting

def next : Quoting → Char → Quoting
  | .outside, c => if c = '"' then .inside else .outside
  | .inside, c => if c = '"' then .outside else if c = '\\' then .escaped else .inside
  | .escaped, _ => .inside

def behind (q : Quoting) (text : List Char) : Quoting := text.foldl next q

@[simp] theorem behind_nil (q : Quoting) : q.behind [] = q := rfl

@[simp] theorem behind_cons (q : Quoting) (c : Char) (text : List Char) :
    q.behind (c :: text) = (q.next c).behind text := rfl

theorem behind_append (q : Quoting) (front back : List Char) :
    q.behind (front ++ back) = (q.behind front).behind back := List.foldl_append

theorem outside_behind_of_no_quote {text : List Char} (h : ∀ c ∈ text, c ≠ '"') :
    outside.behind text = outside := by
  induction text with
  | nil => rfl
  | cons c text ih =>
      obtain ⟨first, others⟩ := List.forall_mem_cons.1 h
      rw [behind_cons, next, if_neg first, ih others]

end Quoting

def isNumeric (c : Char) : Bool :=
  c.isDigit || c = '+' || c = '-' || c = '.' || c = 'e' || c = 'E'

/-- Two parts of a text that meet outside of strings, in characters of numbers. What stands on both
sides may be one number, so the front alone does not tell what is to be read. -/
def MeetNumeric (front back : List Char) : Prop :=
  Quoting.outside.behind front = .outside ∧ (∃ c ∈ front.getLast?, isNumeric c = true) ∧
    ∃ c ∈ back.head?, isNumeric c = true

instance (front back : List Char) : Decidable (MeetNumeric front back) :=
  inferInstanceAs (Decidable (_ ∧ (∃ c ∈ front.getLast?, _) ∧ ∃ c ∈ back.head?, _))

theorem MeetNumeric.append {front text back : List Char}
    (closed : Quoting.outside.behind front = .outside) (h : MeetNumeric text back) :
    MeetNumeric (front ++ text) back := by
  obtain ⟨outside, ⟨c, last, numeric⟩, head⟩ := h
  refine ⟨?_, ⟨c, ?_, numeric⟩, head⟩
  · rw [Quoting.behind_append, closed, outside]
  · rw [List.getLast?_append, Option.mem_def.1 last]
    rfl

theorem ne_quote_of_isNumeric {c : Char} (h : isNumeric c = true) : c ≠ '"' := by
  rintro rfl
  exact absurd h (by decide)

theorem isNumeric_of_isDigit {c : Char} (h : c.isDigit = true) : isNumeric c = true := by
  simp [isNumeric, h]

theorem ends_of_not_meetNumeric {front back : List Char} (numeric : ∀ c ∈ front, isNumeric c = true)
    (nonempty : front ≠ []) (h : ¬ MeetNumeric front back) : Ends back := by
  intro c head
  have other : isNumeric c = false := by
    by_contra own
    refine h ⟨?_, ⟨front.getLast nonempty, List.getLast?_eq_getLast_of_ne_nil nonempty, ?_⟩,
      c, head, by simpa using own⟩
    · exact Quoting.outside_behind_of_no_quote fun c member =>
        ne_quote_of_isNumeric (numeric c member)
    · exact numeric _ (List.getLast_mem nonempty)
  simp only [isNumeric, Bool.or_eq_false_iff, decide_eq_false_iff_not] at other
  exact ⟨other.1.1.1.1.1, other.1.1.2, other.1.2, other.2⟩

variable {α β : Type}

/-- What a reader makes of a text and of the text with more behind it: what is read stays, and the
fault stays a fault unless it is the end of the text. -/
def Continues (more : List Char) :
    Except Fault (α × List Char) → Except Fault (α × List Char) → Prop
  | .ok (a, rest), longer => longer = .ok (a, rest ++ more)
  | .error fault, longer => fault.cause.category = .unfinished ∨ ∃ fault', longer = .error fault'

/-- At this text, a reader takes whole strings, and decides alike when more text follows. -/
structure ResumesAt (reader : Reader α) (text : List Char) : Prop where
  taken : ∀ {a rest}, reader text = .ok (a, rest) →
    ∃ front, text = front ++ rest ∧ Quoting.outside.behind front = .outside
  goesOn : ∀ more, ¬ MeetNumeric text more → Continues more (reader text) (reader (text ++ more))

def Resumes (reader : Reader α) : Prop := ∀ text, ResumesAt reader text

section Units

variable {a b c d : Char} {unit : Nat}

theorem ordinary_of_hexValue? {n : Nat} (h : hexValue? c = some n) : c ≠ '"' ∧ c ≠ '\\' := by
  constructor
  · rintro rfl
    cases h
  · rintro rfl
    cases h

theorem utf8Size_of_hexValue? {n : Nat} (h : hexValue? c = some n) : c.utf8Size = 1 := by
  have small : c.val ≤ 0x7f := by
    unfold hexValue? at h
    split at h
    · next digit =>
        rw [Char.isDigit, Bool.and_eq_true, decide_eq_true_eq, decide_eq_true_eq] at digit
        exact UInt32.le_trans digit.2 (by decide)
    · split at h
      · next lower => exact UInt32.le_trans lower.2 (by decide)
      · split at h
        · next upper => exact UInt32.le_trans upper.2 (by decide)
        · cases h
  exact if_pos small

theorem hexValues_of_hexUnit? (h : hexUnit? a b c d = some unit) :
    ∀ x ∈ [a, b, c, d], ∃ n, hexValue? x = some n := by
  simp only [hexUnit?, Option.bind_eq_bind, Option.bind_eq_some_iff] at h
  obtain ⟨first, ha, second, hb, third, hc, fourth, hd, -⟩ := h
  simp only [List.forall_mem_cons, List.not_mem_nil, false_imp_iff, implies_true, and_true]
  exact ⟨⟨_, ha⟩, ⟨_, hb⟩, ⟨_, hc⟩, ⟨_, hd⟩⟩

theorem Quoting.inside_behind_unit (h : hexUnit? a b c d = some unit) :
    inside.behind ['\\', 'u', a, b, c, d] = inside := by
  have ordinary : ∀ x ∈ [a, b, c, d], x ≠ '"' ∧ x ≠ '\\' := fun x member => by
    obtain ⟨n, value⟩ := hexValues_of_hexUnit? h x member
    exact ordinary_of_hexValue? value
  simp only [List.forall_mem_cons] at ordinary
  obtain ⟨ha, hb, hc, hd, -⟩ := ordinary
  simp [next, ha, hb, hc, hd]

theorem byteCount_of_hexValues {text : List Char} (h : ∀ x ∈ text, ∃ n, hexValue? x = some n) :
    byteCount text = text.length := by
  induction text with
  | nil => rfl
  | cons x text ih =>
      obtain ⟨⟨n, value⟩, others⟩ := List.forall_mem_cons.1 h
      rw [byteCount, utf8Size_of_hexValue? value, ih others, List.length_cons, Nat.add_comm]

/-- Too few characters for an escape that have the bytes of one are no beginning of one. -/
theorem unfinished_or_broken {short : List Char} (few : short.length < 4) :
    (brokenUnit short).cause.category = .unfinished ∨
      ∀ more a b c d rest, short ++ more = a :: b :: c :: d :: rest → hexUnit? a b c d = none := by
  by_cases bytes : byteCount short < 4
  · left
    rw [brokenUnit, if_pos bytes]
    rfl
  · right
    intro more a b c d rest split
    cases value : hexUnit? a b c d with
    | none => rfl
    | some unit =>
        refine absurd ?_ bytes
        have front : short = [a, b, c, d].take short.length := by
          calc short = (short ++ more).take short.length := List.take_left.symm
            _ = ([a, b, c, d] ++ rest).take short.length := by rw [split]; rfl
            _ = [a, b, c, d].take short.length :=
                List.take_append_of_le_length (Nat.le_of_lt few)
        have hex : ∀ x ∈ short, ∃ n, hexValue? x = some n := fun x member => by
          rw [front] at member
          exact hexValues_of_hexUnit? value x (List.mem_of_mem_take member)
        rw [byteCount_of_hexValues hex]
        exact few

theorem scanString_broken {read tail : List Char}
    (broken : ∀ a b c d rest, tail = a :: b :: c :: d :: rest → hexUnit? a b c d = none) :
    ∃ fault, scanString read ('\\' :: 'u' :: tail) = .error fault := by
  match tail with
  | a :: b :: c :: d :: rest => exact ⟨_, by rw [scanString, broken a b c d rest rfl]⟩
  | [] | [_] | [_, _] | [_, _, _] =>
      simp only [scanString]
      exact ⟨_, rfl⟩

theorem scanString_alone {read tail : List Char} (value : hexUnit? a b c d = some unit)
    (high : isHighSurrogate unit = true)
    (broken : ∀ a b c d rest, tail = '\\' :: 'u' :: a :: b :: c :: d :: rest →
      hexUnit? a b c d = none) :
    ∃ fault, scanString read ('\\' :: 'u' :: a :: b :: c :: d :: tail) = .error fault := by
  simp only [scanString, value, high, if_true]
  split
  · exact ⟨_, rfl⟩
  · split
    · next e f g i rest =>
        rw [broken e f g i rest rfl]
        exact ⟨_, rfl⟩
    · exact ⟨_, rfl⟩

theorem length_lt_four {rest : List Char}
    (short : ∀ a b c d tail, rest ≠ a :: b :: c :: d :: tail) : rest.length < 4 := by
  obtain - | ⟨a, - | ⟨b, - | ⟨c, - | ⟨d, tail⟩⟩⟩⟩ := rest
  iterate 4 simp
  exact absurd rfl (short a b c d tail)

theorem unfinished_or_unpaired {rest : List Char}
    (notEscape : ∀ a b c d tail, rest ≠ '\\' :: 'u' :: a :: b :: c :: d :: tail) :
    (unpaired rest).cause.category = .unfinished ∨
      ∀ more a b c d tail, rest ++ more = '\\' :: 'u' :: a :: b :: c :: d :: tail →
        hexUnit? a b c d = none := by
  match rest with
  | [] => exact .inl rfl
  | [x] =>
      by_cases escape : x = '\\'
      · subst escape
        exact .inl rfl
      · right
        intro more a b c d tail split
        exact absurd (List.cons.inj split).1 escape
  | x :: y :: short =>
      by_cases escape : x = '\\' ∧ y = 'u'
      · obtain ⟨rfl, rfl⟩ := escape
        have few := length_lt_four fun a b c d tail same =>
          notEscape a b c d tail (congrArg (fun short => '\\' :: 'u' :: short) same)
        refine (unfinished_or_broken few).imp id fun broken more a b c d tail split => ?_
        simp only [List.cons_append, List.cons.injEq, true_and] at split
        exact broken more a b c d tail split
      · right
        intro more a b c d tail split
        simp only [List.cons_append, List.cons.injEq] at split
        exact absurd ⟨split.1, split.2.1⟩ escape

end Units

theorem SpellsText.closes {chars text : List Char} (h : SpellsText chars text) :
    Quoting.inside.behind text = .outside := by
  induction h with
  | closing => rfl
  | plain quote backslash _ _ ih =>
      rw [Quoting.behind_cons, Quoting.next, if_neg quote, if_neg backslash, ih]
  | letter _ _ ih => exact ih
  | @unit a b c d n chars text value _ _ _ ih =>
      change Quoting.inside.behind (['\\', 'u', a, b, c, d] ++ text) = .outside
      rw [Quoting.behind_append, Quoting.inside_behind_unit value, ih]
  | @pair a b c d a' b' c' d' n m chars text value _ value' _ _ ih =>
      change Quoting.inside.behind (['\\', 'u', a, b, c, d] ++
        (['\\', 'u', a', b', c', d'] ++ text)) = .outside
      rw [Quoting.behind_append, Quoting.inside_behind_unit value, Quoting.behind_append,
        Quoting.inside_behind_unit value', ih]

theorem scanString_continues (read text more : List Char) :
    Continues more (scanString read text) (scanString read (text ++ more)) := by
  -- A text that ends inside an escape is unfinished, unless what there is of the escape already
  -- breaks it; then it is broken with anything behind it, too.
  fun_induction scanString read text with
  | case1 => exact .inl rfl
  | case2 => simp [Continues, scanString]
  | case3 read a b c d rest value =>
      refine .inr (scanString_broken fun a' b' c' d' rest' same => ?_)
      cases same
      exact value
  | case4 read a b c d rest unit value low =>
      refine .inr ⟨.before (rest ++ more) (.malformed .loneSurrogate), ?_⟩
      simp only [List.cons_append, scanString, value, low, if_true]
  | case5 read a b c d unit value low high a' b' c' d' rest value' =>
      refine .inr (scanString_alone value high fun _ _ _ _ _ same => ?_)
      cases same
      exact value'
  | case6 read a b c d unit value low high a' b' c' d' rest unit' value' low' ih =>
      simpa only [List.cons_append, scanString, value, low, high, value', low', if_true,
        Bool.false_eq_true, if_false] using ih
  | case7 read a b c d unit value low high a' b' c' d' rest unit' value' low' =>
      refine .inr ⟨.before (rest ++ more) (.malformed .loneSurrogate), ?_⟩
      simp only [List.cons_append, scanString, value, low, high, value', low', if_true,
        Bool.false_eq_true, if_false]
  | case8 read a b c d unit value low high rest notEscape =>
      exact (unfinished_or_unpaired notEscape).imp id fun broken =>
        scanString_alone value high (broken more)
  | case9 read a b c d rest unit value low high ih =>
      simpa only [List.cons_append, scanString, value, low, high, Bool.false_eq_true, if_false]
        using ih
  | case10 read rest short =>
      exact (unfinished_or_broken (length_lt_four short)).imp id fun broken =>
        scanString_broken (broken more)
  | case11 read c rest _ letter e value ih =>
      rw [List.cons_append, List.cons_append, scanString_letter letter, value]
      exact ih
  | case12 read c rest _ letter value =>
      rw [List.cons_append, List.cons_append, scanString_letter letter, value]
      exact .inr ⟨_, rfl⟩
  | case13 => exact .inl rfl
  | case14 read c rest quote _ _ letter last control =>
      rw [List.cons_append, scanString_plain quote (ne_backslash letter last), if_pos control]
      exact .inr ⟨_, rfl⟩
  | case15 read c rest quote _ _ letter last printed ih =>
      rw [List.cons_append, scanString_plain quote (ne_backslash letter last), if_neg printed]
      exact ih

section Digits

variable {row more : List Char}

theorem takeWhile_digits_append (apart : row.dropWhile Char.isDigit = [] → NoDigitNext more) :
    (row ++ more).takeWhile Char.isDigit = row.takeWhile Char.isDigit := by
  induction row with
  | nil =>
      have none : ∀ c ∈ ([] : List Char), c.isDigit := nofun
      exact takeWhile_digits none (apart rfl)
  | cons c row ih =>
      rw [List.cons_append, List.takeWhile_cons, List.takeWhile_cons]
      rw [List.dropWhile_cons] at apart
      split
      · next digit =>
          rw [if_pos digit] at apart
          rw [ih apart]
      · rfl

theorem dropWhile_digits_append (apart : row.dropWhile Char.isDigit = [] → NoDigitNext more) :
    (row ++ more).dropWhile Char.isDigit = row.dropWhile Char.isDigit ++ more := by
  induction row with
  | nil =>
      have none : ∀ c ∈ ([] : List Char), c.isDigit := nofun
      exact dropWhile_digits none (apart rfl)
  | cons c row ih =>
      rw [List.cons_append, List.dropWhile_cons, List.dropWhile_cons]
      rw [List.dropWhile_cons] at apart
      split
      · next digit =>
          rw [if_pos digit] at apart
          exact ih apart
      · rfl

end Digits

namespace Numeral

variable {more : List Char}

/-- The same for a scanner that goes on as long as it can: what it read stays if nothing follows that
belongs to it. -/
def ContinuesApart (more : List Char) :
    Except Fault (α × List Char) → Except Fault (α × List Char) → Prop
  | .ok (a, rest), longer => (rest = [] → Ends more) → longer = .ok (a, rest ++ more)
  | .error fault, longer => fault.cause.category = .unfinished ∨ ∃ fault', longer = .error fault'

theorem ContinuesApart.bind {x y : Except Fault (α × List Char)}
    {f : α × List Char → Except Fault (β × List Char)} (h : ContinuesApart more x y)
    (atEnd : ∀ a, ∃ b, f (a, []) = .ok (b, []))
    (next : ∀ a rest, ContinuesApart more (f (a, rest)) (f (a, rest ++ more))) :
    ContinuesApart more (x >>= f) (y >>= f) := by
  cases x with
  | error fault =>
      refine Or.imp id ?_ h
      rintro ⟨fault', rfl⟩
      exact ⟨fault', rfl⟩
  | ok pair =>
      obtain ⟨a, rest⟩ := pair
      have following := next a rest
      cases rest with
      | nil =>
          obtain ⟨b, ended⟩ := atEnd a
          change ContinuesApart more (f (a, [])) (y >>= f)
          rw [ended] at following ⊢
          intro apart
          rw [h apart]
          exact following apart
      | cons c rest =>
          rw [h nofun]
          exact following

theorem scanWhole_continues (ended : Cause) (unfinished : ended.category = .unfinished)
    (text more : List Char) :
    ContinuesApart more (scanWhole ended text) (scanWhole ended (text ++ more)) := by
  cases text with
  | nil => exact .inl unfinished
  | cons c rest =>
      rw [List.cons_append, scanWhole, scanWhole]
      split
      · cases rest with
        | nil =>
            intro apart
            have next : more.head?.any Char.isDigit = false := by
              cases more with
              | nil => rfl
              | cons d more => simp [(apart rfl).noDigitNext d rfl]
            simp [next]
        | cons d rest =>
            cases digit : d.isDigit with
            | true =>
                simp only [List.cons_append, List.head?_cons, Option.any_some, digit, if_true]
                exact .inr ⟨_, rfl⟩
            | false =>
                simp only [List.cons_append, List.head?_cons, Option.any_some, digit,
                  Bool.false_eq_true, if_false]
                exact fun _ => rfl
      · split
        · intro apart
          have noDigit := fun finished => (apart finished).noDigitNext
          rw [takeWhile_digits_append noDigit, dropWhile_digits_append noDigit]
        · exact .inr ⟨_, rfl⟩

theorem scanFraction_continues (ended : Cause) (unfinished : ended.category = .unfinished)
    (text more : List Char) :
    ContinuesApart more (scanFraction ended text) (scanFraction ended (text ++ more)) := by
  match text with
  | [] =>
      intro apart
      cases more with
      | nil => rfl
      | cons c more =>
          obtain ⟨-, point, -⟩ := apart rfl c rfl
          simp [scanFraction, point]
  | c :: rest =>
      by_cases point : c = '.'
      · subst point
        cases rest with
        | nil => exact .inl unfinished
        | cons d rest =>
            simp only [List.cons_append, scanFraction]
            split
            · intro apart
              have noDigit := fun finished => (apart finished).noDigitNext
              rw [takeWhile_digits_append noDigit, dropWhile_digits_append noDigit]
            · exact .inr ⟨_, rfl⟩
      · have none (back : List Char) : scanFraction ended (c :: back) = .ok ([], c :: back) := by
          simp [scanFraction, point]
        rw [List.cons_append, none, none]
        exact fun _ => rfl

theorem scanSign_append {text : List Char} (h : (scanSign text).2 ≠ []) (more : List Char) :
    scanSign (text ++ more) = ((scanSign text).1, (scanSign text).2 ++ more) := by
  match text with
  | [] => exact absurd rfl h
  | c :: rest =>
      by_cases minus : c = '-'
      · subst minus
        rfl
      · by_cases plus : c = '+'
        · subst plus
          rfl
        · simp [scanSign, minus, plus]

theorem scanExponent_continues (ended : Cause) (unfinished : ended.category = .unfinished)
    (text more : List Char) :
    ContinuesApart more (scanExponent ended text) (scanExponent ended (text ++ more)) := by
  cases text with
  | nil =>
      intro apart
      cases more with
      | nil => rfl
      | cons c more =>
          obtain ⟨-, -, lower, upper⟩ := apart rfl c rfl
          simp [scanExponent, lower, upper]
  | cons c rest =>
      rw [List.cons_append, scanExponent, scanExponent]
      split
      · cases signed : scanSign rest with
        | mk negative back =>
            cases back with
            | nil => exact .inl unfinished
            | cons d back =>
                rw [scanSign_append (by simp [signed]), signed]
                dsimp only [List.cons_append]
                split
                · intro apart
                  have noDigit := fun finished => (apart finished).noDigitNext
                  rw [takeWhile_digits_append noDigit, dropWhile_digits_append noDigit]
                · exact .inr ⟨_, rfl⟩
      · exact fun _ => rfl

theorem scan_continues (ended : Cause) (unfinished : ended.category = .unfinished)
    (negative : Bool) (text more : List Char) :
    ContinuesApart more (scan ended negative text) (scan ended negative (text ++ more)) := by
  refine (scanWhole_continues ended unfinished text more).bind (fun whole => ⟨_, rfl⟩) ?_
  intro whole rest
  refine (scanFraction_continues ended unfinished rest more).bind (fun fraction => ⟨_, rfl⟩) ?_
  intro fraction rest
  refine (scanExponent_continues ended unfinished rest more).bind (fun exponent => ⟨_, rfl⟩) ?_
  exact fun exponent rest _ => rfl

theorem Spells.ne_nil {n : Numeral} {text : List Char} (h : n.Spells text) : text ≠ [] := by
  obtain ⟨wellFormed, tail, rfl, -⟩ := h
  obtain zero | ⟨first, others, whole, -⟩ := wellFormed.whole_head
  · simp [zero]
  · simp [whole]

theorem Spells.numeric {n : Numeral} {text : List Char} (h : n.Spells text) :
    ∀ c ∈ text, isNumeric c = true := by
  obtain ⟨wellFormed, tail, rfl, exponent⟩ := h
  simp only [List.forall_mem_append]
  refine ⟨fun c member => isNumeric_of_isDigit (wellFormed.whole_digits c member), ?_, ?_⟩
  · have digits := wellFormed.fraction_digits
    cases hf : n.fraction with
    | nil => exact nofun
    | cons digit row =>
        rw [hf] at digits
        exact List.forall_mem_cons.2 ⟨by decide, fun c member =>
          isNumeric_of_isDigit (digits c member)⟩
  · cases he : n.exponent with
    | none =>
        rw [he] at exponent
        obtain rfl : tail = [] := exponent
        exact nofun
    | some e =>
        rw [he] at exponent
        obtain ⟨mark, sign, letter, signed, rfl⟩ := exponent
        have digits := (wellFormed.exponent_digits e he).2
        refine List.forall_mem_cons.2 ⟨?_, List.forall_mem_append.2 ⟨?_, ?_⟩⟩
        · obtain rfl | rfl := letter <;> decide
        · obtain ⟨rfl, -⟩ | ⟨rfl | rfl, -⟩ := signed
          · exact List.forall_mem_singleton.2 rfl
          · exact List.forall_mem_singleton.2 rfl
          · exact nofun
        · exact fun c member => isNumeric_of_isDigit (digits c member)

theorem read_resumes (negative : Bool) : Resumes (read negative) := by
  refine fun text => ⟨fun h => ?_, fun more parted => ?_⟩
  · obtain ⟨n, -, -, front, split, spelled⟩ := numeral_of_read h
    exact ⟨front, split, Quoting.outside_behind_of_no_quote fun c member =>
      ne_quote_of_isNumeric (spelled.numeric c member)⟩
  · have scanned := scan_continues (.unfinished .value) rfl negative text more
    rw [read, read]
    cases front : scan (.unfinished .value) negative text with
    | error fault =>
        rw [front] at scanned
        refine scanned.imp id ?_
        rintro ⟨fault', longer⟩
        exact ⟨fault', by rw [longer]; rfl⟩
    | ok pair =>
        obtain ⟨numeral, rest⟩ := pair
        rw [front] at scanned
        have apart : rest = [] → Ends more := by
          rintro rfl
          obtain ⟨-, own, split, spelled⟩ := spells_of_scan front
          rw [List.append_nil] at split
          subst split
          exact ends_of_not_meetNumeric spelled.numeric spelled.ne_nil parted
        have longer : scan (.unfinished .value) negative (text ++ more) =
            .ok (numeral, rest ++ more) := scanned apart
        rw [longer]
        cases value : numeral.value? with
        | none =>
            simp only [bind, Except.bind, value]
            exact .inr ⟨_, rfl⟩
        | some number =>
            simp only [bind, Except.bind, value]
            rfl

end Numeral

end GeoQuery.Json
