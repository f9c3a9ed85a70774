import GeoQuery.Proofs.Json.Numeral
import GeoQuery.Proofs.Json.Scan

/-!
The grammar of the smallest parts of a JSON text: strings, whose characters stand as they are or as
escapes, and numerals. The scanners take from a text just what the grammar spells.
-/

namespace GeoQuery.Json

open Outcome

def AllBlank (text : List Char) : Prop := ∀ c ∈ text, isBlank c = true

theorem AllBlank.append {front back : List Char} (h : AllBlank front) (h' : AllBlank back) :
    AllBlank (front ++ back) := List.forall_mem_append.2 ⟨h, h'⟩

theorem skipBlanks_eq_nil_iff {text : List Char} : skipBlanks text = [] ↔ AllBlank text :=
  List.dropWhile_eq_nil_iff

theorem skipBlanks_split (text : List Char) :
    ∃ blanks, text = blanks ++ skipBlanks text ∧ AllBlank blanks :=
  ⟨text.takeWhile isBlank, List.takeWhile_append_dropWhile.symm, fun _ => List.mem_takeWhile_imp⟩

theorem AllBlank.skipBlanks_append {blanks : List Char} (blank : AllBlank blanks)
    (rest : List Char) : skipBlanks (blanks ++ rest) = skipBlanks rest :=
  List.dropWhile_append_of_pos blank

theorem AllBlank.skipBlanks_eq {blanks : List Char} {c : Char} (blank : AllBlank blanks)
    (solid : isBlank c = false) (rest : List Char) :
    skipBlanks (blanks ++ c :: rest) = c :: rest := by
  rw [blank.skipBlanks_append, skipBlanks_cons solid]

theorem solid_of_skipBlanks {text rest : List Char} {c : Char} (h : skipBlanks text = c :: rest) :
    isBlank c = false := by
  have head := List.head?_dropWhile_not isBlank text
  rw [← skipBlanks, h] at head
  simpa using head

theorem skipBlanks_append {text rest : List Char} {c : Char} (h : skipBlanks text = c :: rest)
    (more : List Char) : skipBlanks (text ++ more) = c :: (rest ++ more) := by
  obtain ⟨blanks, split, blank⟩ := skipBlanks_split text
  rw [split, h, List.append_assoc]
  exact blank.skipBlanks_eq (solid_of_skipBlanks h) _

theorem scanKeyword_eq_ok_iff {word text rest : List Char} :
    scanKeyword word text = .ok rest ↔ text = word ++ rest := by
  fun_induction scanKeyword word text with
  | case1 text => simp
  | case2 => simp
  | case3 word c text ih => simp [ih]
  | case4 k word c text other => simp [other]

/-- How a row of characters is spelled in a string, up to the closing quote. -/
inductive SpellsText : List Char → List Char → Prop
  | closing : SpellsText [] ['"']
  | plain {c : Char} {chars text : List Char} (quote : c ≠ '"') (backslash : c ≠ '\\')
      (printed : ¬ c < ' ') (behind : SpellsText chars text) : SpellsText (c :: chars) (c :: text)
  | letter {c e : Char} {chars text : List Char} (value : letterEscape? c = some e)
      (behind : SpellsText chars text) : SpellsText (e :: chars) ('\\' :: c :: text)
  | unit {a b c d : Char} {n : Nat} {chars text : List Char} (value : hexUnit? a b c d = some n)
      (high : isHighSurrogate n = false) (low : isLowSurrogate n = false)
      (behind : SpellsText chars text) :
      SpellsText (Char.ofNat n :: chars) ('\\' :: 'u' :: a :: b :: c :: d :: text)
  /-- A character beyond sixteen bits takes two escapes. -/
  | pair {a b c d a' b' c' d' : Char} {n m : Nat} {chars text : List Char}
      (value : hexUnit? a b c d = some n) (high : isHighSurrogate n = true)
      (value' : hexUnit? a' b' c' d' = some m) (low : isLowSurrogate m = true)
      (behind : SpellsText chars text) :
      SpellsText (pairChar n m :: chars)
        ('\\' :: 'u' :: a :: b :: c :: d :: '\\' :: 'u' :: a' :: b' :: c' :: d' :: text)

theorem not_low_of_high {n : Nat} (high : isHighSurrogate n = true) : isLowSurrogate n = false := by
  simp only [isHighSurrogate, Bool.and_eq_true, decide_eq_true_eq] at high
  simp only [isLowSurrogate, Bool.and_eq_false_iff, decide_eq_false_iff_not]
  omega

theorem scanString_letter {read rest : List Char} {c : Char} (letter : c ≠ 'u') :
    scanString read ('\\' :: c :: rest) =
      match letterEscape? c with
      | some e => scanString (e :: read) rest
      | none => .error (.looking (c :: rest) .invalidEscape) := by
  cases value : letterEscape? c <;> simp [scanString, value, letter]

theorem scanString_plain {read rest : List Char} {c : Char} (quote : c ≠ '"')
    (backslash : c ≠ '\\') :
    scanString read (c :: rest) =
      if c < ' ' then .error (.looking (c :: rest) .controlCharacter)
      else scanString (c :: read) rest := by
  rw [scanString]
  all_goals simp_all

theorem SpellsText.scanString_eq {chars text : List Char} (h : SpellsText chars text)
    (read rest : List Char) :
    scanString read (text ++ rest) = .ok (String.ofList (read.reverse ++ chars), rest) := by
  induction h generalizing read with
  | closing => simp [scanString]
  | @plain c chars text quote backslash printed behind ih =>
      rw [List.cons_append, scanString_plain quote backslash, if_neg printed, ih]
      simp
  | @letter c e chars text value behind ih =>
      have other : c ≠ 'u' := by
        rintro rfl
        cases value
      rw [List.cons_append, List.cons_append, scanString_letter other, value]
      dsimp only
      rw [ih]
      simp
  | unit value high low behind ih =>
      simp only [List.cons_append, scanString, value, high, low, Bool.false_eq_true, if_false, ih]
      simp
  | pair value high value' low behind ih =>
      simp only [List.cons_append, scanString, value, high, not_low_of_high high, value', low,
        Bool.false_eq_true, if_false, if_true, ih]
      simp

theorem ne_backslash {c : Char} {rest : List Char}
    (letter : ∀ d rest', c = '\\' → rest = d :: rest' → False)
    (last : c = '\\' → rest = [] → False) : c ≠ '\\' := by
  intro same
  cases rest with
  | nil => exact last same rfl
  | cons d rest => exact letter d rest same rfl

theorem spellsText_of_scanString {read text rest : List Char} {s : String}
    (h : scanString read text = .ok (s, rest)) :
    ∃ chars front, text = front ++ rest ∧ SpellsText chars front ∧
      s = String.ofList (read.reverse ++ chars) := by
  fun_induction scanString read text with
  | case1 | case3 | case4 | case5 | case7 | case8 | case10 | case12 | case13 | case14 => cases h
  | case2 read rest =>
      cases h
      exact ⟨[], _, rfl, .closing, by simp⟩
  | case6 read a b c d unit value _ high a' b' c' d' rest unit' value' low' ih =>
      obtain ⟨chars, front, rfl, spelled, rfl⟩ := ih h
      exact ⟨_, _, rfl, .pair value high value' low' spelled, by simp⟩
  | case9 read a b c d rest unit value low high ih =>
      obtain ⟨chars, front, rfl, spelled, rfl⟩ := ih h
      exact ⟨_, _, rfl, .unit value (by simpa using high) (by simpa using low) spelled, by simp⟩
  | case11 read c rest _ _ e value ih =>
      obtain ⟨chars, front, rfl, spelled, rfl⟩ := ih h
      exact ⟨_, _, rfl, .letter value spelled, by simp⟩
  | case15 read c rest quote _ _ letter last printed ih =>
      obtain ⟨chars, front, rfl, spelled, rfl⟩ := ih h
      exact ⟨_, _, rfl, .plain quote (ne_backslash letter last) printed spelled, by simp⟩

theorem scanString_eq_ok_iff {text rest : List Char} {s : String} :
    scanString [] text = .ok (s, rest) ↔
      ∃ front, text = front ++ rest ∧ SpellsText s.toList front := by
  constructor
  · intro h
    obtain ⟨chars, front, rfl, spelled, rfl⟩ := spellsText_of_scanString h
    exact ⟨front, rfl, by simpa using spelled⟩
  · intro h
    obtain ⟨front, rfl, spelled⟩ := h
    rw [spelled.scanString_eq]
    simp

/-- The mark of an exponent is of either case, and its sign may be left out if it is positive. -/
def Exponent.Spells (e : Exponent) (text : List Char) : Prop :=
  ∃ mark sign, (mark = 'e' ∨ mark = 'E') ∧
    (sign = ['-'] ∧ e.negative = true ∨ (sign = ['+'] ∨ sign = []) ∧ e.negative = false) ∧
    text = mark :: (sign ++ e.digits)

def Exponent.SpellsOption : Option Exponent → List Char → Prop
  | none, text => text = []
  | some e, text => e.Spells text

namespace Numeral

/-- How a numeral is spelled behind its sign. -/
structure Spells (n : Numeral) (text : List Char) : Prop where
  wellFormed : n.WellFormed
  parts : ∃ tail, text = n.whole ++ (renderFraction n.fraction ++ tail) ∧
    Exponent.SpellsOption n.exponent tail

theorem scanExponent_spelled (ended : Cause) {e : Exponent} {text rest : List Char}
    (digits : e.digits ≠ [] ∧ ∀ c ∈ e.digits, c.isDigit) (spelled : e.Spells text)
    (hrest : NoDigitNext rest) : scanExponent ended (text ++ rest) = .ok (some e, rest) := by
  obtain ⟨mark, sign, letter, signed, rfl⟩ := spelled
  obtain ⟨negative, row⟩ := e
  obtain ⟨nonempty, digits⟩ := digits
  obtain ⟨digit, row, rfl⟩ := List.exists_cons_of_ne_nil nonempty
  obtain ⟨first, others⟩ := List.forall_mem_cons.1 digits
  have sign_eq : scanSign (sign ++ (digit :: row ++ rest)) = (negative, digit :: row ++ rest) := by
    obtain ⟨rfl, negated⟩ | ⟨rfl | rfl, positive⟩ := signed
    · rw [show negative = true from negated]
      rfl
    · rw [show negative = false from positive]
      rfl
    · rw [show negative = false from positive]
      have minus : digit ≠ '-' := by
        rintro rfl
        exact absurd first (by decide)
      have plus : digit ≠ '+' := by
        rintro rfl
        exact absurd first (by decide)
      simp [scanSign, minus, plus]
  rw [List.cons_append, scanExponent, if_pos letter, List.append_assoc, sign_eq]
  simp only [List.cons_append, first, if_true, takeWhile_digits others hrest,
    dropWhile_digits others hrest]

theorem Spells.scan_eq (ended : Cause) {n : Numeral} {text rest : List Char} (h : n.Spells text)
    (hrest : Ends rest) : scan ended n.negative (text ++ rest) = .ok (n, rest) := by
  obtain ⟨wellFormed, tail, rfl, exponent⟩ := h
  have scanned : scanExponent ended (tail ++ rest) = .ok (n.exponent, rest) ∧
      ∀ c ∈ (tail ++ rest).head?, c.isDigit = false ∧ c ≠ '.' := by
    cases he : n.exponent with
    | none =>
        rw [he] at exponent
        obtain rfl : tail = [] := exponent
        have digits : ∀ e ∈ (none : Option Exponent),
            e.digits ≠ [] ∧ ∀ c ∈ e.digits, c.isDigit := nofun
        exact ⟨scanExponent_append ended digits hrest, @exponent_head none rest hrest⟩
    | some e =>
        rw [he] at exponent
        have digits := wellFormed.exponent_digits e he
        refine ⟨scanExponent_spelled ended digits exponent hrest.noDigitNext, ?_⟩
        obtain ⟨mark, sign, letter, -, rfl⟩ := exponent
        intro c head
        obtain rfl : mark = c := Option.some.inj head
        obtain rfl | rfl := letter <;> decide
  obtain ⟨scanned, heads⟩ := scanned
  have noDigit : NoDigitNext (tail ++ rest) := fun c hc => (heads c hc).1
  have head : NoDigitNext (renderFraction n.fraction ++ (tail ++ rest)) := fraction_head noDigit
  have whole := scanWhole_append ended wellFormed head
  have fraction := scanFraction_append ended wellFormed.fraction_digits noDigit
    fun c hc => (heads c hc).2
  simp only [scan, List.append_assoc, whole, fraction, scanned, bind, Except.bind, pure, Except.pure]

/-! What the scanners of the parts take. -/

theorem digits_of_takeWhile {c : Char} (digit : c.isDigit = true) (row : List Char) :
    ∀ d ∈ c :: row.takeWhile Char.isDigit, d.isDigit :=
  List.forall_mem_cons.2 ⟨digit, fun _ => List.mem_takeWhile_imp⟩

theorem whole_of_scanWhole {ended : Cause} {text whole rest : List Char}
    (h : scanWhole ended text = .ok (whole, rest)) :
    text = whole ++ rest ∧ (∀ c ∈ whole, c.isDigit) ∧
      (whole = ['0'] ∨ ∃ first tail, whole = first :: tail ∧ first ≠ '0') := by
  unfold scanWhole at h
  split at h
  · cases h
  · next c r =>
      split at h
      · next zero =>
          subst zero
          split at h
          · cases h
          · cases h
            exact ⟨rfl, List.forall_mem_singleton.2 rfl, .inl rfl⟩
      · next nonzero =>
          split at h
          · next digit =>
              cases h
              exact ⟨by simp, digits_of_takeWhile digit r, .inr ⟨c, _, rfl, nonzero⟩⟩
          · cases h

theorem fraction_of_scanFraction {ended : Cause} {text fraction rest : List Char}
    (h : scanFraction ended text = .ok (fraction, rest)) :
    text = renderFraction fraction ++ rest ∧ ∀ c ∈ fraction, c.isDigit := by
  unfold scanFraction at h
  split at h
  · cases h
  · next c r =>
      split at h
      · next digit =>
          cases h
          exact ⟨by simp [renderFraction], digits_of_takeWhile digit r⟩
      · cases h
  · cases h
    exact ⟨rfl, by simp⟩

theorem sign_of_scanSign (text : List Char) :
    ∃ sign, text = sign ++ (scanSign text).2 ∧
      (sign = ['-'] ∧ (scanSign text).1 = true ∨
        (sign = ['+'] ∨ sign = []) ∧ (scanSign text).1 = false) := by
  unfold scanSign
  split
  · exact ⟨['-'], rfl, .inl ⟨rfl, rfl⟩⟩
  · exact ⟨['+'], rfl, .inr ⟨.inl rfl, rfl⟩⟩
  · exact ⟨[], rfl, .inr ⟨.inr rfl, rfl⟩⟩

theorem exponent_of_scanExponent {ended : Cause} {text rest : List Char} {exponent : Option Exponent}
    (h : scanExponent ended text = .ok (exponent, rest)) :
    ∃ tail, text = tail ++ rest ∧
      (∀ e ∈ exponent, e.digits ≠ [] ∧ ∀ c ∈ e.digits, c.isDigit) ∧
      Exponent.SpellsOption exponent tail := by
  unfold scanExponent at h
  split at h
  · cases h
    exact ⟨[], rfl, nofun, rfl⟩
  · next c r =>
      obtain ⟨sign, split, signed⟩ := sign_of_scanSign r
      split at h
      · next letter =>
          split at h
          · cases h
          · next negative d back hsign =>
              rw [hsign] at split signed
              split at h
              · next digit =>
                  cases h
                  refine ⟨c :: (sign ++ d :: back.takeWhile Char.isDigit), by simp [split], ?_,
                    c, sign, letter, signed, rfl⟩
                  rintro e ⟨⟩
                  exact ⟨by simp, digits_of_takeWhile digit back⟩
              · cases h
      · cases h
        exact ⟨[], rfl, nofun, rfl⟩

theorem spells_of_scan {ended : Cause} {negative : Bool} {text rest : List Char} {n : Numeral}
    (h : scan ended negative text = .ok (n, rest)) :
    n.negative = negative ∧ ∃ front, text = front ++ rest ∧ n.Spells front := by
  obtain ⟨⟨whole, behindWhole⟩, hwhole, h⟩ := bind_eq_ok_iff.1 h
  obtain ⟨⟨fraction, behindFraction⟩, hfraction, h⟩ := bind_eq_ok_iff.1 h
  obtain ⟨⟨exponent, behindExponent⟩, hexponent, h⟩ := bind_eq_ok_iff.1 h
  cases h
  obtain ⟨rfl, wholeDigits, wholeHead⟩ := whole_of_scanWhole hwhole
  obtain ⟨rfl, fractionDigits⟩ := fraction_of_scanFraction hfraction
  obtain ⟨tail, rfl, exponentDigits, spelled⟩ := exponent_of_scanExponent hexponent
  exact ⟨rfl, whole ++ (renderFraction fraction ++ tail), by simp,
    ⟨wholeDigits, wholeHead, fractionDigits, exponentDigits⟩, tail, rfl, spelled⟩

theorem numeral_of_read {negative : Bool} {text rest : List Char} {number : Number}
    (h : read negative text = .ok (number, rest)) :
    ∃ n : Numeral, n.negative = negative ∧ n.value? = some number ∧
      ∃ front, text = front ++ rest ∧ n.Spells front := by
  obtain ⟨⟨n, back⟩, scanned, h⟩ := bind_eq_ok_iff.1 h
  obtain ⟨sign, spelled⟩ := spells_of_scan scanned
  dsimp only at h
  split at h
  · next number' value =>
      cases h
      exact ⟨n, sign, value, spelled⟩
  · cases h

theorem Spells.read_eq {n : Numeral} {text rest : List Char} (h : n.Spells text)
    (hrest : Ends rest) (number : Number) (back : List Char) :
    read n.negative (text ++ rest) = .ok (number, back) ↔ n.value? = some number ∧ back = rest := by
  rw [read, h.scan_eq _ hrest]
  cases value : n.value? with
  | none => simp [bind, Except.bind, value]
  | some own => simp [bind, Except.bind, value, pure, Except.pure, eq_comm]

end Numeral

end GeoQuery.Json
