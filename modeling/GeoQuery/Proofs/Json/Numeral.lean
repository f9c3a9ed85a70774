import GeoQuery.Json.Numeral

namespace GeoQuery

namespace Json

def Ends (rest : List Char) : Prop :=
  ∀ c ∈ rest.head?, c.isDigit = false ∧ c ≠ '.' ∧ c ≠ 'e' ∧ c ≠ 'E'

def NoDigitNext (rest : List Char) : Prop := ∀ c ∈ rest.head?, c.isDigit = false

theorem Ends.noDigitNext {rest : List Char} (h : Ends rest) : NoDigitNext rest :=
  fun c hc => (h c hc).1

theorem ends_nil : Ends [] := by simp [Ends]

theorem takeWhile_digits {digits rest : List Char} (hdigits : ∀ c ∈ digits, c.isDigit)
    (hrest : NoDigitNext rest) : (digits ++ rest).takeWhile Char.isDigit = digits := by
  rw [List.takeWhile_append_of_pos hdigits]
  cases rest with
  | nil => simp
  | cons c rest => simp [hrest c rfl]

theorem dropWhile_digits {digits rest : List Char} (hdigits : ∀ c ∈ digits, c.isDigit)
    (hrest : NoDigitNext rest) : (digits ++ rest).dropWhile Char.isDigit = rest := by
  rw [List.dropWhile_append_of_pos hdigits]
  cases rest with
  | nil => rfl
  | cons c rest => simp [hrest c rfl]

def Exponent.render (e : Exponent) : List Char :=
  'e' :: (if e.negative then '-' else '+') :: e.digits

namespace Numeral

def renderFraction : List Char → List Char
  | [] => []
  | digit :: digits => '.' :: digit :: digits

def render (n : Numeral) : List Char :=
  n.whole ++ renderFraction n.fraction ++ n.exponent.elim [] Exponent.render

/-- Digits stand where digits have to stand, and a whole part of several does not begin with zero. -/
structure WellFormed (n : Numeral) : Prop where
  whole_digits : ∀ c ∈ n.whole, c.isDigit
  whole_head : n.whole = ['0'] ∨ ∃ first rest, n.whole = first :: rest ∧ first ≠ '0'
  fraction_digits : ∀ c ∈ n.fraction, c.isDigit
  exponent_digits : ∀ e ∈ n.exponent, e.digits ≠ [] ∧ ∀ c ∈ e.digits, c.isDigit

theorem scanWhole_append (ended : Cause) {n : Numeral} (h : n.WellFormed) {rest : List Char}
    (hrest : NoDigitNext rest) : scanWhole ended (n.whole ++ rest) = .ok (n.whole, rest) := by
  have digits := h.whole_digits
  rcases h.whole_head with zero | ⟨first, tail, whole, nonzero⟩
  · have next : rest.head?.any Char.isDigit = false := by
      cases rest with
      | nil => rfl
      | cons c rest => simp [hrest c rfl]
    simp [zero, scanWhole, next]
  · rw [whole] at digits ⊢
    have tailDigits : ∀ c ∈ tail, c.isDigit := fun c hc => digits c (List.mem_cons_of_mem _ hc)
    simp [scanWhole, nonzero, digits first, takeWhile_digits tailDigits hrest,
      dropWhile_digits tailDigits hrest]

theorem scanFraction_append (ended : Cause) {digits rest : List Char}
    (hdigits : ∀ c ∈ digits, c.isDigit) (hrest : NoDigitNext rest)
    (hpoint : ∀ c ∈ rest.head?, c ≠ '.') :
    scanFraction ended (renderFraction digits ++ rest) = .ok (digits, rest) := by
  cases digits with
  | nil =>
      cases rest with
      | nil => rfl
      | cons c rest =>
          have point : c ≠ '.' := hpoint c rfl
          simp [renderFraction, scanFraction, point]
  | cons digit digits =>
      have tailDigits : ∀ c ∈ digits, c.isDigit := fun c hc => hdigits c (List.mem_cons_of_mem _ hc)
      simp [renderFraction, scanFraction, hdigits digit, takeWhile_digits tailDigits hrest,
        dropWhile_digits tailDigits hrest]

theorem scanExponent_append (ended : Cause) {exponent : Option Exponent}
    (hdigits : ∀ e ∈ exponent, e.digits ≠ [] ∧ ∀ c ∈ e.digits, c.isDigit) {rest : List Char}
    (hrest : Ends rest) :
    scanExponent ended (exponent.elim [] Exponent.render ++ rest) = .ok (exponent, rest) := by
  cases exponent with
  | none =>
      cases rest with
      | nil => rfl
      | cons c rest =>
          obtain ⟨-, -, lower, upper⟩ := hrest c rfl
          simp [scanExponent, lower, upper]
  | some e =>
      obtain ⟨nonempty, digits⟩ := hdigits e rfl
      obtain ⟨negative, row⟩ := e
      cases row with
      | nil => exact absurd rfl nonempty
      | cons digit row =>
          have tailDigits : ∀ c ∈ row, c.isDigit := fun c hc => digits c (List.mem_cons_of_mem _ hc)
          cases negative <;>
            simp [Exponent.render, scanExponent, scanSign, digits digit,
              takeWhile_digits tailDigits hrest.noDigitNext,
              dropWhile_digits tailDigits hrest.noDigitNext]

theorem exponent_head {exponent : Option Exponent} {rest : List Char} (hrest : Ends rest) :
    ∀ c ∈ (exponent.elim [] Exponent.render ++ rest).head?, c.isDigit = false ∧ c ≠ '.' := by
  cases exponent with
  | none => exact fun c hc => ⟨(hrest c hc).1, (hrest c hc).2.1⟩
  | some e =>
      intro c hc
      simp only [Option.elim_some, Exponent.render, List.cons_append, List.head?_cons,
        Option.mem_some_iff] at hc
      subst hc
      decide

theorem fraction_head {digits rest : List Char} (hrest : NoDigitNext rest) :
    NoDigitNext (renderFraction digits ++ rest) := by
  cases digits with
  | nil => exact hrest
  | cons digit digits =>
      intro c hc
      simp only [renderFraction, List.cons_append, List.head?_cons, Option.mem_some_iff] at hc
      subst hc
      decide

theorem scan_render (ended : Cause) {n : Numeral} (h : n.WellFormed) {rest : List Char}
    (hrest : Ends rest) : scan ended n.negative (n.render ++ rest) = .ok (n, rest) := by
  have heads : ∀ c ∈ (n.exponent.elim [] Exponent.render ++ rest).head?,
      c.isDigit = false ∧ c ≠ '.' := exponent_head hrest
  have noDigit : NoDigitNext (n.exponent.elim [] Exponent.render ++ rest) :=
    fun c hc => (heads c hc).1
  have behindWhole : NoDigitNext
      (renderFraction n.fraction ++ (n.exponent.elim [] Exponent.render ++ rest)) :=
    fraction_head noDigit
  have whole := scanWhole_append ended h behindWhole
  have fraction := scanFraction_append ended h.fraction_digits noDigit
    fun c hc => (heads c hc).2
  have exponent := scanExponent_append ended h.exponent_digits hrest
  simp only [scan, render, List.append_assoc, whole, fraction, exponent, bind, Except.bind, pure,
    Except.pure]

theorem render_injective {n m : Numeral} (hn : n.WellFormed) (hm : m.WellFormed)
    (hsign : n.negative = m.negative) (h : n.render = m.render) : n = m := by
  have scanN := scan_render (.unfinished .value) hn ends_nil
  have scanM := scan_render (.unfinished .value) hm ends_nil
  rw [h, hsign, scanM] at scanN
  simp only [Except.ok.injEq, Prod.mk.injEq, and_true] at scanN
  exact scanN.symm

end Numeral

end Json

end GeoQuery
