import GeoQuery.Command
import GeoQuery.Proofs.Decimal.Token
import GeoQuery.Proofs.Outcome

/-!
Arguments and their tokens. A list of arguments is encoded exactly if all of its numbers are finite,
and then into the tokens one by one. Numbers have one token exactly if they are numerically equal, and
no number has the token of a word that begins with another letter than a number does.
-/

namespace GeoQuery

namespace Binary64

def unsignZero : Binary64 → Binary64
  | .finite x => .finite x.unsignZero
  | x => x

/-- The token of a number. One that is not finite has none, and its text stands here instead. -/
def token : Binary64 → String
  | .finite x => x.token
  | x => x.display

theorem finite_token_ne_infinite (x : Finite64) (negative : Bool) :
    x.token ≠ (infinite negative).display := by
  intro heq
  obtain ⟨n, wellFormed, -, -, text⟩ := x.exists_token_numeral
  obtain ⟨first, rest, render, digit⟩ := Json.Numeral.head_render wellFormed
  have notLetter : 'i' ≠ first := by
    rintro rfl
    exact absurd digit (by decide)
  have notMinus : '-' ≠ first := by
    rintro rfl
    exact absurd digit (by decide)
  rw [heq, render] at text
  cases negative <;> cases hn : n.negative <;> simp_all [display]

theorem finite_token_ne_nan (x : Finite64) : x.token ≠ nan.display := by
  intro heq
  obtain ⟨first, rest, text, head⟩ := x.head_token
  have noLetter : first ≠ 'N' := by
    rintro rfl
    exact absurd head (by decide)
  rw [heq] at text
  simp [display, noLetter.symm] at text

/-- Tokens are equal exactly if the numbers are, where zero has no sign. -/
theorem token_inj {x y : Binary64} : x.token = y.token ↔ x.unsignZero = y.unsignZero := by
  cases x with
  | finite x =>
      cases y with
      | finite y => simp [token, unsignZero, Finite64.token_inj]
      | infinite negative => simpa [token, unsignZero] using finite_token_ne_infinite x negative
      | nan => simpa [token, unsignZero] using finite_token_ne_nan x
  | infinite negative =>
      cases y with
      | finite y => simpa [token, unsignZero] using (finite_token_ne_infinite y negative).symm
      | infinite negative' => cases negative <;> cases negative' <;> simp [token, unsignZero, display]
      | nan => cases negative <;> simp [token, unsignZero, display]
  | nan =>
      cases y with
      | finite y => simpa [token, unsignZero] using (finite_token_ne_nan y).symm
      | infinite negative => cases negative <;> simp [token, unsignZero, display]
      | nan => simp

def StartsNumber (c : Char) : Prop := c = '-' ∨ c.isDigit ∨ c = 'i' ∨ c = 'N'

instance (c : Char) : Decidable (StartsNumber c) :=
  inferInstanceAs (Decidable (c = '-' ∨ c.isDigit ∨ c = 'i' ∨ c = 'N'))

theorem head_token (x : Binary64) : ∃ c ∈ x.token.toList.head?, StartsNumber c := by
  cases x with
  | finite x =>
      obtain ⟨first, rest, text, head⟩ := x.head_token
      refine ⟨first, by simp [token, text], ?_⟩
      rcases head with minus | digit
      · exact .inl minus
      · exact .inr (.inl digit)
  | infinite negative => cases negative <;> exact ⟨_, rfl, by decide⟩
  | nan => exact ⟨_, rfl, by decide⟩

theorem token_ne {x : Binary64} {word : String}
    (h : ∀ c ∈ word.toList.head?, ¬ StartsNumber c) : x.token ≠ word := by
  rintro rfl
  obtain ⟨c, hc, starts⟩ := x.head_token
  exact h c hc starts

end Binary64

namespace Argument

def token : Argument → String
  | .word text => text
  | .number _ value => value.token

def IsFinite : Argument → Prop
  | .word _ => True
  | .number _ value => value.isFinite

instance : DecidablePred IsFinite
  | .word _ => inferInstanceAs (Decidable True)
  | .number _ value => inferInstanceAs (Decidable (value.isFinite = true))

theorem encode_eq_ok_iff {a : Argument} {text : String} :
    a.encode = .ok text ↔ a.IsFinite ∧ text = a.token := by
  cases a with
  | word => simp [encode, IsFinite, token, eq_comm]
  | number clause value =>
      cases value <;>
        simp [encode, formatNumber, IsFinite, Binary64.isFinite, Binary64.finite?, token,
          Binary64.token, eq_comm]

theorem encodeAll_eq_ok_iff {arguments : List Argument} {tokens : List String} :
    encodeAll arguments = .ok tokens ↔
      (∀ a ∈ arguments, a.IsFinite) ∧ tokens = arguments.map token := by
  rw [encodeAll]
  induction arguments generalizing tokens with
  | nil => simp [List.mapM_nil, pure, Except.pure, eq_comm]
  | cons a arguments ih =>
      rw [List.mapM_cons, Outcome.bind_eq_ok_iff, List.forall_mem_cons]
      simp only [encode_eq_ok_iff, Outcome.bind_eq_ok_iff, ih]
      constructor
      · intro h
        obtain ⟨_, ⟨finite, rfl⟩, _, ⟨finites, rfl⟩, all⟩ := h
        exact ⟨⟨finite, finites⟩, (Except.ok.inj all).symm⟩
      · intro h
        obtain ⟨⟨finite, finites⟩, rfl⟩ := h
        exact ⟨_, ⟨finite, rfl⟩, _, ⟨finites, rfl⟩, rfl⟩

end Argument

namespace Compilation

theorem result_ofArguments (name : String) (arguments : List Argument) :
    (ofArguments name arguments).result = (Argument.encodeAll arguments).map (Command.mk name) := by
  rw [ofArguments]
  cases Argument.encodeAll arguments <;> rfl

/-- A compilation records itself if it succeeds, and nothing else. -/
theorem events_ofArguments (name : String) (arguments : List Argument) :
    (ofArguments name arguments).events = Event.ofCompiled (ofArguments name arguments).result := by
  rw [ofArguments]
  cases Argument.encodeAll arguments <;> rfl

theorem result_ofArguments_eq_ok_iff {name : String} {arguments : List Argument} {c : Command} :
    (ofArguments name arguments).result = .ok c ↔
      (∀ a ∈ arguments, a.IsFinite) ∧ c = ⟨name, arguments.map Argument.token⟩ := by
  rw [result_ofArguments, Outcome.map_eq_ok_iff]
  simp only [Argument.encodeAll_eq_ok_iff]
  constructor
  · intro h
    obtain ⟨_, ⟨finite, rfl⟩, named⟩ := h
    exact ⟨finite, named.symm⟩
  · intro h
    obtain ⟨finite, rfl⟩ := h
    exact ⟨_, ⟨finite, rfl⟩, rfl⟩

end Compilation

end GeoQuery
