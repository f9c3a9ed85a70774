import GeoQuery.Proofs.Argument

/-!
Groups of tokens that can be told apart from the left. What stands behind a group is known by the
words it may begin with, so a group that begins with another word is known to be there or not, and
words of a caller inside a group are never taken for the beginning of the next one.
-/

namespace GeoQuery.Command

variable {α β : Type}

/-- No tokens, or tokens that begin with one of these words. -/
def Opens (words tokens : List String) : Prop := ∀ t ∈ tokens.head?, t ∈ words

/-- In front of tokens that `Behind` allows, what is written of a value tells its view and where it
ends, and nothing more. -/
def Cuts (write : α → List String) (view : α → β) (Behind : List String → Prop) : Prop :=
  ∀ ⦃a b : α⦄ ⦃r s : List String⦄, Behind r → Behind s →
    (write a ++ r = write b ++ s ↔ view a = view b ∧ r = s)

namespace Opens

variable {words more tokens rest : List String} {word : String}

@[simp] theorem nil : Opens words [] := by
  intro t ht
  cases ht

theorem cons (h : word ∈ words) : Opens words (word :: tokens) := by
  intro t ht
  cases ht
  exact h

theorem mono (h : Opens words tokens) (subset : words ⊆ more) : Opens more tokens :=
  fun t ht => subset (h t ht)

theorem append (front : Opens words tokens) (back : Opens more rest) :
    Opens (words ++ more) (tokens ++ rest) := by
  cases tokens with
  | nil => exact back.mono (List.subset_append_right words more)
  | cons t tokens =>
      have first : t ∈ words := front t rfl
      exact cons (List.mem_append_left more first)

theorem ne_cons (h : Opens words tokens) (other : word ∉ words) : tokens ≠ word :: rest := by
  rintro rfl
  exact other (h word rfl)

theorem optional (o : Option α) (body : α → List String) :
    Opens [word] (o.elim [] fun a => word :: body a) := by
  cases o with
  | none => exact nil
  | some a => exact cons (List.mem_singleton.2 rfl)

theorem flag (b : Bool) : Opens [word] (if b then [word] else []) := by
  cases b with
  | false => exact nil
  | true => exact cons (List.mem_singleton.2 rfl)

theorem repeated (l : List α) (body : α → List String) :
    Opens [word] (l.flatMap fun a => word :: body a) := by
  cases l with
  | nil => exact nil
  | cons a l => exact cons (List.mem_singleton.2 rfl)

end Opens

namespace Cuts

variable {write : α → List String} {view : α → β} {Behind : List String → Prop}
variable {words : List String} {word : String}

theorem comap {γ : Type} (h : Cuts write view Behind) (part : γ → α) :
    Cuts (fun c => write (part c)) (fun c => view (part c)) Behind :=
  fun _ _ _ _ hr hs => h hr hs

theorem of_view {γ : Type} {seen : α → γ} (h : Cuts write view Behind)
    (same : ∀ a b, view a = view b ↔ seen a = seen b) : Cuts write seen Behind :=
  fun _ _ _ _ hr hs => by rw [← same]; exact h hr hs

/-- Two groups in a row, the second one allowed behind the first. -/
theorem append {γ : Type} {second : α → List String} {seen : α → γ}
    {Last : List String → Prop} (first : Cuts write view Behind) (last : Cuts second seen Last)
    (behind : ∀ a r, Last r → Behind (second a ++ r)) :
    Cuts (fun a => write a ++ second a) (fun a => (view a, seen a)) Last := by
  intro a b r s hr hs
  simp only [List.append_assoc, Prod.mk.injEq]
  rw [first (behind a r hr) (behind b s hs), last hr hs, and_assoc]

theorem optional (h : Cuts write view (fun _ => True)) (other : word ∉ words) :
    Cuts (fun o : Option α => o.elim [] fun a => word :: write a) (Option.map view)
      (Opens words) := by
  intro o p r s hr hs
  cases o with
  | none =>
      cases p with
      | none => simp
      | some b => simpa using hr.ne_cons other
  | some a =>
      cases p with
      | none => simpa using (hs.ne_cons other).symm
      | some b => simpa using h trivial trivial

theorem flag (other : word ∉ words) :
    Cuts (fun b : Bool => if b then [word] else []) id (Opens words) := by
  intro b c r s hr hs
  cases b with
  | false =>
      cases c with
      | false => simp
      | true => simpa using hr.ne_cons other
  | true =>
      cases c with
      | false => simpa using (hs.ne_cons other).symm
      | true => simp

theorem repeated (h : Cuts write view (fun _ => True)) (other : word ∉ words) :
    Cuts (fun l : List α => l.flatMap fun a => word :: write a) (List.map view)
      (Opens words) := by
  intro l m r s hr hs
  induction l generalizing m with
  | nil =>
      cases m with
      | nil => simp
      | cons b m => simpa using hr.ne_cons other
  | cons a l ih =>
      cases m with
      | nil => simpa using (hs.ne_cons other).symm
      | cons b m =>
          simp only [List.flatMap_cons, List.cons_append, List.append_assoc, List.cons.injEq,
            true_and, List.map_cons]
          rw [h trivial trivial, ih, and_assoc]

end Cuts

end GeoQuery.Command
