import GeoQuery.Argument
import GeoQuery.Shape.Write

/-!
Sets of the members of a small kind. A selection is known by what it contains, so it does not
matter in which order or how often its members were listed; it is written in the order of the kind.
-/

namespace GeoQuery

/-- A kind with finitely many members in a fixed order, each with a name of its own. -/
class Enumerated (α : Type) where
  all : List α
  label : α → String
  mem_all : ∀ a, a ∈ all

structure Selection (α : Type) where
  contains : α → Bool

namespace Selection

variable {α : Type}

@[ext]
theorem ext {s t : Selection α} (h : ∀ a, s.contains a = t.contains a) : s = t := by
  cases s; cases t; simp only [mk.injEq]; exact funext h

def empty : Selection α := ⟨fun _ => false⟩

instance : Inhabited (Selection α) := ⟨empty⟩

def ofList [BEq α] (members : List α) : Selection α := ⟨fun a => members.contains a⟩

def toList [Enumerated α] (s : Selection α) : List α := (Enumerated.all).filter s.contains

def isEmpty [Enumerated α] (s : Selection α) : Bool := s.toList.isEmpty

instance [Enumerated α] : DecidableEq (Selection α) := fun s t =>
  decidable_of_iff (∀ a ∈ Enumerated.all, s.contains a = t.contains a)
    ⟨fun h => ext fun a => h a (Enumerated.mem_all a), fun h _ _ => h ▸ rfl⟩

/-- The names of the members in one token; none if there are no members. -/
def token? [Enumerated α] (s : Selection α) : Option String :=
  if s.isEmpty then none else some (",".intercalate (s.toList.map Enumerated.label))

def arguments [Enumerated α] (clause : String) (s : Selection α) : List Argument :=
  s.token?.elim [] fun token => [.word clause, .word token]

end Selection

/-- What a fence reports: an object comes in, goes out, or passes through. -/
inductive FenceEvent
  | enter
  | exit
  | cross
deriving DecidableEq

instance : Enumerated FenceEvent where
  all := [.enter, .exit, .cross]
  label
    | .enter => "enter"
    | .exit => "exit"
    | .cross => "cross"
  mem_all a := by cases a <;> decide

namespace FenceEvent

abbrev shape : Shape := .choice <| .bare "enter" <| .bare "exit" <| .bare "cross" .nil

def ofValue : shape.Value → FenceEvent
  | .inl () => .enter
  | .inr (.inl ()) => .exit
  | .inr (.inr (.inl ())) => .cross

def toValue : FenceEvent → shape.Value
  | .enter => .inl ()
  | .exit => .inr (.inl ())
  | .cross => .inr (.inr (.inl ()))

end FenceEvent

inductive FenceWrite
  | set
  | del
  | expire
  | drop
deriving DecidableEq

instance : Enumerated FenceWrite where
  all := [.set, .del, .expire, .drop]
  label
    | .set => "set"
    | .del => "del"
    | .expire => "expire"
    | .drop => "drop"
  mem_all a := by cases a <;> decide

namespace FenceWrite

abbrev shape : Shape :=
  .choice <| .bare "set" <| .bare "del" <| .bare "expire" <| .bare "drop" .nil

def ofValue : shape.Value → FenceWrite
  | .inl () => .set
  | .inr (.inl ()) => .del
  | .inr (.inr (.inl ())) => .expire
  | .inr (.inr (.inr (.inl ()))) => .drop

def toValue : FenceWrite → shape.Value
  | .set => .inl ()
  | .del => .inr (.inl ())
  | .expire => .inr (.inr (.inl ()))
  | .drop => .inr (.inr (.inr (.inl ())))

end FenceWrite

end GeoQuery
