import Wiring.Text.Shape

/-!
# Slots that are bound once

Components that point at each other cannot both be complete when they are constructed. One of them
has a slot for the other, which is bound later, once and for all.
-/

namespace Wiring

/-- A slot for a peer of type `α`. -/
structure Slot (α : Type) where
  peer : Option α
deriving DecidableEq

namespace Slot

variable {α : Type}

/-- The slot that is not bound. -/
def empty : Slot α := ⟨none⟩

/-- Whether the slot is bound. -/
def isBound (s : Slot α) : Bool := s.peer.isSome

/-- Binds the slot to `a`; a bound slot refuses and stays as it is. -/
def bind? (s : Slot α) (a : α) : Option (Slot α) :=
  if s.isBound then none else some ⟨some a⟩

/-- What the slot looks like when it is inspected. -/
def shape (s : Slot α) : Text.Shape := .record "LateBound" [("bound", .flag s.isBound)]

end Slot

end Wiring
