import Wiring.Machine
import Wiring.Slot

/-!
# What demonstrations have in common

A demonstration is a main program over one registry. It prints lines, allocates components one after
the other, and binds the slots of components that point at each other.

## Main definitions

* `Wiring.Demo.vocabulary` — what a demonstration with given components and closures talks about.
* `Wiring.Demo.run` — a run of a demonstration.
-/

namespace Wiring.Demo

/-- How many components were allocated, and the slots of components for their peers. -/
structure Memory (ι : Type) where
  allocated : Nat
  slots : Table ι (Slot ι)

variable {ι : Type} [DecidableEq ι] {C : Goal → Type} {typeOf : ι → String}

/-- What a demonstration talks about: its notes are the lines that it prints. -/
abbrev vocabulary (ι : Type) [DecidableEq ι] (typeOf : ι → String) (C : Goal → Type) :
    Vocabulary where
  Inst := ι
  World := Memory ι
  Note := String
  Closure := C
  typeOf := typeOf
  decEq := inferInstance

/-- Prints a line. -/
def print (line : String) : Code (vocabulary ι typeOf C) Unit := .note line (.done ())

/-- Prints lines. -/
def printAll : List String → Code (vocabulary ι typeOf C) Unit
  | [] => .done ()
  | line :: rest => .note line (printAll rest)

/-- The number of a new component. -/
def newId : Code (vocabulary ι typeOf C) Nat :=
  .access (fun m => { m with allocated := m.allocated + 1 }) fun m => .done (m.allocated + 1)

/-- The value of a result; an error panics with the text and the error. -/
def expect {α : Type} (text : String) : Except Error α → Code (vocabulary ι typeOf C) α
  | .ok a => .done a
  | .error e => .panic (.text (text ++ ": " ++ e.shape.inline))

/-- The slot that is remembered for a component; it is empty before it is bound. -/
def Memory.slot (m : Memory ι) (i : ι) : Slot ι := (m.slots.find? i).getD .empty

/-- The slot of a component. -/
def slotOf (i : ι) : Code (vocabulary ι typeOf C) (Slot ι) := .access id fun m => .done (m.slot i)

/-- Binds the slot of a component, unless it is bound. -/
def bindSlot (i peer : ι) : Code (vocabulary ι typeOf C) Unit :=
  Code.modify fun m =>
    match (m.slot i).bind? peer with
    | some slot => { m with slots := m.slots.insert i slot }
    | none => m

/-- At most `fuel` steps of a demonstration. -/
def run (app : Application (vocabulary ι typeOf C)) (program : Code (vocabulary ι typeOf C) Unit)
    (fuel : Nat) : State (vocabulary ι typeOf C) × Thread (vocabulary ι typeOf C) :=
  Wiring.run app fuel (.start .default ⟨0, .empty⟩, Thread.start program)

end Wiring.Demo
