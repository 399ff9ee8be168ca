import Wiring.Pool

/-!
# Threads that want the same component

Several threads ask one registry for the same component at the same time. Its construct counts its
attempts, fails at the first few, and from then on makes a component out of the number of the
attempt. Builds take turns, a failure is not remembered, and a success ends the attempts, so what
the threads get together does not depend on their schedule.

## Main definitions

* `Wiring.Contention` — how many threads want what, and how many attempts fail.
* `Wiring.Contention.report` — what the threads got.
-/

namespace Wiring

/-- The request by which the threads ask for the component. -/
inductive Contention.Manner where
  | create
  | createAs
  | resolve
  | resolveAs
deriving DecidableEq

/-- Threads that want the component `name`, whose construct fails a number of times. -/
structure Contention where
  name : String
  manner : Contention.Manner
  threads : Nat
  failures : Nat

namespace Contention

/-- The attempts made so far, and what the threads have got, the latest first. -/
structure Tally where
  attempts : Nat
  got : List (Except Error Nat)

/-- The only closure is the construct of the component. -/
inductive Closure : Goal → Type where
  | attempt : Closure .construct

/-- Components are numbers, of one type. -/
def vocabulary : Vocabulary where
  Inst := Nat
  World := Tally
  Note := Empty
  Closure := Closure
  typeOf _ := "number"
  decEq := inferInstance

/-- An attempt to construct the component. -/
def attemptCode (c : Contention) : Code vocabulary (Except Error Nat) :=
  .access (fun (t : Tally) => { t with attempts := t.attempts + 1 }) fun (t : Tally) =>
    .done <| if t.attempts < c.failures then
      .error (.creationFailed c.name ("attempt " ++ toString (t.attempts + 1)) [])
    else .ok (t.attempts + 1)

/-- The code of the construct. -/
def application (c : Contention) : Application vocabulary where
  body := fun closure =>
    match closure with
    | Closure.attempt => c.attemptCode

/-- The request of a thread. -/
def request (c : Contention) : Code vocabulary (Except Error Nat) :=
  match c.manner with
  | .create => Code.obtainOrCreate c.name Closure.attempt
  | .createAs => Code.createAs c.name "number" Closure.attempt
  | .resolve => Code.resolve c.name Closure.attempt
  | .resolveAs => Code.resolveAs c.name "number" Closure.attempt

/-- The main program of a thread: it notes what it gets. -/
def threadCode (c : Contention) : Code vocabulary Unit := do
  let r ← c.request
  Code.modify fun (t : Tally) => { t with got := r :: t.got }

/-- The threads before their first step. -/
def pool (c : Contention) : Pool vocabulary :=
  .start (.start .default ⟨0, []⟩) (List.replicate c.threads c.threadCode)

/-- What the threads got together. -/
structure Report where
  attempts : Nat
  /-- The components that threads got, in ascending order. -/
  components : List Nat
  /-- The messages of the errors that threads got, in ascending order. -/
  errors : List String
  /-- Whether every component that a thread got is the final one. -/
  agreed : Bool
  names : List String
  summary : Registry.Summary

/-- What the threads have got by now. -/
def reportOf (c : Contention) (s : State vocabulary) : Report :=
  let tally : Tally := s.world
  let components := tally.got.filterMap fun
    | .ok i => some i
    | .error _ => none
  let errors := tally.got.filterMap fun
    | .ok _ => none
    | .error e => some e.message
  { attempts := tally.attempts
    components := components.mergeSort (· ≤ ·)
    errors := errors.mergeSort (fun a b => decide (a < b) || a == b)
    agreed := components.all fun i => s.registry.store.final? c.name == some i
    names := s.registry.store.names
    summary := s.registry.summary }

/-- What the threads get when they take turns for at most `rounds` rounds. -/
def report (c : Contention) (rounds : Nat) : Report :=
  c.reportOf (c.pool.takeTurns c.application rounds).state

end Contention

end Wiring
