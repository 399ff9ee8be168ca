import Wiring.Machine

/-!
# Several threads on one registry

A pool holds threads that share one state. Any thread whose next step does not need the lock, or
needs it while no other thread holds it, may take that step; which thread is next is up to a
schedule.

Threads take turns between steps, not inside them. A request that is answered at once is answered in
one step, so the record of a containment comes with that of the dependency; a task of a teardown, the
end of a build and the first step of a teardown of the whole registry are one step each, too. No
other thread sees what lies between the parts of such a step.

## Main definitions

* `Wiring.Pool` — the shared state and the threads.
* `Wiring.Pool.mayStep`, `Wiring.Pool.step` — when a thread may go on, and its step.
* `Wiring.Pool.run` — the steps of a schedule; `Wiring.Pool.takeTurns` — all threads in turn.
-/

namespace Wiring

/-- Threads that share a state. -/
structure Pool (v : Vocabulary) where
  state : State v
  threads : List (Thread v)

namespace Pool

variable {v : Vocabulary}

/-- The pool in which each of the programs is about to be run by a thread of its own. -/
def start (s : State v) (programs : List (Code v Unit)) : Pool v := ⟨s, programs.map Thread.start⟩

/-- Whether a thread other than thread `i` holds the lock. -/
def lockedByOther (p : Pool v) (i : Nat) : Bool := (p.threads.eraseIdx i).any (·.holdsLock)

/-- Whether thread `i` may take its next step, as thread `t`. -/
def mayStep (p : Pool v) (i : Nat) (t : Thread v) : Bool :=
  !(t.wantsLock p.state.registry.options && p.lockedByOther i)

/-- A step of thread `i`; nothing happens if there is no such thread or if it has to wait. -/
def step (app : Application v) (p : Pool v) (i : Nat) : Pool v :=
  match p.threads[i]? with
  | none => p
  | some t =>
    if p.mayStep i t then
      ⟨(t.step app p.state).1, p.threads.set i (t.step app p.state).2⟩
    else p

/-- The steps of the threads that a schedule names, one after the other. -/
def run (app : Application v) (p : Pool v) (schedule : List Nat) : Pool v :=
  schedule.foldl (step app) p

/-- Whether every thread came to its end. -/
def isFinished (p : Pool v) : Bool :=
  p.threads.all fun
    | .finished _ => true
    | _ => false

/-- Rounds in which every thread takes one step, until all are finished or the rounds are over. -/
def takeTurns (app : Application v) : Nat → Pool v → Pool v
  | 0, p => p
  | rounds + 1, p =>
    if p.isFinished then p
    else takeTurns app rounds (p.run app (List.range p.threads.length))

end Pool

end Wiring
