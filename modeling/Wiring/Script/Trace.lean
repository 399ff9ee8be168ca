import Wiring.Machine
import Wiring.Script.Action

/-!
# The trace of a script

What a script writes into the transcript of its run: the start of every body, the result or the
error of every step, and after the steps of the script itself what can be observed about the
watched names.

## Main definitions

* `Wiring.Script.Value` — what a step results in.
* `Wiring.Script.Note` — what a script writes.
* `Wiring.Script.Line` — a line of the trace.
-/

namespace Wiring.Script

/-- What a step results in. -/
inductive Value where
  | nothing
  | flag (b : Bool)
  | number (n : Nat)
  | text (s : String)
  | names (ns : List String)
  | component (c : Component)
  /-- A slot was bound. -/
  | bound
  /-- A bound slot refused another peer. -/
  | rejected (peer : Component)
  /-- A slot as it is. -/
  | slot (s : Slot Component)
  /-- A slot before and after it was bound twice, and whether each attempt succeeded. -/
  | boundTwice (before : Slot Component) (first second : Bool) (after : Slot Component)
  | survey (s : Registry.Survey Component)
  /-- A panic was caught. -/
  | caught (p : Panic)

/-- Why a body is run, as its start reports it. -/
inductive Occasion where
  | construct
  | producer
  | wrap
  | hook
  | destroy
  | hold
  | guard
deriving DecidableEq

/-- The occasion as a word. -/
def Occasion.word : Occasion → String
  | .construct => "construct"
  | .producer => "producer"
  | .wrap => "wrap"
  | .hook => "hook"
  | .destroy => "destroy"
  | .hold => "lock"
  | .guard => "catch"

/-- What a script writes into the transcript. -/
inductive Note where
  /-- A body starts. -/
  | enter (occasion : Occasion) (name : String)
  /-- A step succeeded. -/
  | succeeded (word : String) (value : Value)
  /-- A step failed. -/
  | failed (word : String) (e : Error)
  /-- A panic left a step of the script itself. -/
  | panicked (word : String) (p : Panic)
  /-- The watched names after a step of the script itself. -/
  | watched (s : Registry.Survey Component)

/-- A line of the trace. -/
inductive Line where
  | event (e : Log.Event)
  | note (x : Note)

end Wiring.Script
