import Wiring.Script.Meaning

/-!
# Running a script

The steps of a script are run one after the other on one registry. A panic that leaves a step ends
that step only. After each step what can be observed about the watched names is noted.

## Main definitions

* `Wiring.Script` — a script, with its definitions and the names to watch.
* `Wiring.Script.runStep`, `Wiring.Script.finalState` — one step and the whole of it.
* `Wiring.Script.trace` — the transcript as it is shown.
-/

namespace Wiring

/-- A script for a registry with the given options. -/
structure Script where
  options : Options
  /-- From which level on log events are shown; none are without a level. -/
  threshold : Option Log.Level
  defs : Script.Definitions
  /-- The names to watch, if any. -/
  watch : Option (List String)
  steps : List (Script.Step Script.Action)

namespace Script

/-- The line that shows an entry, with its depth, if log events of its level are shown. The start of
a body belongs to the depth outside that body. -/
def line? (threshold : Option Log.Level) (e : Entry vocabulary) : Option (Nat × Line) :=
  match e.item with
  | .event ev =>
    if threshold.any (·.shownAt ev.level) then some (e.depth, .event ev) else none
  | .note (Note.enter occasion name) => some (e.depth - 1, .note (.enter occasion name))
  | .note x => some (e.depth, .note x)

/-- The main program that consists of one step. -/
def mainCode (st : Step Action) : ScriptCode Unit := do
  let _ ← st.code

/-- The state after one step of the script. -/
def runStep (sc : Script) (fuel : Nat) (s : State vocabulary) (st : Step Action) :
    State vocabulary :=
  let (s, t) := Wiring.run (application sc.defs) fuel (s, Thread.start (mainCode st))
  let s := match t with
    | .finished (.error p) => s.write 0 (.note (.panicked st.action.word p))
    | _ => s
  match sc.watch with
  | some ns => s.write 0 (.note (.watched (s.registry.survey ns)))
  | none => s

/-- The state after the whole script, each of its steps taking at most `fuel` small steps. -/
def finalState (sc : Script) (fuel : Nat) : State vocabulary :=
  sc.steps.foldl (sc.runStep fuel) (.start sc.options .start)

/-- The lines of the trace with their depths, in the order in which things happened. -/
def trace (sc : Script) (fuel : Nat) : List (Nat × Line) :=
  (sc.finalState fuel).transcript.reverse.filterMap (line? sc.threshold)

end Script

end Wiring
