import Wiring.Error
import Wiring.Code
import Wiring.Script.Component

/-!
# The language of scripts

A script makes requests to one registry, step by step. Its constructs, producers and hooks are
bodies, which are steps as well, so that requests nest to any depth.

## Main definitions

* `Wiring.Script.Source`, `Wiring.Script.Fault` — expressions for components and for errors.
* `Wiring.Script.Step`, `Wiring.Script.Body`, `Wiring.Script.Ending` — steps and bodies.
* `Wiring.Script.Action` — what a step does; `Wiring.Script.Action.word` names it.
-/

namespace Wiring.Script

/-- An expression for a component. Each form may bind a variable to its value. -/
inductive Source where
  /-- A new component. -/
  | fresh (payload : Payload) (bind : Option String)
  /-- A new proxy of a component. -/
  | proxy (target : Source) (bind : Option String)
  /-- The value of a variable. -/
  | var (x : String) (bind : Option String)

/-- An expression for an error. -/
inductive Fault where
  /-- The error of the step that failed last. -/
  | last
  /-- An error without related errors. -/
  | plain (e : Error)
  /-- A failed build with related errors. -/
  | creationFailed (name reason : String) (related : List Fault)

/-- Why a body fails. -/
inductive Reason where
  | text (s : String)
  | fault (f : Fault)

/-- How a body ends: with a panic if it has one, else with a failure if it has one, else well. -/
structure Ending where
  panic : Option Panic
  failure : Option Reason
  /-- The component that the body ends with. -/
  value : Option Source

/-- A step that does an `α`. -/
structure Step (α : Type) where
  action : α
  /-- The variable to bind to the component that the step results in. -/
  bind : Option String
  /-- Whether a failure of the step ends the body. -/
  essential : Bool

/-- Steps and what comes after them. -/
structure Body (α : Type) where
  steps : List (Step α)
  ending : Ending

/-- A body, given in place or by its name among the definitions of the script. -/
inductive BodyRef (α : Type) where
  | inline (b : Body α)
  | named (name : String)

/-- What a step does. -/
inductive Action where
  | allocate (i : Source)
  | register (name : String) (i : Source)
  /-- Registers a new component, which is allocated only if it is accepted. -/
  | registerNew (name : String) (payload : Payload)
  /-- Publishes a body as producer of an early reference. -/
  | publish (name : String) (producer : BodyRef Action)
  /-- Publishes a component as its own early reference. -/
  | publishExposing (name : String) (i : Source)
  /-- Publishes a proxy of a component, made when it is needed, as early reference. -/
  | publishWrapping (name : String) (i : Source)
  /-- Publishes a component as its own early reference, as one request. -/
  | expose (name : String) (i : Source)
  | obtain (name : String)
  | obtainWith (name : String) (early : Bool)
  | get (name : String) (kind : Kind)
  | isFinal (name : String)
  | isInCreation (name : String)
  | isMarked (name : String)
  | hasDependents (name : String)
  | hasHook (name : String)
  | names
  | count
  | create (name : String) (construct : BodyRef Action)
  | resolve (name : String) (construct : BodyRef Action)
  | createAs (name : String) (kind : Kind) (construct : BodyRef Action)
  | resolveAs (name : String) (kind : Kind) (construct : BodyRef Action)
  | suppress (f : Fault)
  | remove (name : String)
  | exclude (name : String) (on : Bool)
  | depend (dependency dependent : String)
  | contain (inner outer : String)
  | isDependent (name candidate : String)
  | dependents (name : String)
  | dependencies (name : String)
  | parts (name : String)
  | hook (name : String) (body : BodyRef Action)
  /-- Gives a widget a body to run when it is destroyed, and destroys it by a hook. -/
  | disposable (name : String) (i : Source) (body : BodyRef Action)
  | isTearingDown
  | destroyAll
  | clearAll
  | destroy (name : String)
  /-- Binds the slot of one widget to another widget. -/
  | bind (owner peer : Source)
  | peer (owner : Source)
  /-- Binds a new slot twice. -/
  | bindTwice (peer : Source)
  | inspectProducer (i : Source)
  | cast (name : String) (i : Source) (kind : Kind)
  | summary
  | options
  | survey (names : List String)
  /-- Runs steps under the lock of the registry. -/
  | hold (steps : List (Step Action))
  /-- Runs steps and catches a panic. -/
  | guard (steps : List (Step Action))

/-- The word for what a step does. -/
def Action.word : Action → String
  | .allocate _ => "new"
  | .register .. => "register"
  | .registerNew .. => "register_instance"
  | .publish .. | .publishExposing .. | .publishWrapping .. => "early"
  | .expose .. => "add_early"
  | .obtain _ => "obtain"
  | .obtainWith .. => "obtain_with"
  | .get .. => "get"
  | .isFinal _ => "contains_final"
  | .isInCreation _ => "is_in_creation"
  | .isMarked _ => "is_actually_in_creation"
  | .hasDependents _ => "has_dependents"
  | .hasHook _ => "has_hook"
  | .names => "names"
  | .count => "count"
  | .create .. => "obtain_or_create"
  | .resolve .. => "resolve"
  | .createAs .. => "get_or_create"
  | .resolveAs .. => "resolve_as"
  | .suppress _ => "suppress"
  | .remove _ => "remove"
  | .exclude .. => "exclude"
  | .depend .. => "depend"
  | .contain .. => "contain"
  | .isDependent .. => "is_dependent"
  | .dependents _ => "dependents"
  | .dependencies _ => "dependencies"
  | .parts _ => "contained"
  | .hook .. => "hook"
  | .disposable .. => "disposable"
  | .isTearingDown => "is_in_destruction"
  | .destroyAll => "destroy_all"
  | .clearAll => "clear_all"
  | .destroy _ => "destroy_one"
  | .bind .. => "bind"
  | .peer _ => "peer"
  | .bindTwice _ => "late_default"
  | .inspectProducer _ => "factory_debug"
  | .cast .. => "downcast"
  | .summary => "debug"
  | .options => "config"
  | .survey _ => "state"
  | .hold _ => "lock"
  | .guard _ => "catch"

end Wiring.Script
