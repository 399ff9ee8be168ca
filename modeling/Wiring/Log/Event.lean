import Wiring.Error
import Wiring.Log.Level
import Wiring.Options

/-!
# Log events

What the registry reports while it works. An event knows its level, its message and its fields, so
that nothing else has to know the wording.

## Main definitions

* `Wiring.Log.Event` — the events.
* `Wiring.Log.Event.level`, `Wiring.Log.Event.message`, `Wiring.Log.Event.fields` — how they are
  reported.
-/

namespace Wiring.Log

/-- The value of a field of an event. -/
inductive Field where
  | text (s : String)
  | number (n : Nat)
  | flag (b : Bool)
deriving DecidableEq

/-- Something the registry reports. -/
inductive Event where
  /-- A registry was made. -/
  | opened (options : Options)
  /-- An instance is about to be registered as the given number of registered names. -/
  | registering (name : String) (registered : Nat)
  /-- An early reference was refused, because circular references are not allowed. -/
  | earlyForbidden (name : String)
  /-- An early reference was refused, because its name is not being built. -/
  | earlyUnexpected (name : String)
  /-- An early reference was offered; `added` tells whether the name was still open. -/
  | earlyPublished (name : String) (added : Bool)
  /-- The producer of an early reference is about to run. -/
  | producing (name : String)
  /-- A half-built instance was handed out. -/
  | earlyReturned (name : String)
  /-- A build was not needed, because the instance was final already. -/
  | cachedReturned (name : String)
  /-- A build begins. -/
  | creating (name : String)
  /-- A build ended and its instance became final. -/
  | created (name : String) (registered : Nat)
  /-- A build ended after another instance had become final. -/
  | superseded (name : String)
  /-- A dependency was recorded for the first time. -/
  | dependencyRecorded (dependency dependent : String)
  /-- A shutdown hook is about to be stored. -/
  | hookStored (name : String)
  /-- The teardown of the whole registry begins. -/
  | destroying (hooks : Nat)
  /-- The dependents of a name are about to be destroyed. -/
  | dependentsFirst (name : String) (dependents : List String)
  /-- A shutdown hook succeeded. -/
  | hookRan (name : String)
  /-- A shutdown hook failed or panicked. -/
  | hookFailed (name reason : String)
  /-- The registry is emptied without running hooks. -/
  | clearing (finals : Nat)
deriving DecidableEq

namespace Event

/-- How severe the event is. -/
def level : Event → Level
  | .opened _ | .registering .. | .creating _ | .created .. | .superseded _ | .destroying _
  | .clearing _ => .debug
  | .earlyForbidden _ | .earlyUnexpected _ | .earlyPublished .. | .producing _ | .earlyReturned _
  | .cachedReturned _ | .dependencyRecorded .. | .hookStored _ | .dependentsFirst ..
  | .hookRan _ => .trace
  | .hookFailed .. => .warn

/-- The sentence that reports the event. -/
def message : Event → String
  | .opened _ => "Creating new singleton registry"
  | .registering .. => "Registering singleton instance"
  | .earlyForbidden _ => "Circular references disabled, early reference not published"
  | .earlyUnexpected _ => "Component is not in creation, early reference not published"
  | .earlyPublished .. => "Eagerly caching component to allow for resolving circular references"
  | .producing _ => "Producing early reference"
  | .earlyReturned _ => "Returning early reference of component that is not fully initialized yet"
  | .cachedReturned _ => "Returning cached instance of singleton"
  | .creating _ => "Creating shared instance of singleton"
  | .created .. => "Finished creating shared instance of singleton"
  | .superseded _ => "Component appeared concurrently, discarding this build"
  | .dependencyRecorded .. => "Registered dependency"
  | .hookStored _ => "Registering shutdown hook"
  | .destroying _ => "Destroying singletons"
  | .dependentsFirst .. => "Destroying dependents first"
  | .hookRan _ => "Invoked shutdown hook"
  | .hookFailed .. => "Shutdown hook failed, continuing teardown"
  | .clearing _ => "Clearing registry without running shutdown hooks"

/-- The data that goes with the sentence. -/
def fields : Event → List (String × Field)
  | .opened o =>
    [("capacity", .number o.capacity), ("allow_circular_references", .flag o.circular)]
  | .registering n k | .created n k => [("component", .text n), ("registered", .number k)]
  | .earlyPublished n added => [("component", .text n), ("added", .flag added)]
  | .cachedReturned n => [("component", .text n), ("location", .text "fast_path")]
  | .dependencyRecorded a b => [("dependency", .text a), ("dependent", .text b)]
  | .destroying k => [("hooks", .number k)]
  | .dependentsFirst n ds =>
    [("component", .text n),
     ("dependents", .text (Text.Shape.list (ds.map Text.Shape.string)).inline)]
  | .hookFailed n reason =>
    [("component", .text n), ("error", .text (Error.hookFailed n reason).message)]
  | .clearing k => [("finals", .number k)]
  | .earlyForbidden n | .earlyUnexpected n | .producing n | .earlyReturned n | .creating n
  | .superseded n | .hookStored n | .hookRan n => [("component", .text n)]

end Event

end Wiring.Log
