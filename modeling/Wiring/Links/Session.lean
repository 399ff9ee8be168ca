import Wiring.Links
import Wiring.Session

/-!
# Sessions with records

Commands that make, ask for and withdraw dependency and containment records.
-/

namespace Wiring.Links

/-- What to do with the records. -/
inductive Command where
  | depend (dependency dependent : String)
  | contain (inner outer : String)
  | isDependent (name candidate : String)
  | takeDependents (name : String)
  | takeParts (outer : String)
  | scrub (name : String)
  | clear
  | overview (name : String)

/-- What is recorded about a name. -/
structure Overview where
  hasDependents : Bool
  dependents : List String
  dependencies : List String
  parts : List String

/-- The answer to a command. -/
inductive Reply where
  | nothing
  | flag (b : Bool)
  | names (ns : List String)
  | overview (o : Overview)

/-- What is recorded about `n`. -/
def overview (g : Links) (n : String) : Overview :=
  ⟨g.hasDependents n, g.dependentsOf n, g.dependenciesOf n, g.partsOf n⟩

/-- Obeys a command. -/
def obey (g : Links) : Command → Reply × Links
  | .depend a b => ((.flag (g.depend a b).1), (g.depend a b).2)
  | .contain a b => ((.flag (g.contain a b).1), (g.contain a b).2)
  | .isDependent a b => (.flag (g.isDependent a b), g)
  | .takeDependents a => (.names (g.takeDependents a).1, (g.takeDependents a).2)
  | .takeParts a => (.names (g.takeParts a).1, (g.takeParts a).2)
  | .scrub a => (.nothing, g.scrub a)
  | .clear => (.nothing, g.clear)
  | .overview a => (.overview (g.overview a), g)

/-- The answers of a session that starts without records. -/
def session (commands : List Command) : List Reply := Wiring.session obey empty commands

end Wiring.Links
