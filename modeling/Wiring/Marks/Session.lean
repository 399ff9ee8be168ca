import Wiring.Marks
import Wiring.Session

/-!
# Sessions with marks

Commands that begin and end builds or change exclusions, each answered with what can be observed
about its name afterwards.
-/

namespace Wiring.Marks

/-- What to do with the marks. -/
inductive Verb where
  | begin
  | finish
  | exclude
  | track
deriving DecidableEq

/-- A command about a name. -/
structure Command where
  verb : Verb
  name : String

/-- What can be observed about a name after a command. -/
structure Observation where
  /-- Why the command was refused, if it was. -/
  refused : Option Error
  inCreation : Bool
  marked : Bool
  excluded : Bool
  count : Nat

/-- The marks after a command; a command that is refused changes nothing. -/
def apply (m : Marks) (c : Command) : Except Error Marks :=
  match c.verb with
  | .begin => m.begin c.name
  | .finish => m.finish c.name
  | .exclude => .ok (m.setExcluded c.name true)
  | .track => .ok (m.setExcluded c.name false)

/-- What can be observed about `n`. -/
def observe (m : Marks) (n : String) (refused : Option Error) : Observation :=
  ⟨refused, m.isInCreation n, m.isMarked n, m.isExcluded n, m.count⟩

/-- Obeys a command. -/
def obey (m : Marks) (c : Command) : Observation × Marks :=
  match m.apply c with
  | .ok m' => (m'.observe c.name none, m')
  | .error e => (m.observe c.name (some e), m)

/-- The observations of a session that starts without marks. -/
def session (commands : List Command) : List Observation := Wiring.session obey empty commands

end Wiring.Marks
