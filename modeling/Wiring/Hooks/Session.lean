import Wiring.Hooks
import Wiring.Session

/-!
# Sessions with pending hooks

Commands that store, detach and drop shutdown hooks. The hooks of a session are tags.
-/

namespace Wiring.Hooks

/-- What to do with the pending hooks. -/
inductive Command where
  | store (name tag : String)
  | take (name : String)
  | contains (name : String)
  | clear

/-- The answer to a command. -/
inductive Reply where
  | nothing
  | flag (b : Bool)
  | tag (t : String)

/-- The answer to a command, and the names with hooks after it. -/
structure Observation where
  reply : Reply
  names : List String
  size : Nat

/-- The reply to a command and the pending hooks afterwards. -/
def obey (hooks : Hooks String) : Command → Reply × Hooks String
  | .store n t => (.nothing, hooks.insert n t)
  | .take n =>
    (match (hooks.take n).1 with
      | some t => .tag t
      | none => .nothing, (hooks.take n).2)
  | .contains n => (.flag (hooks.contains n), hooks)
  | .clear => (.nothing, Table.empty)

/-- Obeys a command and looks at what is pending. -/
def observe (hooks : Hooks String) (c : Command) : Observation × Hooks String :=
  let (reply, hooks) := obey hooks c
  (⟨reply, hooks.keys, hooks.size⟩, hooks)

/-- The observations of a session that starts without hooks. -/
def session (commands : List Command) : List Observation :=
  Wiring.session observe Table.empty commands

end Wiring.Hooks
