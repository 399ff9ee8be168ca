import Wiring.Table

/-!
# Pending shutdown hooks

The hooks that wait to be run when their components are destroyed, the earliest stored first. A hook
that is stored for a name with a hook replaces that hook and keeps its place.
-/

namespace Wiring

/-- Hooks `η` by the names of their components. -/
abbrev Hooks (η : Type) : Type := Table String η

end Wiring
