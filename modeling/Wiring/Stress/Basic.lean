import Wiring.Machine

/-!
# What stress runs have in common

A stress run makes a list of operations on one registry, over six names, and panics as soon as
something that ought to hold does not.
-/

namespace Wiring.Stress

/-- The names that stress runs use. -/
def names : List String := ["a", "b", "c", "d", "e", "f"]

/-- The name that an index stands for; indices wrap around. -/
def name (i : Nat) : String := names.getD (i % names.length) ""

/-- The number of operations that a stress run makes; further ones are left out. -/
def maxOperations : Nat := 100

end Wiring.Stress
