import Wiring.Error
import Wiring.Names

/-!
# Marks of names in creation

A name is marked while it is being built. Beginning a build of a marked name means that the build
came back to itself, a cycle. Names can be excluded from this: their builds neither set nor clear
the mark.

## Main definitions

* `Wiring.Marks` — the marked and the excluded names.
* `Wiring.Marks.begin`, `Wiring.Marks.finish` — setting and clearing a mark.
-/

namespace Wiring

/-- The names being built, and the names excluded from tracking. -/
structure Marks where
  marked : Names
  excluded : Names

namespace Marks

/-- Nothing is being built or excluded. -/
def empty : Marks := ⟨.empty, .empty⟩

instance : Inhabited Marks := ⟨empty⟩

/-- Whether `n` carries a mark, excluded or not. -/
def isMarked (m : Marks) (n : String) : Bool := n ∈ m.marked

/-- Whether `n` is excluded from tracking. -/
def isExcluded (m : Marks) (n : String) : Bool := n ∈ m.excluded

/-- Whether `n` is in creation as far as tracking goes. -/
def isInCreation (m : Marks) (n : String) : Bool := !m.isExcluded n && m.isMarked n

/-- The number of marked names. -/
def count (m : Marks) : Nat := m.marked.size

/-- Begins a build of `n`: an excluded name passes unmarked, a marked one is a cycle. -/
def begin (m : Marks) (n : String) : Except Error Marks :=
  if m.isExcluded n then .ok m
  else if m.isMarked n then .error (.cycle n)
  else .ok { m with marked := m.marked.insert n }

/-- Ends a build of `n`: an excluded name passes, an unmarked one was never begun. -/
def finish (m : Marks) (n : String) : Except Error Marks :=
  if m.isExcluded n then .ok m
  else if m.isMarked n then .ok { m with marked := m.marked.erase n }
  else .error (.notInCreation n)

/-- Excludes `n` from tracking, or includes it again. -/
def setExcluded (m : Marks) (n : String) (on : Bool) : Marks :=
  { m with excluded := if on then m.excluded.insert n else m.excluded.erase n }

end Marks

end Wiring
