import Wiring.Text.Shape

/-!
# The options of a registry

A registry is made with a number of components to expect, which changes nothing that can be
observed, and with the decision whether half-built components may be shown to their peers. Options
are drafted step by step from the default.

## Main definitions

* `Wiring.Options`, `Wiring.Options.default` — the options and what holds when nothing is said.
* `Wiring.Options.Change`, `Wiring.Options.draft` — drafting by a list of changes.
-/

namespace Wiring

/-- What is fixed when a registry is made. -/
structure Options where
  /-- How many components to expect. -/
  capacity : Nat
  /-- Whether early references may be shown to break circular references. -/
  circular : Bool
deriving DecidableEq

namespace Options

/-- Sixteen components, circular references allowed. -/
def default : Options := ⟨16, true⟩

instance : Inhabited Options := ⟨default⟩

/-- One decision while options are drafted. -/
inductive Change where
  | capacity (n : Nat)
  | circular (allowed : Bool)

/-- The options after one more decision. -/
def change (o : Options) : Change → Options
  | .capacity n => { o with capacity := n }
  | .circular allowed => { o with circular := allowed }

/-- The options after a list of decisions, starting from the default. -/
def draft (changes : List Change) : Options := changes.foldl change default

/-- What the options look like when they are inspected. -/
def shape (o : Options) : Text.Shape :=
  .record "RegistryConfig"
    [("initial_capacity", .number o.capacity), ("allow_circular_references", .flag o.circular)]

/-- What options look like while they are being drafted. -/
def draftShape (o : Options) : Text.Shape := .record "RegistryBuilder" [("config", o.shape)]

end Options

end Wiring
