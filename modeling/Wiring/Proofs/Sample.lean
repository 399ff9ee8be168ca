import Wiring.Machine

/-!
# A small application for worked cases

The theorems about runs hold of every application. Where one of them is shown at work on a single
run, the application is one of those below: its closures are named by words, and its instances are
numbers.

## Main definitions

* `Wiring.Sample.vocabulary` — words for closures, numbers for instances.
* `Wiring.Sample.start` — a program about to be run on a fresh registry.
* `Wiring.Sample.idle` — an application whose closures return at once.
-/

namespace Wiring.Sample

/-- Words for closures, numbers for instances, and nothing to remember. -/
def vocabulary : Vocabulary where
  Inst := Nat
  World := Unit
  Note := Empty
  Closure _ := String
  typeOf _ := "number"
  decEq := inferInstanceAs (DecidableEq Nat)

/-- A program about to be run on a fresh registry. -/
def start (main : Code vocabulary Unit) : State vocabulary × Thread vocabulary :=
  (.start .default (), .start main)

/-- An application whose closures return at once. -/
def idle : Application vocabulary where
  body {g} _ :=
    match g with
    | .main => .done ()
    | .construct => .done (.ok (0 : Nat))
    | .producer => .done (0 : Nat)
    | .hook | .block => .done (.ok ())

end Wiring.Sample
