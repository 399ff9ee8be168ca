import Wiring.Stress.Basic

/-!
# Stress run: registrations, lookups and nested builds

Operations register, look up, build and remove components and change records and exclusions. A build
is a chain: each component resolves the next one while it is being built, so that cycles are
frequent. After each operation the registry has to be in order: nothing is in creation, every final
name can be had, and the index of names is exact.

## Main definitions

* `Wiring.Stress.Building.Operation` — the operations.
* `Wiring.Stress.Building.application` — the constructs of the chains.
* `Wiring.Stress.Building.program` — the operations with what has to hold after them.
-/

namespace Wiring.Stress.Building

/-- One component of a chain. -/
structure Link where
  target : Nat
  /-- Whether the component shows itself early. -/
  expose : Bool
  /-- Whether the build fails in the end. -/
  fail : Bool

/-- An operation; names are given by their indices. -/
inductive Operation where
  | register (i value : Nat)
  | obtain (i : Nat) (early : Bool)
  | build (chain : List Link)
  | remove (i : Nat)
  | depend (dependency dependent : Nat)
  | contain (inner outer : Nat)
  | isDependent (i candidate : Nat)
  | exclude (i : Nat) (on : Bool)

/-- The number of links of a chain that are used. -/
def maxLinks : Nat := 8

/-- The operation with the links of a chain that are used. -/
def Operation.capped : Operation → Operation
  | .build chain => .build (chain.take maxLinks)
  | op => op

/-- A component with its identity. -/
structure Component where
  id : Nat
  value : Nat
deriving DecidableEq

/-- The constructs and producers of chains. -/
inductive Closure : Goal → Type where
  /-- Constructs the component of a link, with the rest of the chain to come. -/
  | link (l : Link) (rest : List Link) : Closure .construct
  /-- Constructs a component by building a chain. -/
  | chain (links : List Link) : Closure .construct
  | exposing (c : Component) : Closure .producer

/-- What the run talks about; its memory is the number of allocated components. -/
abbrev vocabulary : Vocabulary where
  Inst := Component
  World := Nat
  Note := Empty
  Closure := Closure
  typeOf _ := "component"
  decEq := inferInstance

/-- Code of the run. -/
abbrev RunCode (α : Type) : Type := Code vocabulary α

/-- Makes a request. -/
def request (q : Request vocabulary) : RunCode q.Reply := Code.ask q

/-- A new component. -/
def allocate (value : Nat) : RunCode Component :=
  .access Nat.succ fun n => .done ⟨n, value⟩

/-- Builds the first component of a chain, which resolves the others. -/
def build : List Link → RunCode (Except Error Component)
  | [] => return .error (.notFound "empty chain")
  | l :: rest => Code.obtainOrCreate (name l.target) (Closure.link l rest)

/-- Resolves the component of the next link, if there is one, and records the dependency on it. -/
def resolveNext (current : String) : List Link → RunCode (Except Error Unit)
  | [] => return .ok ()
  | next :: rest => do
    match ← Code.resolve (name next.target) (Closure.chain (next :: rest)) with
    | .error e => return .error e
    | .ok _ => request (.depend (name next.target) current)

/-- Constructs the component of a link. -/
def constructLink (l : Link) (rest : List Link) : RunCode (Except Error Component) := do
  let raw ← allocate l.target
  if l.expose then
    let _ ← request (.publish (name l.target) (Closure.exposing raw))
  match ← resolveNext (name l.target) rest with
  | .error e => return .error e
  | .ok () =>
    return if l.fail then .error (.creationFailed (name l.target) "fuzzed failure" [])
      else .ok raw

/-- The code of every closure. -/
def application : Application vocabulary where
  body := fun c =>
    match c with
    | Closure.link l rest => constructLink l rest
    | Closure.chain links => build links
    | Closure.exposing c => Code.done c

/-- What has to hold of a name between operations. -/
def checkName (n : String) : RunCode Unit := do
  Code.require (!(← request (.isMarked n))) "nothing is in creation between operations"
  if ← request (.isFinal n) then
    Code.require (← Code.obtain n).isSome "a final name can be obtained"

/-- What has to hold of all names between operations. -/
def checkNames : List String → RunCode Unit
  | [] => return ()
  | n :: rest => do
    checkName n
    checkNames rest

/-- What has to hold between operations. -/
def check : RunCode Unit := do
  checkNames names
  let registered ← request .names
  Code.require (registered.eraseDups.length = registered.length) "duplicate registered name"
  Code.require (registered.length = (← request .count)) "the count is the number of names"

/-- What has to hold of a chain that was built: it has a first component, which is final and is of
the type asked for. -/
def checkBuilt (built : Component) : List Link → RunCode Unit
  | [] => .panic (.text "index out of bounds: the len is 0 but the index is 0")
  | l :: _ => do
    match ← Code.obtain (name l.target) with
    | none => .panic (.text "built component is final")
    | some stored => do
      Code.require (built = stored) "the built component is the stored one"
      Code.require (vocabulary.cast (name l.target) "component" built).isOk
        "the built component is of the type asked for"

/-- Makes an operation and checks what it promises. -/
def perform : Operation → RunCode Unit
  | .register i value => do
    let had ← request (.isFinal (name i))
    let r ← request (.register (name i) (← allocate value))
    Code.require (r.isOk != had) "a registration fails exactly for a final name"
  | .obtain i early => .lookup (name i) early fun found => do
    Code.require (found.isSome == (← request (.isFinal (name i))))
      "a lookup finds exactly a final name"
  | .build chain => do
    match ← build chain with
    | .error _ => return ()
    | .ok built => checkBuilt built chain
  | .remove i => do
    let _ ← request (.remove (name i))
    Code.require (!(← request (.isFinal (name i)))) "a removed name is not final"
  | .depend a b => do
    Code.require (← request (.depend (name a) (name b))).isOk "a dependency is recorded"
    Code.require (← request (.isDependent (name a) (name b))) "a dependent is one"
    Code.require ((← request (.dependencies (name b))).contains (name a))
      "a dependency can be seen from both sides"
  | .contain inner outer => do
    Code.require (← request (.contain (name inner) (name outer))).isOk
      "a containment is recorded"
    Code.require ((← request (.parts (name outer))).contains (name inner)) "a part is one"
  | .isDependent i candidate => do
    let _ ← request (.isDependent (name i) (name candidate))
  | .exclude i on => request (.setExcluded (name i) on)

/-- Makes operations one after the other, with a check after each. -/
def performAll : List Operation → RunCode Unit
  | [] => return ()
  | op :: rest => do
    perform op
    check
    performAll rest

/-- The run over the operations. -/
def program (operations : List Operation) : RunCode Unit :=
  performAll ((operations.take maxOperations).map Operation.capped)

/-- At most `fuel` steps of the run over the operations. -/
def run (operations : List Operation) (fuel : Nat) : State vocabulary × Thread vocabulary :=
  Wiring.run application fuel (.start .default 0, Thread.start (program operations))

end Wiring.Stress.Building
