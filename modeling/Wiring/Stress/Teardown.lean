import Wiring.Stress.Basic

/-!
# Stress run: teardown

Operations store hooks, register components, make records, and destroy components one at a time or
all at once. Every hook has to run at most once, a teardown of the whole registry has to run every
pending hook and leave nothing behind, and dependents have to be destroyed before what they depend
on.

## Main definitions

* `Wiring.Stress.Teardown.Operation` — the operations.
* `Wiring.Stress.Teardown.application` — the hooks.
* `Wiring.Stress.Teardown.program` — the operations with what has to hold after them.
-/

namespace Wiring.Stress.Teardown

/-- An operation; names are given by their indices. -/
inductive Operation where
  /-- Stores a hook, which fails if told to. -/
  | hook (i : Nat) (fails : Bool)
  | register (i value : Nat)
  | depend (dependency dependent : Nat)
  | contain (inner outer : Nat)
  | destroy (i : Nat)
  | destroyAll
  | clearAll

/-- A component with its identity. -/
structure Component where
  id : Nat
  value : Nat
deriving DecidableEq

/-- The number of hooks stored and of components allocated so far, and the hooks that ran with the
names of their components, the latest first. -/
structure Memory where
  hooks : Nat
  components : Nat
  ran : List (Nat × String)

/-- The only closures are hooks. -/
inductive Closure : Goal → Type where
  /-- The hook with the given number. -/
  | hook (id : Nat) (name : String) (fails : Bool) : Closure .hook

/-- What the run talks about. -/
abbrev vocabulary : Vocabulary where
  Inst := Component
  World := Memory
  Note := Empty
  Closure := Closure
  typeOf _ := "component"
  decEq := inferInstance

/-- Code of the run. -/
abbrev RunCode (α : Type) : Type := Code vocabulary α

/-- Makes a request. -/
def request (q : Request vocabulary) : RunCode q.Reply := Code.ask q

/-- The code of every closure: a hook remembers that it ran. -/
def application : Application vocabulary where
  body := fun c =>
    match c with
    | Closure.hook id name fails =>
      .access (fun (m : Memory) => { m with ran := (id, name) :: m.ran }) fun _ =>
        .done (if fails then .error "fuzzed hook failure" else .ok ())

/-- The names of the components whose hooks ran, the earliest first, leaving out the first `start`
of them. -/
def ranSince (m : Memory) (start : Nat) : List String := (m.ran.reverse.drop start).map Prod.snd

/-- The number of hooks that ran so far. -/
def ranSoFar : RunCode Nat := .access id fun (m : Memory) => .done m.ran.length

/-- Requires something that the registry is asked for. -/
def ensure (q : RunCode Bool) (text : String) : RunCode Unit := do
  Code.require (← q) text

/-- The names with pending hooks among the given ones. -/
def hookedAmong : List String → RunCode (List String)
  | [] => return []
  | n :: rest => do
    let hooked ← request (.hasHook n)
    let others ← hookedAmong rest
    return if hooked then n :: others else others

/-- The records among `dependents` of `dependency` that are part of no cycle and whose dependent is
one of the `hooked` names. -/
def orderedAmong (hooked : List String) (dependency : String) :
    List String → RunCode (List (String × String))
  | [] => return []
  | d :: rest => do
    let cyclic ← request (.isDependent d dependency)
    let others ← orderedAmong hooked dependency rest
    return if hooked.contains d && !cyclic then (dependency, d) :: others else others

/-- The records between `hooked` names that are part of no cycle, for the given dependencies. -/
def ordered (hooked : List String) : List String → RunCode (List (String × String))
  | [] => return []
  | dependency :: rest => do
    let own ← orderedAmong hooked dependency (← request (.dependents dependency))
    let others ← ordered hooked rest
    return own ++ others

/-- Each of the names occurs exactly once among those whose hooks ran. -/
def requireOnce (ran : List String) : List String → RunCode Unit
  | [] => return ()
  | n :: rest => do
    Code.require (ran.count n = 1) ("hook for " ++ n ++ " must run exactly once")
    requireOnce ran rest

/-- Whether `a` comes before `b`, where what does not come at all counts as first. -/
def before (ran : List String) (a b : String) : Bool :=
  match ran.idxOf? a, ran.idxOf? b with
  | none, some _ => true
  | some i, some j => i < j
  | _, none => false

/-- For each of the records the hook of the dependent ran first. -/
def requireOrder (ran : List String) : List (String × String) → RunCode Unit
  | [] => return ()
  | (dependency, dependent) :: rest => do
    Code.require (before ran dependent dependency)
      (dependent ++ " must be destroyed before " ++ dependency)
    requireOrder ran rest

/-- None of the names has a hook or a dependent. -/
def requireGone : List String → RunCode Unit
  | [] => return ()
  | n :: rest => do
    Code.require (!(← request (.hasHook n))) "no hook is left"
    Code.require (!(← request (.hasDependents n))) "no record is left"
    requireGone rest

/-- Makes an operation and checks what it promises. -/
def perform : Operation → RunCode Unit
  | .hook i fails => .access (fun (m : Memory) => { m with hooks := m.hooks + 1 })
    fun (m : Memory) => do
      request (.storeHook (name i) (Closure.hook m.hooks (name i) fails))
      Code.require (← request (.hasHook (name i))) "a stored hook is pending"
  | .register i value => .access (fun (m : Memory) => { m with components := m.components + 1 })
    fun (m : Memory) => do
      let _ ← request (.register (name i) ⟨m.components, value⟩)
  | .depend a b => do
    Code.require (← request (.depend (name a) (name b))).isOk "a dependency is recorded"
  | .contain inner outer => do
    Code.require (← request (.contain (name inner) (name outer))).isOk
      "a containment is recorded"
  | .destroy i => .destroy (name i) do
    Code.require (!(← request (.hasHook (name i)))) "a destroyed name has no hook"
    Code.require (!(← request (.isFinal (name i)))) "a destroyed name is not final"
    Code.require (!(← request (.hasDependents (name i)))) "a destroyed name has no dependents"
  | .destroyAll => do
    let hooked ← hookedAmong names
    let records ← ordered hooked hooked
    let start ← ranSoFar
    .destroyAll do
      let m : Memory ← Code.get
      requireOnce (ranSince m start) hooked
      requireOrder (ranSince m start) records
      Code.require (!(← request .isTearingDown)) "the teardown is over"
      Code.require ((← request .count) = 0) "no name is left"
      requireGone names
  | .clearAll => do
    let start ← ranSoFar
    request .clearAll
    Code.require ((← ranSoFar) = start) "clear_all runs no hooks"
    Code.require ((← request .count) = 0) "no name is left"

/-- No hook ran twice so far. -/
def check : RunCode Unit := do
  let m : Memory ← Code.get
  let ids := m.ran.map Prod.fst
  Code.require (ids.eraseDups.length = ids.length) "no hook runs twice"

/-- Makes operations one after the other, with a check after each. -/
def performAll : List Operation → RunCode Unit
  | [] => return ()
  | op :: rest => do
    perform op
    check
    performAll rest

/-- The run over the operations. -/
def program (operations : List Operation) : RunCode Unit :=
  performAll (operations.take maxOperations)

/-- At most `fuel` steps of the run over the operations. -/
def run (operations : List Operation) (fuel : Nat) : State vocabulary × Thread vocabulary :=
  Wiring.run application fuel (.start .default ⟨0, 0, []⟩, Thread.start (program operations))

end Wiring.Stress.Teardown
