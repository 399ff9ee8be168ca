import Wiring.Registry

/-!
# Code that uses a registry

Constructs, producers, hooks and the main program of an application are *code*: they read and write
the application's own memory, ask the registry for things, and may fail or panic. Some requests are
answered at once; others run further code of the application before they are answered. That code is
named by a *closure*, a label with the data it has captured, so that the registry can store it.

## Main definitions

* `Wiring.Vocabulary` — what an application's code talks about.
* `Wiring.Request` — the requests that are answered at once, with `Wiring.Request.Reply`.
* `Wiring.Code` — code as a tree of actions and their continuations.
* `Wiring.Application` — the code behind every closure.
* `Wiring.Code.resolve` and its relatives — requests made of several others.
-/

namespace Wiring

/-- Why code is run: as the main program, to construct an instance, to produce an early reference,
as a shutdown hook, or as a block with an extent of its own. -/
inductive Goal where
  | main
  | construct
  | producer
  | hook
  | block
deriving DecidableEq

/-- What code of a goal returns, over instances `ι`. A hook fails with a text. -/
@[reducible] def Goal.Result (ι : Type) : Goal → Type
  | .main => Unit
  | .construct => Except Error ι
  | .producer => ι
  | .hook => Except String Unit
  | .block => Except Error Unit

/-- What a panic carries. -/
inductive Panic where
  | text (s : String)
  | other (n : Int)
deriving DecidableEq

/-- The reason that a panic gives for the failure of a shutdown hook. -/
def Panic.reason : Panic → String
  | .text s => s
  | .other _ => "shutdown hook panicked"

/-- What an application's code talks about. Two instances are the same exactly when they are equal.
-/
structure Vocabulary where
  /-- The instances of components. -/
  Inst : Type
  /-- The memory of the application. -/
  World : Type
  /-- What the application writes into the transcript of a run. -/
  Note : Type
  /-- The labels of code that is run for a goal. -/
  Closure : Goal → Type
  /-- The name of the type of an instance. -/
  typeOf : Inst → String
  decEq : DecidableEq Inst

namespace Vocabulary

instance (v : Vocabulary) : DecidableEq v.Inst := v.decEq

/-- A registry for the application. -/
abbrev Registry (v : Vocabulary) : Type :=
  Wiring.Registry v.Inst (v.Closure .producer) (v.Closure .hook)

/-- The instance `i` of the component `n`, if it is of the type asked for. -/
def cast (v : Vocabulary) (n type : String) (i : v.Inst) : Except Error v.Inst :=
  if v.typeOf i = type then .ok i else .error (.typeMismatch n type)

end Vocabulary

/-! ### Requests that are answered at once -/

/-- A request to the registry that runs no code of the application. -/
inductive Request (v : Vocabulary) where
  | register (name : String) (i : v.Inst)
  | publish (name : String) (p : v.Closure .producer)
  | get (name : String)
  | remove (name : String)
  | names
  | count
  | isFinal (name : String)
  | isInCreation (name : String)
  | isMarked (name : String)
  | setExcluded (name : String) (on : Bool)
  | suppress (e : Error)
  | depend (dependency dependent : String)
  | contain (inner outer : String)
  | isDependent (name candidate : String)
  | hasDependents (name : String)
  | dependents (name : String)
  | dependencies (name : String)
  | parts (outer : String)
  | storeHook (name : String) (h : v.Closure .hook)
  | hasHook (name : String)
  | isTearingDown
  | clearAll
  | options
  | summary
  | survey (names : List String)

namespace Request

variable {v : Vocabulary}

/-- What a request is answered with. -/
@[reducible] def Reply : Request v → Type
  | .register .. | .depend .. | .contain .. => Except Error Unit
  | .publish .. | .isFinal _ | .isInCreation _ | .isMarked _ | .isDependent .. | .hasDependents _
  | .hasHook _ | .isTearingDown => Bool
  | .get _ => Except Error v.Inst
  | .remove _ => Option v.Inst
  | .names | .dependents _ | .dependencies _ | .parts _ => List String
  | .count => Nat
  | .setExcluded .. | .suppress _ | .storeHook .. | .clearAll => Unit
  | .options => Options
  | .summary => Registry.Summary
  | .survey _ => Registry.Survey v.Inst

/-- Answers a request. -/
def answer (r : v.Registry) : (q : Request v) →
    Answer q.Reply v.Inst (v.Closure .producer) (v.Closure .hook)
  | .register n i => r.register n i
  | .publish n p => r.publish n p
  | .get n => ⟨match r.store.final? n with
      | some i => .ok i
      | none => .error (.notFound n), r, none⟩
  | .remove n => ⟨(r.store.remove n).1, { r with store := (r.store.remove n).2 }, none⟩
  | .names => ⟨r.store.names, r, none⟩
  | .count => ⟨r.store.count, r, none⟩
  | .isFinal n => ⟨r.store.isFinal n, r, none⟩
  | .isInCreation n => ⟨r.marks.isInCreation n, r, none⟩
  | .isMarked n => ⟨r.marks.isMarked n, r, none⟩
  | .setExcluded n on => ⟨(), { r with marks := r.marks.setExcluded n on }, none⟩
  | .suppress e => ⟨(), r.suppress e, none⟩
  | .depend a b => r.depend a b
  | .contain a b => r.contain a b
  | .isDependent n c => ⟨r.links.isDependent n c, r, none⟩
  | .hasDependents n => ⟨r.links.hasDependents n, r, none⟩
  | .dependents n => ⟨r.links.dependentsOf n, r, none⟩
  | .dependencies n => ⟨r.links.dependenciesOf n, r, none⟩
  | .parts n => ⟨r.links.partsOf n, r, none⟩
  | .storeHook n h => ⟨(), { r with hooks := r.hooks.insert n h }, some (.hookStored n)⟩
  | .hasHook n => ⟨r.hooks.contains n, r, none⟩
  | .isTearingDown => ⟨r.tearingDown, r, none⟩
  | .clearAll => ⟨(), r.clearAll, some (.clearing r.store.finalCount)⟩
  | .options => ⟨r.options, r, none⟩
  | .summary => ⟨r.summary, r, none⟩
  | .survey ns => ⟨r.survey ns, r, none⟩

/-- Whether a request is answered under the lock of the registry. Early references are refused
without it where circular references are not allowed. -/
def locks (o : Options) : Request v → Bool
  | .register .. | .remove _ | .names | .count | .suppress _ | .clearAll => true
  | .publish .. => o.circular
  | _ => false

end Request

/-! ### Code -/

/-- Code that returns an `α`. -/
inductive Code (v : Vocabulary) (α : Type) where
  /-- Returns. -/
  | done (a : α)
  /-- Panics. -/
  | panic (p : Panic)
  /-- Writes into the transcript. -/
  | note (x : v.Note) (next : Code v α)
  /-- Changes the memory at one stroke, and goes on with what it was before. -/
  | access (change : v.World → v.World) (next : v.World → Code v α)
  /-- Makes a request that is answered at once. -/
  | call (q : Request v) (next : q.Reply → Code v α)
  /-- Looks up an instance; a producer of an early reference is run if `early` allows it. -/
  | lookup (name : String) (early : Bool) (next : Option v.Inst → Code v α)
  /-- Asks for the final instance of a name, to be constructed if need be. -/
  | create (name : String) (construct : v.Closure .construct)
      (next : Except Error v.Inst → Code v α)
  /-- Destroys a component, its dependents first and its parts last. -/
  | destroy (name : String) (next : Code v α)
  /-- Destroys every component that has a hook, and empties the registry. -/
  | destroyAll (next : Code v α)
  /-- Runs a block under the lock of the registry. -/
  | hold (b : v.Closure .block) (next : Except Error Unit → Code v α)
  /-- Runs a block and catches a panic that leaves it. -/
  | guard (b : v.Closure .block) (next : Except Panic (Except Error Unit) → Code v α)

namespace Code

variable {v : Vocabulary} {α β : Type}

/-- Continues with the returned value. -/
def bind : Code v α → (α → Code v β) → Code v β
  | .done a, f => f a
  | .panic p, _ => .panic p
  | .note x next, f => .note x (next.bind f)
  | .access change next, f => .access change fun w => (next w).bind f
  | .call q next, f => .call q fun a => (next a).bind f
  | .lookup n early next, f => .lookup n early fun a => (next a).bind f
  | .create n c next, f => .create n c fun a => (next a).bind f
  | .destroy n next, f => .destroy n (next.bind f)
  | .destroyAll next, f => .destroyAll (next.bind f)
  | .hold b next, f => .hold b fun a => (next a).bind f
  | .guard b next, f => .guard b fun a => (next a).bind f

instance : Monad (Code v) where
  pure := .done
  bind := bind

theorem bind_done (c : Code v α) : c.bind .done = c := by
  induction c <;> simp_all [bind]

theorem bind_assoc {γ : Type} (c : Code v α) (f : α → Code v β) (g : β → Code v γ) :
    (c.bind f).bind g = c.bind fun a => (f a).bind g := by
  induction c <;> simp_all [bind]

/-- Continuing is associative, with returning at once as its unit. -/
instance : LawfulMonad (Code v) :=
  LawfulMonad.mk' (Code v) bind_done (fun _ _ => rfl) bind_assoc

/-- The answer to a request. -/
def ask (q : Request v) : Code v q.Reply := .call q .done

/-- The memory. -/
def get : Code v v.World := .access id .done

/-- Changes the memory. -/
def modify (f : v.World → v.World) : Code v Unit := .access f fun _ => .done ()

/-- Writes into the transcript. -/
def log (x : v.Note) : Code v Unit := .note x (.done ())

/-- Panics with the text unless the condition holds. -/
def require (condition : Bool) (text : String) : Code v Unit :=
  if condition then .done () else .panic (.text text)

/-- The instance of `n`, a half-built one included. -/
def obtain (n : String) : Code v (Option v.Inst) := .lookup n true .done

/-- The final instance of `n` if it is of the type asked for. -/
def getAs (n type : String) : Code v (Except Error v.Inst) := do
  return (← ask (.get n)).bind (v.cast n type)

/-- The final instance of `n`, constructed if need be. -/
def obtainOrCreate (n : String) (c : v.Closure .construct) : Code v (Except Error v.Inst) :=
  .create n c .done

/-- The final instance of `n`, constructed if need be, if it is of the type asked for. -/
def createAs (n type : String) (c : v.Closure .construct) : Code v (Except Error v.Inst) := do
  return (← obtainOrCreate n c).bind (v.cast n type)

/-- The instance of `n`: the one that can be had, half-built or not, else a constructed one. -/
def resolve (n : String) (c : v.Closure .construct) : Code v (Except Error v.Inst) := do
  match ← obtain n with
  | some i => return .ok i
  | none => obtainOrCreate n c

/-- Resolving a name looks it up first, and asks for a build if there is nothing to be found. -/
theorem resolve_bind (n : String) (c : v.Closure .construct)
    (next : Except Error v.Inst → Code v α) :
    (resolve n c).bind next =
      .lookup n true fun a => match a with
        | some i => next (.ok i)
        | none => .create n c next := by
  refine congrArg (lookup n true) (funext fun a => ?_)
  cases a <;> rfl

/-- The instance of `n` as `resolve` finds it, if it is of the type asked for. -/
def resolveAs (n type : String) (c : v.Closure .construct) : Code v (Except Error v.Inst) := do
  return (← resolve n c).bind (v.cast n type)

end Code

/-- The code behind every closure. -/
structure Application (v : Vocabulary) where
  body : {g : Goal} → v.Closure g → Code v (g.Result v.Inst)

end Wiring
