import Wiring.Script.Memory
import Wiring.Script.Trace

/-!
# The meaning of scripts

The code that each step of a script stands for, and the code of its bodies, as an application of the
registry.

## Main definitions

* `Wiring.Script.Closure`, `Wiring.Script.vocabulary` — what scripts talk about.
* `Wiring.Script.Action.code`, `Wiring.Script.runSteps` — the code of an action and of a list of
  steps.
* `Wiring.Script.application` — the code of every body, for given definitions.
-/

namespace Wiring.Script

/-- The labels of the bodies of a script, with what they have captured. -/
inductive Closure : Goal → Type where
  /-- A body that constructs `name`, as a component of the given kind if there is one. -/
  | construct (name : String) (kind : Option Kind) (body : BodyRef Action) : Closure .construct
  | producer (name : String) (body : BodyRef Action) : Closure .producer
  | exposing (c : Component) : Closure .producer
  | wrapping (name : String) (c : Component) : Closure .producer
  | hook (name : String) (body : BodyRef Action) : Closure .hook
  /-- The destruction of a widget. -/
  | disposal (id : Nat) (label : String) : Closure .hook
  | steps (occasion : Occasion) (steps : List (Step Action)) : Closure .block

/-- What scripts talk about. -/
def vocabulary : Vocabulary where
  Inst := Component
  World := Memory
  Note := Note
  Closure := Closure
  typeOf c := c.kind.typeName
  decEq := inferInstance

/-- Code of a script. -/
abbrev ScriptCode (α : Type) : Type := Code vocabulary α

/-! ### Expressions -/

/-- Evaluates an expression for a component. -/
def eval (i : Source) : ScriptCode (Except Error Component) :=
  .access (fun (m : Memory) => (m.eval i).2) fun (m : Memory) => .done (m.eval i).1

/-- Evaluates an expression for a component and goes on with its value, if it has one. -/
def withSource (i : Source) (f : Component → ScriptCode (Except Error Value)) :
    ScriptCode (Except Error Value) := do
  match ← eval i with
  | .error e => return .error e
  | .ok c => f c

/-- Goes on with a widget; any other component is not of its type, under the given name. -/
def withWidget (name : String) (c : Component)
    (f : String → ScriptCode (Except Error Value)) : ScriptCode (Except Error Value) :=
  match c.label? with
  | none => return .error (.typeMismatch name Kind.widget.typeName)
  | some label => f label

/-- Allocates a component. -/
def allot (p : Payload) : ScriptCode Component :=
  .access (fun (m : Memory) => (m.allocate p).2) fun (m : Memory) => .done (m.allocate p).1

/-! ### Steps -/

/-- The answer to a request. -/
def request (q : Request vocabulary) : ScriptCode q.Reply := Code.ask q

/-- Writes into the transcript. -/
def log (x : Note) : ScriptCode Unit := .note x (.done ())

/-- What a request replied, as a result. -/
def replied (q : Request vocabulary) (f : q.Reply → Value) : ScriptCode (Except Error Value) := do
  return .ok (f (← request q))

/-- What a request that may be refused replied, as a result. -/
def granted (r : Except Error Component) : Except Error Value := r.map .component

/-- A component that may be missing, as a result. -/
def found : Option Component → Value
  | some c => .component c
  | none => .nothing

/-- What an action does. -/
def Action.code : Action → ScriptCode (Except Error Value)
  | .allocate i => return granted (← eval i)
  | .register n i => withSource i fun c => do
    return (← request (.register n c)).map fun _ => .component c
  | .registerNew n p => do
    let m : Memory ← Code.get
    match ← request (.register n (m.allocate p).1) with
    | .error e => return .error e
    | .ok () => return .ok (.component (← allot p))
  | .publish n body => replied (.publish n (Closure.producer n body)) .flag
  | .publishExposing n i | .expose n i => withSource i fun c =>
    replied (.publish n (Closure.exposing c)) .flag
  | .publishWrapping n i => withSource i fun c =>
    replied (.publish n (Closure.wrapping n c)) .flag
  | .obtain n => return .ok (found (← Code.obtain n))
  | .obtainWith n early => .lookup n early fun i => .done (.ok (found i))
  | .get n kind => return granted (← Code.getAs n kind.typeName)
  | .isFinal n => replied (.isFinal n) .flag
  | .isInCreation n => replied (.isInCreation n) .flag
  | .isMarked n => replied (.isMarked n) .flag
  | .hasDependents n => replied (.hasDependents n) .flag
  | .hasHook n => replied (.hasHook n) .flag
  | .names => replied .names .names
  | .count => replied .count .number
  | .create n body => return granted (← Code.obtainOrCreate n (Closure.construct n none body))
  | .resolve n body => return granted (← Code.resolve n (Closure.construct n none body))
  | .createAs n kind body =>
    return granted (← Code.createAs n kind.typeName (Closure.construct n (some kind) body))
  | .resolveAs n kind body =>
    return granted (← Code.resolveAs n kind.typeName (Closure.construct n (some kind) body))
  | .suppress f => do
    let m : Memory ← Code.get
    replied (.suppress (m.fault f)) fun _ => .nothing
  | .remove n => replied (.remove n) found
  | .exclude n on => replied (.setExcluded n on) fun _ => .nothing
  | .depend a b => return (← request (.depend a b)).map fun _ => .nothing
  | .contain a b => return (← request (.contain a b)).map fun _ => .nothing
  | .isDependent n c => replied (.isDependent n c) .flag
  | .dependents n => replied (.dependents n) .names
  | .dependencies n => replied (.dependencies n) .names
  | .parts n => replied (.parts n) .names
  | .hook n body => replied (.storeHook n (Closure.hook n body)) fun _ => .nothing
  | .disposable n i body => withSource i fun c => withWidget n c fun label => do
    Code.modify fun (m : Memory) => { m with disposals := m.disposals.insert c.id body }
    replied (.storeHook n (Closure.disposal c.id label)) fun _ => .nothing
  | .isTearingDown => replied .isTearingDown .flag
  | .destroyAll => .destroyAll (.done (.ok .nothing))
  | .clearAll => replied .clearAll fun _ => .nothing
  | .destroy n => .destroy n (.done (.ok .nothing))
  | .bind owner other => withSource owner fun a => withWidget "on" a fun _ =>
    withSource other fun b => withWidget "to" b fun _ => do
      let m : Memory ← Code.get
      match (m.slot a).bind? b with
      | none => return .ok (.rejected b)
      | some slot => do
        Code.modify fun (m : Memory) => { m with slots := m.slots.insert a.id slot }
        return .ok .bound
  | .peer owner => withSource owner fun a => withWidget "on" a fun _ => do
    let m : Memory ← Code.get
    return .ok (.slot (m.slot a))
  | .bindTwice other => withSource other fun b => withWidget "to" b fun _ => do
    let first := Slot.empty.bind? b
    let second := (first.getD .empty).bind? b
    return .ok (.boundTwice .empty first.isSome second.isSome (first.getD .empty))
  | .inspectProducer i => withSource i fun _ =>
    return .ok (.text (Text.Shape.hidden "EarlyReferenceFactory").inline)
  | .cast n i kind => withSource i fun c => return granted (vocabulary.cast n kind.typeName c)
  | .summary => replied .summary fun s => .text s.shape.inline
  | .options => replied .options fun o => .text o.shape.inline
  | .survey ns => replied (.survey ns) .survey
  | .hold steps => .hold (Closure.steps .hold steps) fun r =>
    .done (r.map fun _ => .text (Text.Shape.hidden "SingletonLock").inline)
  | .guard steps => .guard (Closure.steps .guard steps) fun
    | .error p => .done (.ok (.caught p))
    | .ok r => .done (r.map fun _ => .nothing)

/-- What a step does: its action, whose result or error is noted. The error is passed on only if the
step is essential. -/
def Step.code (st : Step Action) : ScriptCode (Except Error Unit) := do
  match ← st.action.code with
  | .ok value => do
    match value with
    | .component c => Code.modify fun (m : Memory) => m.bind st.bind c
    | _ => pure ()
    log (.succeeded st.action.word value)
    return .ok ()
  | .error e => do
    Code.modify fun (m : Memory) => { m with lastError := some e }
    log (.failed st.action.word e)
    return if st.essential then .error e else .ok ()

/-- Does steps one after the other, up to the first error that is passed on. -/
def runSteps : List (Step Action) → ScriptCode (Except Error Unit)
  | [] => return .ok ()
  | st :: rest => do
    match ← st.code with
    | .error e => return .error e
    | .ok () => runSteps rest

/-! ### Bodies -/

/-- The bodies that a script defines by name. -/
abbrev Definitions : Type := List (String × Body Action)

/-- The body that a reference stands for; a name without a definition stands for nothing to do. -/
def BodyRef.body (defs : Definitions) : BodyRef Action → Body Action
  | .inline b => b
  | .named n => (defs.lookup n).getD ⟨[], ⟨none, none, none⟩⟩

/-- Runs the steps of a body and then its ending, unless a step or a panic ended it before. -/
def runBody {α : Type} (b : Body Action) (failed : Error → ScriptCode α)
    (ending : Ending → ScriptCode α) : ScriptCode α := do
  match ← runSteps b.steps with
  | .error e => failed e
  | .ok () =>
    match b.ending.panic with
    | some p => .panic p
    | none => ending b.ending

/-- The component that a body ends with: a new widget, labelled with the name it is made for, if
nothing is said. -/
def Ending.component (name : String) (ending : Ending) : ScriptCode (Except Error Component) :=
  match ending.value with
  | some i => eval i
  | none => return .ok (← allot (.widget name))

/-- The error that a reason stands for, in a body that constructs `name`. -/
def Reason.error (name : String) (m : Memory) : Reason → Error
  | .fault f => m.fault f
  | .text s => .creationFailed name s []

/-- The text that a reason stands for. -/
def Reason.message (m : Memory) : Reason → String
  | .fault f => (m.fault f).message
  | .text s => s

/-- The code of a body that constructs a component. -/
def constructCode (defs : Definitions) (name : String) (kind : Option Kind)
    (body : BodyRef Action) : ScriptCode (Except Error Component) := do
  log (.enter .construct name)
  let made ← runBody (body.body defs) (fun e => return .error e) fun ending =>
    match ending.failure with
    | some reason => do
      let m : Memory ← Code.get
      return .error (reason.error name m)
    | none => ending.component name
  return match kind with
    | none => made
    | some k => made.bind (vocabulary.cast name k.typeName)

/-- The code of a body that produces an early reference. It can only fail by a panic. -/
def producerCode (defs : Definitions) (name : String) (body : BodyRef Action) :
    ScriptCode Component := do
  log (.enter .producer name)
  runBody (body.body defs) (fun e => .panic (.text e.message)) fun ending => do
    match ← ending.component name with
    | .ok c => return c
    | .error e => .panic (.text e.message)

/-- The code of a body that is run when a component is destroyed. -/
def hookCode (defs : Definitions) (occasion : Occasion) (name : String) (body : BodyRef Action) :
    ScriptCode (Except String Unit) := do
  log (.enter occasion name)
  runBody (body.body defs) (fun e => return .error e.message) fun ending =>
    match ending.failure with
    | some reason => do
      let m : Memory ← Code.get
      return .error (reason.message m)
    | none => return .ok ()

/-- The code of the destruction of a widget: the body that it was given last. -/
def disposalCode (defs : Definitions) (widget : Nat) (label : String) :
    ScriptCode (Except String Unit) :=
  .access id fun (m : Memory) => hookCode defs .destroy label
    ((m.disposals.find? widget).getD (.inline ⟨[], ⟨none, none, none⟩⟩))

/-- The code of every body of a script with the given definitions. -/
def application (defs : Definitions) : Application vocabulary where
  body := fun c =>
    match c with
    | Closure.construct name kind body => constructCode defs name kind body
    | Closure.producer name body => producerCode defs name body
    | Closure.exposing c => Code.done c
    | Closure.wrapping name c => do
      log (.enter .wrap name)
      allot (.proxy c.id)
    | Closure.hook name body => hookCode defs .hook name body
    | Closure.disposal id label => disposalCode defs id label
    | Closure.steps occasion sts => do
      log (.enter occasion "")
      runSteps sts

end Wiring.Script
