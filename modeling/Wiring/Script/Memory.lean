import Wiring.Script.Action

/-!
# What a script remembers

The variables of a script, the number of the next component, the error of the step that failed last,
the slots of the widgets and the bodies to run when widgets are destroyed. Expressions for
components and errors are evaluated here.
-/

namespace Wiring.Script

/-- What a script remembers between its steps. -/
structure Memory where
  vars : Table String Component
  /-- The identity of the next component. -/
  nextId : Nat
  lastError : Option Error
  /-- The bound slots, by the identity of the widget. -/
  slots : Table Nat (Slot Component)
  /-- What to run when a widget is destroyed, by the identity of the widget. -/
  disposals : Table Nat (BodyRef Action)

namespace Memory

/-- Nothing has happened yet; the first component will be number one. -/
def start : Memory := ⟨.empty, 1, none, .empty, .empty⟩

/-- Allocates a component. -/
def allocate (m : Memory) (p : Payload) : Component × Memory :=
  (⟨m.nextId, p⟩, { m with nextId := m.nextId + 1 })

/-- Binds a variable, if there is one to bind. -/
def bind (m : Memory) (x : Option String) (c : Component) : Memory :=
  match x with
  | none => m
  | some x => { m with vars := m.vars.insert x c }

/-- The value of an expression for a component. Every evaluation allocates anew, a proxy after its
target; a variable that is not bound is not found under its name after a dollar sign. -/
def eval (m : Memory) : Source → Except Error Component × Memory
  | .fresh p x =>
    let (c, m) := m.allocate p
    (.ok c, m.bind x c)
  | .proxy target x =>
    match m.eval target with
    | (.error e, m) => (.error e, m)
    | (.ok t, m) =>
      let (c, m) := m.allocate (.proxy t.id)
      (.ok c, m.bind x c)
  | .var y x =>
    match m.vars.find? y with
    | none => (.error (.notFound ("$" ++ y)), m)
    | some c => (.ok c, m.bind x c)

mutual

/-- The value of an expression for an error, where `last` is the error of the step that failed
last. -/
def evalFault (last : Option Error) : Fault → Error
  | .last => last.getD (.notFound "$last")
  | .plain e => e
  | .creationFailed n r fs => .creationFailed n r (evalFaults last fs)

/-- The values of several expressions for errors. -/
def evalFaults (last : Option Error) : List Fault → List Error
  | [] => []
  | f :: fs => evalFault last f :: evalFaults last fs

end

/-- The error that an expression stands for now. -/
def fault (m : Memory) (f : Fault) : Error := evalFault m.lastError f

/-- The slot of a widget. -/
def slot (m : Memory) (c : Component) : Slot Component := (m.slots.find? c.id).getD .empty

end Memory

end Wiring.Script
