import Wiring.Code

/-!
# Running code over a registry

A run is a sequence of small steps. The *state* is what all code shares: the registry, the memory of
the application, and the transcript. A *thread* is where one line of execution stands: the code it
runs, or the request it is in the middle of, and the stack of the requests that are waiting for that
code to return. A panic takes frames off the stack one at a time; each frame says what it leaves
behind.

## Main definitions

* `Wiring.Stack` — the requests that wait for code to return, innermost first.
* `Wiring.Thread`, `Wiring.State` — where an execution stands, and what it shares with others.
* `Wiring.Thread.step` — one step; `Wiring.run` — many.
* `Wiring.Thread.wantsLock`, `Wiring.Thread.holdsLock` — when a thread has to wait for the others.
-/

namespace Wiring

variable {v : Vocabulary}

/-! ### What is shared -/

/-- A line of the transcript: something the registry reported, or a note of the application. -/
inductive Item (v : Vocabulary) where
  | event (e : Log.Event)
  | note (x : v.Note)

/-- A line of the transcript, with the number of closures that were being run when it was written.
-/
structure Entry (v : Vocabulary) where
  depth : Nat
  item : Item v

/-- What the threads of an application share. -/
structure State (v : Vocabulary) where
  registry : v.Registry
  world : v.World
  /-- The transcript, the latest line first. -/
  transcript : List (Entry v)

namespace State

/-- The state at the start: a fresh registry, which has been reported. -/
def start (o : Options) (w : v.World) : State v := ⟨.fresh o, w, [⟨0, .event (.opened o)⟩]⟩

/-- Writes a line into the transcript. -/
def write (s : State v) (depth : Nat) (item : Item v) : State v :=
  { s with transcript := ⟨depth, item⟩ :: s.transcript }

/-- Reports an event. -/
def report (s : State v) (depth : Nat) (e : Log.Event) : State v := s.write depth (.event e)

/-- Goes on with another registry. -/
def withRegistry (s : State v) (r : v.Registry) : State v := { s with registry := r }

/-- Goes on with the registry of an answer, after reporting its event. -/
def after {ρ : Type} (s : State v) (depth : Nat)
    (a : Answer ρ v.Inst (v.Closure .producer) (v.Closure .hook)) : State v :=
  match a.event with
  | some e => (s.withRegistry a.registry).report depth e
  | none => s.withRegistry a.registry

@[simp] theorem registry_report (s : State v) (depth : Nat) (e : Log.Event) :
    (s.report depth e).registry = s.registry := rfl

@[simp] theorem registry_withRegistry (s : State v) (r : v.Registry) :
    (s.withRegistry r).registry = r := rfl

@[simp] theorem registry_after {ρ : Type} (s : State v) (depth : Nat)
    (a : Answer ρ v.Inst (v.Closure .producer) (v.Closure .hook)) :
    (s.after depth a).registry = a.registry := by
  unfold after
  split <;> rfl

@[simp] theorem world_after {ρ : Type} (s : State v) (depth : Nat)
    (a : Answer ρ v.Inst (v.Closure .producer) (v.Closure .hook)) :
    (s.after depth a).world = s.world := by
  unfold after
  split <;> rfl

/-- The events reported so far from a level on, the earliest first; none without a level. -/
def events (s : State v) (threshold : Option Log.Level) : List Log.Event :=
  s.transcript.reverse.filterMap fun e =>
    match e.item with
    | .event ev => if threshold.any (·.shownAt ev.level) then some ev else none
    | .note _ => none

/-- The notes written so far, the earliest first. -/
def notes (s : State v) : List v.Note :=
  s.transcript.reverse.filterMap fun e =>
    match e.item with
    | .event _ => none
    | .note x => some x

end State

/-! ### The stack -/

/-- What is left to do in a teardown. -/
inductive Task (v : Vocabulary) where
  /-- Destroy a component. -/
  | destroy (name : String)
  /-- Run the hook that was detached from a component. -/
  | hook (name : String) (h : v.Closure .hook)
  /-- Destroy the parts of a component. -/
  | parts (name : String)
  /-- Withdraw the remaining records of a component. -/
  | scrub (name : String)
  /-- End the teardown of the whole registry. -/
  | reset

/-- The requests that wait for code to return, innermost first. The index is the goal of the code
that is being run on top of them; each frame knows how the code below goes on. -/
inductive Stack (v : Vocabulary) : Goal → Type where
  /-- Nothing waits: the main program is being run. -/
  | top : Stack v .main
  /-- A build waits for its construct; `outermost` tells whether it was begun outside every other
  build. -/
  | building {g : Goal} (name : String) (outermost : Bool)
      (resume : Except Error v.Inst → Code v (g.Result v.Inst)) (rest : Stack v g) :
      Stack v .construct
  /-- A lookup waits for the producer of an early reference. -/
  | producing {g : Goal} (name : String)
      (resume : Option v.Inst → Code v (g.Result v.Inst)) (rest : Stack v g) : Stack v .producer
  /-- A teardown waits for a hook, with the tasks that come after it. -/
  | tearing {g : Goal} (name : String) (todo : List (Task v))
      (next : Code v (g.Result v.Inst)) (rest : Stack v g) : Stack v .hook
  /-- The lock is held while a block is run. -/
  | holding {g : Goal} (resume : Except Error Unit → Code v (g.Result v.Inst))
      (rest : Stack v g) : Stack v .block
  /-- Panics are caught while a block is run. -/
  | guarding {g : Goal} (resume : Except Panic (Except Error Unit) → Code v (g.Result v.Inst))
      (rest : Stack v g) : Stack v .block

namespace Stack

/-- The number of closures that are being run. -/
def depth : {g : Goal} → Stack v g → Nat
  | _, .top => 0
  | _, .building _ _ _ rest | _, .producing _ _ rest | _, .tearing _ _ _ rest | _, .holding _ rest
  | _, .guarding _ rest => rest.depth + 1

/-- Whether one of the frames holds the lock: builds and early lookups do until they are answered,
and so does a block that asked for it. -/
def holdsLock : {g : Goal} → Stack v g → Bool
  | _, .top => false
  | _, .building .. | _, .producing .. | _, .holding .. => true
  | _, .tearing _ _ _ rest | _, .guarding _ rest => rest.holdsLock

end Stack

/-! ### Threads -/

/-- How far a lookup or a build request has come. -/
inductive Stage where
  /-- It reads without the lock. -/
  | reading
  /-- It waits for the lock. -/
  | waiting
  /-- It has the lock. -/
  | inside
deriving DecidableEq

/-- Where an execution stands. -/
inductive Thread (v : Vocabulary) where
  /-- It runs code. -/
  | exec {g : Goal} (code : Code v (g.Result v.Inst)) (stack : Stack v g)
  /-- It looks up an instance. -/
  | seek {g : Goal} (stage : Stage) (name : String) (early : Bool)
      (resume : Option v.Inst → Code v (g.Result v.Inst)) (stack : Stack v g)
  /-- It asks for a build. -/
  | begin {g : Goal} (stage : Stage) (name : String) (construct : v.Closure .construct)
      (resume : Except Error v.Inst → Code v (g.Result v.Inst)) (stack : Stack v g)
  /-- It works on the tasks of a teardown. -/
  | walk {g : Goal} (todo : List (Task v)) (next : Code v (g.Result v.Inst)) (stack : Stack v g)
  /-- It panics. -/
  | unwind {g : Goal} (p : Panic) (stack : Stack v g)
  /-- It came to its end, by itself or by a panic. -/
  | finished (outcome : Except Panic Unit)

/-- The thread that runs a main program. -/
def Thread.start (main : Code v Unit) : Thread v := .exec (g := .main) main .top

/-! ### Steps -/

/-- Returns a value to the innermost waiting request. -/
def Stack.leave (s : State v) : {g : Goal} → Stack v g → g.Result v.Inst → State v × Thread v
  | _, .top, () => (s, .finished (.ok ()))
  | _, .building n outermost resume rest, result =>
    let a := s.registry.settle n outermost result
    (s.after rest.depth a, .exec (resume a.reply) rest)
  | _, .producing n resume rest, i =>
    let memo := s.registry.store.memoize n i
    ((s.withRegistry { s.registry with store := memo.2 }).report rest.depth (.earlyReturned n),
      .exec (resume (some memo.1)) rest)
  | _, .tearing n todo next rest, result =>
    match result with
    | .ok () => (s.report rest.depth (.hookRan n), .walk todo next rest)
    | .error reason => (s.report rest.depth (.hookFailed n reason), .walk todo next rest)
  | _, .holding resume rest, result => (s, .exec (resume result) rest)
  | _, .guarding resume rest, result => (s, .exec (resume (.ok result)) rest)

/-- Lets a panic take the innermost frame off. A build is abandoned, a hook is reported as failed
and the teardown goes on, a guarded block catches the panic; the other frames just go. -/
def Stack.unwind (s : State v) (p : Panic) : {g : Goal} → Stack v g → State v × Thread v
  | _, .top => (s, .finished (.error p))
  | _, .building n outermost _ rest =>
    (s.withRegistry (s.registry.abandon n outermost), .unwind p rest)
  | _, .producing _ _ rest => (s, .unwind p rest)
  | _, .tearing n todo next rest =>
    (s.report rest.depth (.hookFailed n p.reason), .walk todo next rest)
  | _, .holding _ rest => (s, .unwind p rest)
  | _, .guarding resume rest => (s, .exec (resume (.error p)) rest)

/-- What there is to do for destroying `n`: destroy its dependents, run its hook, destroy its parts,
withdraw its remaining records. -/
def destroyTasks (r : v.Registry) (n : String) : List (Task v) :=
  (r.links.dependentsOf n).map .destroy ++ (r.hooks.find? n).toList.map (.hook n) ++
    [.parts n, .scrub n]

/-- One step of a teardown. -/
def walkStep (app : Application v) (s : State v) {g : Goal} (next : Code v (g.Result v.Inst))
    (stack : Stack v g) : List (Task v) → State v × Thread v
  | [] => (s, .exec next stack)
  | .destroy n :: todo =>
    let dependents := s.registry.links.dependentsOf n
    let s' := s.withRegistry (s.registry.detach n)
    (if dependents = [] then s' else s'.report stack.depth (.dependentsFirst n dependents),
      .walk (destroyTasks s.registry n ++ todo) next stack)
  | .hook n h :: todo => (s, .exec (app.body h) (.tearing n todo next stack))
  | .parts n :: todo =>
    (s.withRegistry (s.registry.detachParts n),
      .walk ((s.registry.links.partsOf n).map .destroy ++ todo) next stack)
  | .scrub n :: todo => (s.withRegistry (s.registry.scrub n), .walk todo next stack)
  | .reset :: todo => (s.withRegistry s.registry.reset, .walk todo next stack)

/-- One step of a lookup. A final instance is returned at once; a name that is not marked has none;
otherwise the lock is taken and the early tier is consulted. -/
def seekStep (app : Application v) (s : State v) {g : Goal} (n : String) (early : Bool)
    (resume : Option v.Inst → Code v (g.Result v.Inst)) (stack : Stack v g) :
    Stage → State v × Thread v
  | .reading =>
    if s.registry.marks.isMarked n then (s, .seek .waiting n early resume stack)
    else (s, .exec (resume none) stack)
  | .waiting => (s, .seek .inside n early resume stack)
  | .inside =>
    match s.registry.store.final? n with
    | some i => (s, .exec (resume (some i)) stack)
    | none =>
      if early && s.registry.options.circular then
        match s.registry.store.seek n with
        | .nothing => (s, .exec (resume none) stack)
        | .early i => (s.report stack.depth (.earlyReturned n), .exec (resume (some i)) stack)
        | .pending p store =>
          ((s.withRegistry { s.registry with store := store }).report stack.depth (.producing n),
            .exec (app.body p) (.producing n resume stack))
      else
        match s.registry.store.early? n with
        | none => (s, .exec (resume none) stack)
        | some i => (s.report stack.depth (.earlyReturned n), .exec (resume (some i)) stack)

/-- One step of a build request. A final instance is returned at once, also when it became final
while the lock was waited for; no build begins during a teardown or inside a build of the same
name. -/
def beginStep (app : Application v) (s : State v) {g : Goal} (n : String)
    (construct : v.Closure .construct) (resume : Except Error v.Inst → Code v (g.Result v.Inst))
    (stack : Stack v g) : Stage → State v × Thread v
  | .reading =>
    match s.registry.store.final? n with
    | some i => (s.report stack.depth (.cachedReturned n), .exec (resume (.ok i)) stack)
    | none => (s, .begin .waiting n construct resume stack)
  | .waiting => (s, .begin .inside n construct resume stack)
  | .inside =>
    match s.registry.store.final? n with
    | some i => (s, .exec (resume (.ok i)) stack)
    | none =>
      if s.registry.tearingDown then (s, .exec (resume (.error (.tearingDown n))) stack)
      else
        let s' := s.report stack.depth (.creating n)
        match s.registry.openBuild n with
        | .error e => (s', .exec (resume (.error e)) stack)
        | .ok registry =>
          (s'.withRegistry registry,
            .exec (app.body construct) (.building n s.registry.suppressed.isNone resume stack))

/-- One step of code. -/
def execStep (app : Application v) (s : State v) {g : Goal} (stack : Stack v g) :
    Code v (g.Result v.Inst) → State v × Thread v
  | .done a => stack.leave s a
  | .panic p => (s, .unwind p stack)
  | .note x next => (s.write stack.depth (.note x), .exec next stack)
  | .access change next => ({ s with world := change s.world }, .exec (next s.world) stack)
  | .call q next =>
    let a := q.answer s.registry
    (s.after stack.depth a, .exec (next a.reply) stack)
  | .lookup n early next =>
    match s.registry.store.final? n with
    | some i => (s, .exec (next (some i)) stack)
    | none => (s, .seek .reading n early next stack)
  | .create n c next =>
    match checkName n with
    | .error e => (s, .exec (next (.error e)) stack)
    | .ok () => (s, .begin .reading n c next stack)
  | .destroy n next => (s, .walk [.destroy n] next stack)
  | .destroyAll next =>
    ((s.report stack.depth (.destroying s.registry.hooks.size)).withRegistry
        s.registry.beginTeardown,
      .walk (s.registry.hooks.keys.reverse.map .destroy ++ [.reset]) next stack)
  | .hold b next => (s, .exec (app.body b) (.holding next stack))
  | .guard b next => (s, .exec (app.body b) (.guarding next stack))

namespace Thread

/-- One step of a thread that does not have to wait. A finished thread stays as it is. -/
def step (app : Application v) (s : State v) : Thread v → State v × Thread v
  | .exec code stack => execStep app s stack code
  | .seek stage n early resume stack => seekStep app s n early resume stack stage
  | .begin stage n construct resume stack => beginStep app s n construct resume stack stage
  | .walk todo next stack => walkStep app s next stack todo
  | .unwind p stack => stack.unwind s p
  | .finished outcome => (s, .finished outcome)

/-- Whether the next step needs the lock. -/
def wantsLock (o : Options) : Thread v → Bool
  | .exec (.call q _) _ => q.locks o
  | .exec (.destroyAll _) _ | .exec (.hold ..) _ => true
  | .exec .. => false
  | .seek stage .. | .begin stage .. => stage = .waiting
  | .walk (.destroy _ :: _) .. | .walk (.reset :: _) .. => true
  | .walk .. | .unwind .. | .finished _ => false

/-- Whether the thread holds the lock. The lock is re-entrant: a thread never waits for itself. -/
def holdsLock : Thread v → Bool
  | .exec _ stack | .walk _ _ stack | .unwind _ stack => stack.holdsLock
  | .seek stage _ _ _ stack | .begin stage _ _ _ stack => stage = .inside || stack.holdsLock
  | .finished _ => false

end Thread

/-! ### Runs of a single thread -/

/-- At most `fuel` steps of a single thread, which never has to wait. -/
def run (app : Application v) : Nat → State v × Thread v → State v × Thread v
  | 0, c => c
  | _ + 1, (s, .finished outcome) => (s, .finished outcome)
  | fuel + 1, (s, t) => run app fuel (t.step app s)

end Wiring
