import Wiring.Proofs.Teardown.Agenda

/-!
# The hooks that a thread is in

When a teardown takes up a hook, the thread goes on with the code of the hook, and the teardown
waits for it on the stack. So the stack shows which hooks a thread is in. A step can get out of the
innermost of them, but it takes a hook on the list of a teardown to get into another.

## Main definitions

* `Wiring.Thread.hookEnd` — the hook that the next step of a thread finds at its end.
* `Wiring.Thread.running` — the components whose hooks a thread is in.
* `Wiring.Thread.Enters` — a step gets into a hook.
* `Wiring.EntersHooks` — the hooks that a run gets into.

## Main results

* `Wiring.Thread.running_step` — a step begins a hook, ends one, or stays in those that it is in.
* `Wiring.Thread.enters_step`, `Wiring.Thread.running_step_suffix` — a step that takes up a hook
  gets into it, and no other step gets into any.
* `Wiring.Thread.hooksBegun_occurrence` — a step shows the name of the hook that it takes up.
-/

namespace Wiring

variable {v : Vocabulary}

/-! ### The ends of hooks -/

/-- The hook that is at its end when the code on top of a stack is: the name of its component, and
its outcome. -/
def Stack.hookEnd : {g : Goal} → Stack v g → Except Panic (g.Result v.Inst) →
    Option (String × Except Panic (Except String Unit))
  | _, .tearing n _ _ _, o => some (n, o)
  | _, .top, _ | _, .building .., _ | _, .producing .., _ | _, .holding .., _
  | _, .guarding .., _ => none

/-- The hook that the next step of a thread finds at its end. -/
def Thread.hookEnd : Thread v → Option (String × Except Panic (Except String Unit))
  | .exec (.done a) stack => stack.hookEnd (.ok a)
  | .unwind p stack => stack.hookEnd (.error p)
  | .exec .. | .seek .. | .begin .. | .walk .. | .finished _ => none

/-! ### The hooks that a thread is in -/

/-- The components whose hooks are being run on a stack, innermost first. -/
def Stack.running : {g : Goal} → Stack v g → List String
  | _, .top => []
  | _, .tearing n _ _ rest => n :: rest.running
  | _, .building _ _ _ rest | _, .producing _ _ rest | _, .holding _ rest | _, .guarding _ rest =>
    rest.running

/-- The components whose hooks a thread is in, innermost first. -/
def Thread.running : Thread v → List String
  | .exec _ stack | .seek _ _ _ _ stack | .begin _ _ _ _ stack | .walk _ _ stack
  | .unwind _ stack => stack.running
  | .finished _ => []

namespace Thread

/-- A step begins a hook, finds one at its end and gets out of it, or stays in those that it is
in. -/
theorem running_step (app : Application v) (s : State v) (t : Thread v) :
    (t.hookEnd.map Prod.fst).toList ++ (t.step app s).2.running =
      ((t.task?.bind Task.hook?).map Prod.fst).toList ++ t.running := by
  cases t with
  | exec code stack =>
    cases code with
    | done a =>
      cases stack with
      | tearing n todo next rest => cases a <;> rfl
      | _ => rfl
    | lookup n early next =>
      simp only [step, execStep]
      split <;> rfl
    | create n c next =>
      simp only [step, execStep]
      split <;> rfl
    | _ => rfl
  | seek stage n early resume stack =>
    cases stage with
    | reading =>
      simp only [step, seekStep]
      split <;> rfl
    | waiting => rfl
    | inside =>
      simp only [step, seekStep]
      split
      · rfl
      · split <;> split <;> rfl
  | begin stage n c resume stack =>
    cases stage with
    | reading =>
      simp only [step, beginStep]
      split <;> rfl
    | waiting => rfl
    | inside =>
      simp only [step, beginStep]
      split
      · rfl
      · split
        · rfl
        · split <;> rfl
  | walk todo next stack =>
    cases todo with
    | nil => rfl
    | cons task todo => cases task <;> rfl
  | unwind p stack => cases stack <;> rfl
  | finished outcome => rfl

end Thread

/-! ### Getting into a hook -/

namespace Thread

/-- A step from `t` to `t'` gets into the hook `h` of `n`: the thread stands before the code of the
hook, a teardown waits for it, and apart from this hook the thread is in those that it was in. -/
structure Enters (app : Application v) (t t' : Thread v) (n : String) (h : v.Closure .hook) :
    Prop where
  before : ∃ (g : Goal) (todo : List (Task v)) (next : Code v (g.Result v.Inst))
    (stack : Stack v g), t' = .exec (g := .hook) (app.body h) (.tearing n todo next stack)
  running : t'.running = n :: t.running

/-- A step that takes up a hook gets into it. -/
theorem enters_step (app : Application v) (s : State v) {t : Thread v} {n : String}
    {h : v.Closure .hook} (ht : t.task? = some (.hook n h)) :
    t.Enters app (t.step app s).2 n h := by
  cases t with
  | walk todo next stack =>
    cases todo with
    | nil => cases ht
    | cons task todo =>
      cases ht
      exact ⟨⟨_, todo, next, stack, rfl⟩, rfl⟩
  | _ => cases ht

/-- A step that takes up no hook gets into none. -/
theorem running_step_suffix (app : Application v) (s : State v) {t : Thread v}
    (ht : t.task?.bind Task.hook? = none) : (t.step app s).2.running <:+ t.running :=
  ⟨(t.hookEnd.map Prod.fst).toList, by rw [running_step, ht]; rfl⟩

end Thread

/-- The hooks in `l`, in this order, and no others are those that the first `k` steps of a single
thread get into. It is read off the thread before and after each step. -/
inductive EntersHooks (app : Application v) :
    Nat → State v × Thread v → List (String × v.Closure .hook) → Prop
  | start (c : State v × Thread v) : EntersHooks app 0 c []
  | enter {k : Nat} {s : State v} {t : Thread v} {n : String} {h : v.Closure .hook}
      {l : List (String × v.Closure .hook)} (hstep : t.Enters app (t.step app s).2 n h)
      (hrest : EntersHooks app k (t.step app s) l) : EntersHooks app (k + 1) (s, t) ((n, h) :: l)
  | stay {k : Nat} {s : State v} {t : Thread v} {l : List (String × v.Closure .hook)}
      (hstep : (t.step app s).2.running <:+ t.running)
      (hrest : EntersHooks app k (t.step app s) l) : EntersHooks app (k + 1) (s, t) l

/-! ### What a step shows of hooks -/

namespace Thread

/-- A step that does not show that a hook is begun takes up none. -/
theorem hook?_of_not_begun {s : State v} {t : Thread v}
    (h : ∀ n, t.occurrence s ≠ some (.hookBegun n)) : t.task?.bind Task.hook? = none := by
  cases t with
  | walk todo next stack =>
    cases todo with
    | nil => rfl
    | cons task todo =>
      cases task with
      | hook n k => exact absurd rfl (h n)
      | _ => rfl
  | _ => rfl

/-- What a step shows of hooks is the name of the one that it takes up. -/
theorem hooksBegun_occurrence (s : State v) (t : Thread v) :
    Teardown.hooksBegun (t.occurrence s).toList =
      ((t.task?.bind Task.hook?).map Prod.fst).toList := by
  by_cases hbegun : ∃ n, t.occurrence s = some (.hookBegun n)
  · obtain ⟨n, ho⟩ := hbegun
    obtain ⟨g, hook, todo, next, stack, rfl⟩ := walk_of_hookBegun ho
    rfl
  · rw [hook?_of_not_begun (not_exists.mp hbegun)]
    cases ho : t.occurrence s with
    | none => rfl
    | some o =>
      cases o with
      | hookBegun n => exact absurd ⟨n, ho⟩ hbegun
      | _ => rfl

end Thread

end Wiring
