import Wiring.Proofs.Builds.Change
import Wiring.Proofs.Teardown.Tasks

/-!
# What alters a registry for good

Building changes the instances, the marks and the errors set aside. Everything else in a registry is
altered only by requests that are answered at once and by teardowns: the hooks by a request that
stores one, by a request that clears the registry, and by the destruction of a component; the flag
that a teardown is under way by its begin and its end, and again by clearing. The options never
change.

## Main definitions

* `Wiring.Registry.SameRest` — two registries with the same options, hooks and flag.
* `Wiring.Request.Alters`, `Wiring.Thread.Alters` — what a request and what a step may do to a
  registry.

## Main results

* `Wiring.Request.alters_answer`, `Wiring.Thread.alters_step` — every request and every step does
  one of these things.
* `Wiring.Thread.options_step` — the options stay.
-/

namespace Wiring

variable {v : Vocabulary}

/-- The registry `r'` has the options and the hooks of `r`, and a teardown is under way in both or
in neither. -/
structure Registry.SameRest (r r' : v.Registry) : Prop where
  options : r'.options = r.options
  hooks : r'.hooks = r.hooks
  tearingDown : r'.tearingDown = r.tearingDown

/-! ### Requests that are answered at once -/

namespace Request

/-- What a request does to the registry `r`, apart from instances, marks, records and the errors set
aside. -/
inductive Alters (r : v.Registry) : Request v → v.Registry → Prop
  | storeHook (n : String) (h : v.Closure .hook) :
      Alters r (.storeHook n h) { r with hooks := r.hooks.insert n h }
  | clearAll : Alters r .clearAll r.clearAll
  | other {q : Request v} {r' : v.Registry} (hstore : ∀ n h, q ≠ .storeHook n h)
      (hclear : q ≠ .clearAll) (hsame : r.SameRest r') : Alters r q r'

theorem alters_answer (r : v.Registry) (q : Request v) : Alters r q (q.answer r).registry := by
  cases q with
  | register n i =>
    obtain ⟨store, h⟩ := r.registry_register n i
    rw [answer, h]
    exact .other (by simp) (by simp) ⟨rfl, rfl, rfl⟩
  | publish n p =>
    obtain ⟨store, h⟩ := r.registry_publish n p
    rw [answer, h]
    exact .other (by simp) (by simp) ⟨rfl, rfl, rfl⟩
  | depend a b =>
    obtain ⟨links, h⟩ := r.registry_depend a b
    rw [answer, h]
    exact .other (by simp) (by simp) ⟨rfl, rfl, rfl⟩
  | contain a b =>
    obtain ⟨links, h⟩ := r.registry_contain a b
    rw [answer, h]
    exact .other (by simp) (by simp) ⟨rfl, rfl, rfl⟩
  | storeHook n h => exact .storeHook n h
  | clearAll => exact .clearAll
  | _ => exact .other (by simp) (by simp) ⟨rfl, rfl, rfl⟩

end Request

/-! ### Steps -/

namespace Thread

/-- The next step makes no request that is answered at once, and it neither begins a teardown of the
whole registry nor takes up a task. -/
def Plain : Thread v → Prop
  | .exec (.call ..) _ | .exec (.destroyAll _) _ | .walk (_ :: _) .. => False
  | .exec .. | .seek .. | .begin .. | .walk [] .. | .unwind .. | .finished _ => True

/-- What a step does to the registry `r`. -/
inductive Alters (r : v.Registry) : Thread v → v.Registry → Prop
  | call {g : Goal} (q : Request v) (next : q.Reply → Code v (g.Result v.Inst))
      (stack : Stack v g) : Alters r (.exec (.call q next) stack) (q.answer r).registry
  | destroyAll {g : Goal} (next : Code v (g.Result v.Inst)) (stack : Stack v g) :
      Alters r (.exec (.destroyAll next) stack) r.beginTeardown
  | task {g : Goal} (task : Task v) (todo : List (Task v)) (next : Code v (g.Result v.Inst))
      (stack : Stack v g) : Alters r (.walk (task :: todo) next stack) (task.effect r)
  | plain {t : Thread v} {r' : v.Registry} (ht : t.Plain) (hsame : r.SameRest r') : Alters r t r'

theorem alters_leave (s : State v) {g : Goal} (stack : Stack v g) (a : g.Result v.Inst) :
    Alters s.registry (.exec (.done a) stack) (stack.leave s a).1.registry := by
  cases stack with
  | building n outermost resume rest =>
    obtain ⟨store, h⟩ := s.registry.registry_settle n outermost a
    rw [Stack.leave, State.registry_after, h]
    exact .plain trivial ⟨rfl, rfl, rfl⟩
  | tearing n todo next rest => cases a <;> exact .plain trivial ⟨rfl, rfl, rfl⟩
  | _ => exact .plain trivial ⟨rfl, rfl, rfl⟩

theorem alters_seekStep (app : Application v) (s : State v) {g : Goal} (n : String) (early : Bool)
    (resume : Option v.Inst → Code v (g.Result v.Inst)) (stack : Stack v g) (stage : Stage) :
    Alters s.registry (.seek stage n early resume stack)
      (seekStep app s n early resume stack stage).1.registry := by
  cases stage with
  | reading =>
    simp only [seekStep]
    split <;> exact .plain trivial ⟨rfl, rfl, rfl⟩
  | waiting => exact .plain trivial ⟨rfl, rfl, rfl⟩
  | inside =>
    simp only [seekStep]
    split
    · exact .plain trivial ⟨rfl, rfl, rfl⟩
    · split <;> split <;> exact .plain trivial ⟨rfl, rfl, rfl⟩

theorem alters_beginStep (app : Application v) (s : State v) {g : Goal} (n : String)
    (c : v.Closure .construct) (resume : Except Error v.Inst → Code v (g.Result v.Inst))
    (stack : Stack v g) (stage : Stage) :
    Alters s.registry (.begin stage n c resume stack)
      (beginStep app s n c resume stack stage).1.registry := by
  cases stage with
  | reading =>
    simp only [beginStep]
    split <;> exact .plain trivial ⟨rfl, rfl, rfl⟩
  | waiting => exact .plain trivial ⟨rfl, rfl, rfl⟩
  | inside =>
    simp only [beginStep]
    split
    · exact .plain trivial ⟨rfl, rfl, rfl⟩
    · split
      · exact .plain trivial ⟨rfl, rfl, rfl⟩
      · split
        · exact .plain trivial ⟨rfl, rfl, rfl⟩
        · next r hr =>
          obtain ⟨m, -, rfl⟩ := Registry.openBuild_eq_ok hr
          exact .plain trivial ⟨rfl, rfl, rfl⟩

theorem alters_walkStep (app : Application v) (s : State v) {g : Goal} (todo : List (Task v))
    (next : Code v (g.Result v.Inst)) (stack : Stack v g) :
    Alters s.registry (.walk todo next stack) (walkStep app s next stack todo).1.registry := by
  cases todo with
  | nil => exact .plain trivial ⟨rfl, rfl, rfl⟩
  | cons task todo =>
    have heffect : (walkStep app s next stack (task :: todo)).1.registry =
        task.effect s.registry := by
      cases task with
      | destroy n =>
        simp only [walkStep]
        split <;> rfl
      | _ => rfl
    rw [heffect]
    exact .task task todo next stack

/-- Every step does one of these things. -/
theorem alters_step (app : Application v) (s : State v) (t : Thread v) :
    Alters s.registry t (t.step app s).1.registry := by
  cases t with
  | exec code stack =>
    cases code with
    | done a => exact alters_leave s stack a
    | call q next =>
      rw [step, execStep, State.registry_after]
      exact .call q next stack
    | lookup n early next =>
      simp only [step, execStep]
      split <;> exact .plain trivial ⟨rfl, rfl, rfl⟩
    | create n c next =>
      simp only [step, execStep]
      split <;> exact .plain trivial ⟨rfl, rfl, rfl⟩
    | destroyAll next => exact .destroyAll next stack
    | _ => exact .plain trivial ⟨rfl, rfl, rfl⟩
  | seek stage n early resume stack => exact alters_seekStep app s n early resume stack stage
  | begin stage n c resume stack => exact alters_beginStep app s n c resume stack stage
  | walk todo next stack => exact alters_walkStep app s todo next stack
  | unwind p stack => cases stack <;> exact .plain trivial ⟨rfl, rfl, rfl⟩
  | finished outcome => exact .plain trivial ⟨rfl, rfl, rfl⟩

/-- The options stay. -/
theorem options_step (app : Application v) (s : State v) (t : Thread v) :
    (t.step app s).1.registry.options = s.registry.options := by
  have halters := t.alters_step app s
  generalize (t.step app s).1.registry = r at halters ⊢
  cases halters with
  | call q next stack =>
    have hanswer := q.alters_answer s.registry
    generalize (q.answer s.registry).registry = r at hanswer ⊢
    cases hanswer with
    | storeHook | clearAll => rfl
    | other _ _ hsame => exact hsame.options
  | destroyAll next stack => rfl
  | task task todo next stack => cases task <;> rfl
  | plain _ hsame => exact hsame.options

end Thread

end Wiring
