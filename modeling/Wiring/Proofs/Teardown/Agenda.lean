import Mathlib.Data.List.Induction
import Wiring.Proofs.Builds.Serial
import Wiring.Proofs.Teardown.Tasks

/-!
# The agenda of a thread

A thread can be in the middle of several teardowns at once, since the hook that one of them runs may
call for another. Its *agenda* lists the requests that it is in, innermost first, and for each
teardown the tasks that are left. A step takes up the first task of the innermost teardown, enters a
request, leaves one, or keeps the agenda. So nothing that a hook does removes a task of the teardown
that waits for it: before that teardown is over, every task on its list has been taken up.

## Main definitions

* `Wiring.Caller`, `Wiring.Level`, `Wiring.Thread.agenda` — the requests that a thread is in.
* `Wiring.Level.hooks` — the hooks among the tasks that are left.
* `Wiring.Thread.Moves` — what a step may do to the agenda.
* `Wiring.Ahead` — a task waits to be taken up.

## Main results

* `Wiring.Thread.moves_step` — a step does one of these things to the agenda.
* `Wiring.Ahead.step` — a task that waits still does after a step, unless the step takes it up.
* `Wiring.Pool.taken_of_ahead`, `Wiring.taken_of_ahead` — a task that waits has been taken up before
  the caller of the teardown goes on.
-/

namespace Wiring

variable {v : Vocabulary}

/-! ### Agendas -/

/-- The code that called for a teardown: how it goes on, and what waits for it in turn. -/
structure Caller (v : Vocabulary) where
  {goal : Goal}
  next : Code v (goal.Result v.Inst)
  stack : Stack v goal

/-- A request that a thread is in: a teardown with the tasks that are left, or another request. -/
inductive Level (v : Vocabulary) where
  | teardown (todo : List (Task v)) (caller : Caller v)
  | other

/-- The requests that wait on a stack, innermost first. -/
def Stack.agenda : {g : Goal} → Stack v g → List (Level v)
  | _, .top => []
  | _, .tearing _ todo next rest => .teardown todo ⟨next, rest⟩ :: rest.agenda
  | _, .building _ _ _ rest | _, .producing _ _ rest | _, .holding _ rest | _, .guarding _ rest =>
    .other :: rest.agenda

/-- The requests that a thread is in, innermost first. -/
def Thread.agenda : Thread v → List (Level v)
  | .exec _ stack | .unwind _ stack => stack.agenda
  | .seek _ _ _ _ stack | .begin _ _ _ _ stack => .other :: stack.agenda
  | .walk todo next stack => .teardown todo ⟨next, stack⟩ :: stack.agenda
  | .finished _ => []

theorem Stack.length_agenda {g : Goal} (stack : Stack v g) : stack.agenda.length = stack.depth := by
  induction stack with
  | top => rfl
  | _ => simp [agenda, depth, *]

theorem Thread.length_agenda (t : Thread v) : t.agenda.length = t.depth := by
  cases t <;> simp [agenda, depth, Stack.length_agenda]

/-! ### What a step does to the agenda -/

/-- The task that the next step of a thread takes up. -/
def Thread.task? : Thread v → Option (Task v)
  | .walk (task :: _) .. => some task
  | .walk [] .. | .exec .. | .seek .. | .begin .. | .unwind .. | .finished _ => none

/-- The hook that a task is there to run, with the name of its component. -/
def Task.hook? : Task v → Option (String × v.Closure .hook)
  | .hook n h => some (n, h)
  | .destroy _ | .parts _ | .scrub _ | .reset => none

theorem mem_filterMap_iff_of_eq_some {α β : Type} {f : α → Option β} {a : α} {b : β} {l : List α}
    (h : ∀ x, f x = some b ↔ x = a) : b ∈ l.filterMap f ↔ a ∈ l := by
  simp [List.mem_filterMap, h]

theorem mem_filterMap_hook? {l : List (Task v)} {n : String} {h : v.Closure .hook} :
    (n, h) ∈ l.filterMap Task.hook? ↔ .hook n h ∈ l :=
  mem_filterMap_iff_of_eq_some fun t => by cases t <;> simp [Task.hook?]

theorem filterMap_hook?_map_destroy (l : List String) :
    (l.map (.destroy : String → Task v)).filterMap Task.hook? = [] := by
  simp [List.filterMap_eq_nil_iff, Task.hook?]

/-- The destruction of a component is there to run the hook that is stored for it. -/
theorem filterMap_hook?_destroyTasks (r : v.Registry) (n : String) :
    (destroyTasks r n).filterMap Task.hook? = (r.hooks.find? n).toList.map (n, ·) := by
  rw [destroyTasks, List.filterMap_append, List.filterMap_append, filterMap_hook?_map_destroy]
  cases r.hooks.find? n <;> rfl

/-- A task puts the hook of at most one component in front of the others. -/
theorem nodup_hooks_subtasks (r : v.Registry) (task : Task v) :
    (((task.subtasks r).filterMap Task.hook?).map Prod.fst).Nodup := by
  cases task with
  | destroy n =>
    rw [Task.subtasks, filterMap_hook?_destroyTasks]
    cases r.hooks.find? n <;> simp
  | parts n =>
    rw [Task.subtasks, filterMap_hook?_map_destroy]
    exact List.nodup_nil
  | hook | scrub | reset => exact List.nodup_nil

/-- The hooks among the tasks that are left, the next one first. -/
def Level.hooks : Level v → List (String × v.Closure .hook)
  | .teardown todo _ => todo.filterMap Task.hook?
  | .other => []

namespace Thread

/-- What a step may do to the agenda, where `r` is the registry before the step. -/
inductive Moves (r : v.Registry) : Thread v → List (Level v) → Prop
  | keep {t : Thread v} {l : List (Level v)} (ht : t.task? = none) (hl : l = t.agenda) : Moves r t l
  | enter {t : Thread v} (level : Level v) (ht : t.task? = none) (hl : level.hooks = []) :
      Moves r t (level :: t.agenda)
  | leave {t : Thread v} {l : List (Level v)} (ht : t.task? = none) (hl : t.agenda = .other :: l) :
      Moves r t l
  | close {g : Goal} (next : Code v (g.Result v.Inst)) (stack : Stack v g) :
      Moves r (.walk [] next stack) stack.agenda
  | take {g : Goal} (task : Task v) (todo : List (Task v)) (next : Code v (g.Result v.Inst))
      (stack : Stack v g) :
      Moves r (.walk (task :: todo) next stack)
        (.teardown (task.subtasks r ++ todo) ⟨next, stack⟩ :: stack.agenda)

theorem moves_leave (s : State v) {g : Goal} (stack : Stack v g) (a : g.Result v.Inst) :
    (Thread.exec (.done a) stack).Moves s.registry (stack.leave s a).2.agenda := by
  cases stack with
  | top => exact .keep rfl rfl
  | building | producing | holding | guarding => exact .leave rfl rfl
  | tearing n todo next rest => cases a <;> exact .keep rfl rfl

theorem moves_unwind (s : State v) (p : Panic) {g : Goal} (stack : Stack v g) :
    (Thread.unwind p stack).Moves s.registry (stack.unwind s p).2.agenda := by
  cases stack with
  | top | tearing => exact .keep rfl rfl
  | building | producing | holding | guarding => exact .leave rfl rfl

theorem moves_execStep (app : Application v) (s : State v) {g : Goal} (stack : Stack v g)
    (code : Code v (g.Result v.Inst)) :
    (Thread.exec code stack).Moves s.registry (execStep app s stack code).2.agenda := by
  cases code with
  | done a => exact moves_leave s stack a
  | panic | note | access | call => exact .keep rfl rfl
  | lookup n early next =>
    simp only [execStep]
    split
    · exact .keep rfl rfl
    · exact .enter .other rfl rfl
  | create n c next =>
    simp only [execStep]
    split
    · exact .keep rfl rfl
    · exact .enter .other rfl rfl
  | destroy n next => exact .enter (.teardown _ _) rfl rfl
  | destroyAll next =>
    refine .enter (.teardown _ _) rfl ?_
    rw [Level.hooks, List.filterMap_append, filterMap_hook?_map_destroy]
    rfl
  | hold | guard => exact .enter .other rfl rfl

theorem moves_seekStep (app : Application v) (s : State v) {g : Goal} (n : String) (early : Bool)
    (resume : Option v.Inst → Code v (g.Result v.Inst)) (stack : Stack v g) (stage : Stage) :
    (Thread.seek stage n early resume stack).Moves s.registry
      (seekStep app s n early resume stack stage).2.agenda := by
  cases stage with
  | reading =>
    simp only [seekStep]
    split
    · exact .keep rfl rfl
    · exact .leave rfl rfl
  | waiting => exact .keep rfl rfl
  | inside =>
    simp only [seekStep]
    split
    · exact .leave rfl rfl
    · split <;> split
      · exact .leave rfl rfl
      · exact .leave rfl rfl
      · exact .keep rfl rfl
      · exact .leave rfl rfl
      · exact .leave rfl rfl

theorem moves_beginStep (app : Application v) (s : State v) {g : Goal} (n : String)
    (c : v.Closure .construct) (resume : Except Error v.Inst → Code v (g.Result v.Inst))
    (stack : Stack v g) (stage : Stage) :
    (Thread.begin stage n c resume stack).Moves s.registry
      (beginStep app s n c resume stack stage).2.agenda := by
  cases stage with
  | reading =>
    simp only [beginStep]
    split
    · exact .leave rfl rfl
    · exact .keep rfl rfl
  | waiting => exact .keep rfl rfl
  | inside =>
    simp only [beginStep]
    split
    · exact .leave rfl rfl
    · split
      · exact .leave rfl rfl
      · split
        · exact .leave rfl rfl
        · exact .keep rfl rfl

theorem moves_walkStep (app : Application v) (s : State v) {g : Goal} (todo : List (Task v))
    (next : Code v (g.Result v.Inst)) (stack : Stack v g) :
    (Thread.walk todo next stack).Moves s.registry (walkStep app s next stack todo).2.agenda := by
  cases todo with
  | nil => exact .close next stack
  | cons task todo => cases task <;> exact .take _ todo next stack

/-- A step takes up a task, enters or leaves a request, or keeps the agenda. -/
theorem moves_step (app : Application v) (s : State v) (t : Thread v) :
    t.Moves s.registry (t.step app s).2.agenda := by
  cases t with
  | exec code stack => exact moves_execStep app s stack code
  | seek stage n early resume stack => exact moves_seekStep app s n early resume stack stage
  | begin stage n c resume stack => exact moves_beginStep app s n c resume stack stage
  | walk todo next stack => exact moves_walkStep app s todo next stack
  | unwind p stack => exact moves_unwind s p stack
  | finished outcome => exact .keep rfl rfl

end Thread

/-! ### Tasks that wait -/

/-- On an agenda, `task` waits to be taken up. After it come the tasks in `rest`, and then the
caller of the teardown goes on. -/
def Ahead (task : Task v) (rest : List (Task v)) (caller : Caller v) (l : List (Level v)) : Prop :=
  ∃ above first, l = above ++ .teardown (first ++ task :: rest) caller :: caller.stack.agenda

namespace Ahead

variable {task : Task v} {rest : List (Task v)} {caller : Caller v} {l : List (Level v)}

theorem of_first (first : List (Task v)) :
    Ahead task rest caller (.teardown (first ++ task :: rest) caller :: caller.stack.agenda) :=
  ⟨[], first, rfl⟩

theorem cons (h : Ahead task rest caller l) (level : Level v) :
    Ahead task rest caller (level :: l) := by
  obtain ⟨above, first, rfl⟩ := h
  exact ⟨level :: above, first, rfl⟩

/-- While a task waits, the thread is deeper than the caller of the teardown was. -/
theorem lt_length (h : Ahead task rest caller l) : caller.stack.depth < l.length := by
  obtain ⟨above, first, rfl⟩ := h
  simp only [List.length_append, List.length_cons, Stack.length_agenda]
  omega

/-- The task waits further down, or in the innermost teardown. -/
theorem cons_iff {level : Level v} :
    Ahead task rest caller (level :: l) ↔
      Ahead task rest caller l ∨
        l = caller.stack.agenda ∧ ∃ first, level = .teardown (first ++ task :: rest) caller := by
  constructor
  · rintro ⟨above, first, h⟩
    cases above with
    | nil =>
      obtain ⟨rfl, rfl⟩ := List.cons.inj h
      exact .inr ⟨rfl, first, rfl⟩
    | cons level' above =>
      obtain ⟨-, rfl⟩ := List.cons.inj h
      exact .inl ⟨above, first, rfl⟩
  · rintro (h | ⟨rfl, first, rfl⟩)
    · exact h.cons level
    · exact .of_first first

/-- A task that waits still does after a step, unless the step takes it up. -/
theorem step {r : v.Registry} {t : Thread v} (h : Ahead task rest caller t.agenda)
    (hl : t.Moves r l) :
    Ahead task rest caller l ∨ t = .walk (task :: rest) caller.next caller.stack := by
  cases hl with
  | keep _ hl => exact .inl (hl ▸ h)
  | enter level => exact .inl (h.cons level)
  | leave _ hl =>
    rw [hl, cons_iff] at h
    exact .inl (h.resolve_right nofun)
  | close next stack =>
    obtain h | ⟨-, first, h⟩ := cons_iff.mp h
    · exact .inl h
    · cases first <;> cases h
  | take task' todo next stack =>
    obtain h | ⟨hbelow, first, h⟩ := cons_iff.mp h
    · exact .inl (h.cons _)
    · obtain ⟨htodo, rfl⟩ := Level.teardown.inj h
      cases first with
      | nil =>
        obtain ⟨rfl, rfl⟩ := List.cons.inj htodo
        exact .inr rfl
      | cons task'' first =>
        obtain ⟨rfl, rfl⟩ := List.cons.inj htodo
        exact .inl ⟨[], task'.subtasks r ++ first, by simp⟩

end Ahead

/-! ### Runs -/

section Runs

variable (app : Application v) {task : Task v} {rest : List (Task v)} {caller : Caller v}

namespace Pool

variable {p : Pool v} {i : Nat} {t t' : Thread v}

/-- A task that waits for thread `i` still does after the steps of a schedule, or one of them has
taken it up. -/
theorem ahead_run (ht : p.threads[i]? = some t) (h : Ahead task rest caller t.agenda)
    (schedule : List Nat) :
    (∃ t', (p.run app schedule).threads[i]? = some t' ∧ Ahead task rest caller t'.agenda) ∨
      ∃ l l', schedule = l ++ i :: l' ∧
        (p.run app l).Takes i (.walk (task :: rest) caller.next caller.stack) := by
  induction schedule using List.reverseRecOn with
  | nil => exact .inl ⟨t, ht, h⟩
  | append_singleton schedule j ih =>
    obtain ⟨t', ht', h'⟩ | ⟨l, l', rfl, htakes⟩ := ih
    · rw [run_concat]
      obtain ⟨rfl, hu⟩ | hidle := takes_or_getElem?_step app ht' j
      · -- it is the turn of the thread for which the task waits
        obtain hstays | rfl := h'.step (t'.moves_step app _)
        · exact .inl ⟨_, getElem?_step_self app hu, hstays⟩
        · exact .inr ⟨schedule, [], rfl, hu⟩
      · exact .inl ⟨t', hidle, h'⟩
    · exact .inr ⟨l, l' ++ [j], by simp, htakes⟩

/-- A task that waits for thread `i` has been taken up before the caller of the teardown goes on. -/
theorem taken_of_ahead (ht : p.threads[i]? = some t) (h : Ahead task rest caller t.agenda)
    (schedule : List Nat) (ht' : (p.run app schedule).threads[i]? = some t')
    (hover : t'.depth ≤ caller.stack.depth) :
    ∃ l l', schedule = l ++ i :: l' ∧
      (p.run app l).Takes i (.walk (task :: rest) caller.next caller.stack) := by
  refine (ahead_run app ht h schedule).resolve_left ?_
  rintro ⟨u, hu, hahead⟩
  obtain rfl : t' = u := Option.some.inj (ht'.symm.trans hu)
  have hlt := hahead.lt_length
  rw [t'.length_agenda] at hlt
  exact absurd hlt (Nat.not_lt.mpr hover)

end Pool

/-- A task that waits for a single thread has been taken up before the caller of the teardown goes
on. -/
theorem taken_of_ahead {c : State v × Thread v} (h : Ahead task rest caller c.2.agenda) {k : Nat}
    (hover : (run app k c).2.depth ≤ caller.stack.depth) :
    ∃ j < k, (run app j c).2 = .walk (task :: rest) caller.next caller.stack := by
  have hrun (m : Nat) : (⟨c.1, [c.2]⟩ : Pool v).run app (List.replicate m 0) =
      ⟨(run app m c).1, [(run app m c).2]⟩ := Pool.run_replicate app rfl rfl m
  obtain ⟨l, l', hk, ht, -⟩ := Pool.taken_of_ahead app (p := ⟨c.1, [c.2]⟩) (i := 0) rfl h
    (List.replicate k 0) (by rw [hrun]; rfl) hover
  obtain ⟨hlength, hl, -⟩ := List.append_eq_replicate_iff.mp hk.symm
  rw [hl, hrun] at ht
  exact ⟨l.length, by simp at hlength; omega, Option.some.inj ht⟩

end Runs

end Wiring
