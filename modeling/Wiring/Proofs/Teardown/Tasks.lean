import Wiring.Proofs.Occurrence

/-!
# Teardowns with quiet hooks

A teardown works on a list of tasks, the next one first. A task changes the registry, may begin a
hook, and may put further tasks in front of the others. While a hook is run the teardown waits, and
a hook that makes no request leaves the registry alone. So what such a teardown does is determined
by its tasks, whatever else its hooks do: they may write to the memory, fail, panic, catch panics,
or never come to an end.

## Main definitions

* `Wiring.Task.effect`, `Wiring.Task.subtasks`, `Wiring.Task.begins` — what a task does.
* `Wiring.Code.Quiet`, `Wiring.Application.QuietHooks` — code that makes no request.
* `Wiring.Teardown` — the two ways to call for a teardown.
* `Wiring.Teardown.Station` — where a thread may stand with a list of tasks ahead of it.
* `Wiring.Teardown.hookOrder` — the hooks that are begun in a teardown, in order.

## Main results

* `Wiring.Teardown.Station.step` — a step of a teardown takes up a task, or none at all.
* `Wiring.Teardown.hookOrder_induction` — what every task preserves holds throughout a teardown.
-/

namespace Wiring

variable {v : Vocabulary}

/-! ### Tasks -/

namespace Task

/-- What a task does to the registry. -/
def effect (r : v.Registry) : Task v → v.Registry
  | .destroy n => r.detach n
  | .hook .. => r
  | .parts n => r.detachParts n
  | .scrub n => r.scrub n
  | .reset => r.reset

/-- The tasks that a task gives rise to; they come before all others. -/
def subtasks (r : v.Registry) : Task v → List (Task v)
  | .destroy n => destroyTasks r n
  | .parts n => (r.links.partsOf n).map .destroy
  | .hook .. | .scrub _ | .reset => []

/-- The components whose hooks a task begins, at most one. -/
def begins : Task v → List String
  | .hook n _ => [n]
  | .destroy _ | .parts _ | .scrub _ | .reset => []

end Task

theorem mem_destroyTasks {r : v.Registry} {n : String} {t : Task v} :
    t ∈ destroyTasks r n ↔ (∃ d ∈ r.links.dependentsOf n, t = .destroy d) ∨
      (∃ h, r.hooks.find? n = some h ∧ t = .hook n h) ∨ t = .parts n ∨ t = .scrub n := by
  simp [destroyTasks, @eq_comm _ t]

theorem ne_reset_of_mem_destroyTasks {r : v.Registry} {n : String} {t : Task v}
    (ht : t ∈ destroyTasks r n) : t ≠ .reset := by
  obtain ⟨d, -, rfl⟩ | ⟨k, -, rfl⟩ | rfl | rfl := mem_destroyTasks.mp ht <;> simp

/-- A destruction does not give rise to a hook that is not stored. -/
theorem begins_ne_of_mem_destroyTasks {r : v.Registry} {n x : String} {t : Task v}
    (hx : r.hooks.contains x = false) (ht : t ∈ destroyTasks r n) : t.begins ≠ [x] := by
  intro htx
  obtain ⟨d, -, rfl⟩ | ⟨k, hk, rfl⟩ | rfl | rfl := mem_destroyTasks.mp ht
  · cases htx
  · obtain rfl : n = x := by simpa [Task.begins] using htx
    simp [Table.contains, hk] at hx
  · cases htx
  · cases htx

theorem parts_mem_destroyTasks {r : v.Registry} {n m : String} :
    .parts m ∈ destroyTasks r n ↔ m = n := by
  simp [mem_destroyTasks]

theorem scrub_mem_destroyTasks {r : v.Registry} {n m : String} :
    .scrub m ∈ destroyTasks r n ↔ m = n := by
  simp [mem_destroyTasks]

theorem Registry.contains_hooks_detach (r : v.Registry) (n m : String) :
    (r.detach n).hooks.contains m = (!decide (n = m) && r.hooks.contains m) :=
  Table.contains_erase r.hooks n m

/-- Among the tasks that a destruction gives rise to, only those that destroy dependents come before
the hook. -/
theorem pairwise_destroyTasks {r : v.Registry} {n : String} {P : Task v → Task v → Prop}
    (hd : ∀ d ∈ r.links.dependentsOf n, ∀ k, P (.destroy d) (.hook n k))
    (hP : ∀ t u, u.begins = [] → P t u) : (destroyTasks r n).Pairwise P := by
  rw [destroyTasks, List.append_assoc]
  refine List.pairwise_append.mpr ⟨?_, ?_, ?_⟩
  · refine List.pairwise_map.mpr (List.pairwise_of_forall fun d e => hP _ _ rfl)
  · have hlast : P (.parts n) (.scrub n) := hP _ _ rfl
    cases r.hooks.find? n with
    | none => simpa using hlast
    | some k =>
      have hparts : P (.hook n k) (.parts n) := hP _ _ rfl
      have hscrub : P (.hook n k) (.scrub n) := hP _ _ rfl
      simpa using ⟨⟨hparts, hscrub⟩, hlast⟩
  · intro t ht u hu
    obtain ⟨d, hmem, rfl⟩ := List.mem_map.mp ht
    rcases List.mem_append.mp hu with hu | hu
    · obtain ⟨k, -, rfl⟩ := List.mem_map.mp hu
      exact hd d hmem k
    · refine hP _ _ ?_
      obtain rfl | rfl : u = .parts n ∨ u = .scrub n := by simpa using hu
      · rfl
      · rfl

namespace Task

/-- No task stores a hook. -/
theorem find?_hooks_of_effect {r : v.Registry} {task : Task v} {n : String} {k : v.Closure .hook}
    (hk : (task.effect r).hooks.find? n = some k) : r.hooks.find? n = some k := by
  cases task with
  | destroy m =>
    have hfind : (r.hooks.erase m).find? n = some k := hk
    rw [Table.find?_erase] at hfind
    split at hfind
    · cases hfind
    · exact hfind
  | _ => exact hk

/-- Only a hook that is stored joins the tasks, when its component is destroyed. -/
theorem hook_mem_subtasks {r : v.Registry} {task : Task v} {n : String} {k : v.Closure .hook} :
    .hook n k ∈ task.subtasks r ↔ task = .destroy n ∧ r.hooks.find? n = some k := by
  cases task with
  | destroy m =>
    rw [subtasks, mem_destroyTasks]
    constructor
    · rintro (⟨d, -, h⟩ | ⟨j, hj, h⟩ | h | h)
      · cases h
      · cases h
        exact ⟨rfl, hj⟩
      · cases h
      · cases h
    · rintro ⟨h, hk⟩
      cases h
      exact .inr (.inl ⟨k, hk, rfl⟩)
  | _ => simp [subtasks]

theorem destroy_mem_subtasks {r : v.Registry} {task : Task v} {d : String} :
    .destroy d ∈ task.subtasks r ↔
      ∃ n, task = .destroy n ∧ d ∈ r.links.dependentsOf n ∨
        task = .parts n ∧ d ∈ r.links.partsOf n := by
  cases task <;> simp [subtasks, mem_destroyTasks]

theorem parts_mem_subtasks {r : v.Registry} {task : Task v} {n : String} :
    .parts n ∈ task.subtasks r ↔ task = .destroy n := by
  cases task <;> simp [subtasks, parts_mem_destroyTasks, eq_comm]

theorem scrub_mem_subtasks {r : v.Registry} {task : Task v} {n : String} :
    .scrub n ∈ task.subtasks r ↔ task = .destroy n := by
  cases task <;> simp [subtasks, scrub_mem_destroyTasks, eq_comm]

end Task

/-! ### Quiet code -/

/-- Code that makes no request to the registry. The blocks that it runs under guard are in `B`. -/
def Code.Quiet (B : v.Closure .block → Prop) {α : Type} : Code v α → Prop
  | .done _ | .panic _ => True
  | .note _ next => next.Quiet B
  | .access _ next => ∀ w, (next w).Quiet B
  | .guard b next => B b ∧ ∀ r, (next r).Quiet B
  | .call .. | .lookup .. | .create .. | .destroy .. | .destroyAll _ | .hold .. => False

/-- The blocks in `B` make no request to the registry, nor do the hooks that are stored. -/
structure Application.QuietHooks (app : Application v) (B : v.Closure .block → Prop)
    (r : v.Registry) : Prop where
  blocks : ∀ b, B b → (app.body b).Quiet B
  hooks : ∀ n h, r.hooks.find? n = some h → (app.body h).Quiet B

/-- The hooks that are still to be begun make no request to the registry, be they stored or among
the tasks. -/
structure Application.QuietTasks (app : Application v) (B : v.Closure .block → Prop)
    (r : v.Registry) (todo : List (Task v)) : Prop extends app.QuietHooks B r where
  tasks : ∀ n h, .hook n h ∈ todo → (app.body h).Quiet B

theorem Application.QuietTasks.step {app : Application v} {B : v.Closure .block → Prop}
    {r : v.Registry} {task : Task v} {rest : List (Task v)}
    (h : app.QuietTasks B r (task :: rest)) :
    app.QuietTasks B (task.effect r) (task.subtasks r ++ rest) := by
  refine ⟨⟨h.blocks, fun n k hk => h.hooks n k (Task.find?_hooks_of_effect hk)⟩, fun n k hk => ?_⟩
  obtain hk | hk := List.mem_append.mp hk
  · exact h.hooks n k (Task.hook_mem_subtasks.mp hk).2
  · exact h.tasks n k (List.mem_cons_of_mem _ hk)

/-! ### Teardowns -/

/-- A component and what comes with it is torn down, or the whole registry. -/
inductive Teardown where
  | one (n : String)
  | all

namespace Teardown

/-- The program that calls for a teardown and does nothing else. -/
def program : Teardown → Code v Unit
  | .one n => .destroy n (.done ())
  | .all => .destroyAll (.done ())

/-- The registry when a teardown begins its work. -/
def opened (r : v.Registry) : Teardown → v.Registry
  | .one _ => r
  | .all => r.beginTeardown

/-- The tasks that a teardown begins with. -/
def tasks (r : v.Registry) : Teardown → List (Task v)
  | .one n => [.destroy n]
  | .all => r.hooks.keys.reverse.map .destroy ++ [.reset]

/-- A hook is being run on top of a teardown, perhaps in blocks that it guards. -/
inductive InHook (B : v.Closure .block → Prop) (todo : List (Task v)) :
    {g : Goal} → Stack v g → Prop
  | tearing (n : String) : InHook B todo (.tearing (g := .main) n todo (.done ()) .top)
  | guarding {g : Goal} {resume : Except Panic (Except Error Unit) → Code v (g.Result v.Inst)}
      {rest : Stack v g} (hr : ∀ a, (resume a).Quiet B) (h : InHook B todo rest) :
      InHook B todo (.guarding resume rest)

/-- Where a thread may stand in a teardown with the tasks `todo` ahead of it: in between two tasks,
in a hook, or at the end. -/
inductive Station (B : v.Closure .block → Prop) : List (Task v) → Thread v → Prop
  | walking (todo : List (Task v)) : Station B todo (.walk (g := .main) todo (.done ()) .top)
  | running {todo : List (Task v)} {g : Goal} {code : Code v (g.Result v.Inst)} {stack : Stack v g}
      (hc : code.Quiet B) (h : InHook B todo stack) : Station B todo (.exec code stack)
  | panicking {todo : List (Task v)} {g : Goal} {stack : Stack v g} (p : Panic)
      (h : InHook B todo stack) : Station B todo (.unwind p stack)
  | ended : Station B [] (.exec (g := .main) (.done ()) .top)
  | finished : Station B [] (.finished (.ok ()))

/-- The components whose hooks are begun, among what a run shows. -/
def hooksBegun (l : List (Occurrence v)) : List String :=
  l.filterMap fun
    | .hookBegun n => some n
    | .constructBegun _ | .created .. | .found .. | .answered .. => none

theorem hooksBegun_append (l l' : List (Occurrence v)) :
    hooksBegun (l ++ l') = hooksBegun l ++ hooksBegun l' :=
  List.filterMap_append

/-- The hooks that are begun in the first `k` steps of a teardown, in order. -/
def hookOrder (app : Application v) (s : State v) (c : Teardown) (k : Nat) : List String :=
  hooksBegun (happened app k (s, .start c.program))

/-! ### Steps of a teardown -/

variable {app : Application v} {B : v.Closure .block → Prop} {s : State v} {todo : List (Task v)}

theorem leave_of_inHook {g : Goal} {stack : Stack v g} (h : InHook B todo stack)
    (a : g.Result v.Inst) :
    (stack.leave s a).1.registry = s.registry ∧ Station B todo (stack.leave s a).2 ∧
      stack.occurrence s a = none := by
  cases h with
  | tearing n => cases a <;> exact ⟨rfl, .walking todo, rfl⟩
  | guarding hr h => exact ⟨rfl, .running (hr _) h, rfl⟩

theorem unwind_of_inHook {g : Goal} {stack : Stack v g} (h : InHook B todo stack) (p : Panic) :
    (stack.unwind s p).1.registry = s.registry ∧ Station B todo (stack.unwind s p).2 := by
  cases h with
  | tearing n => exact ⟨rfl, .walking todo⟩
  | guarding hr h => exact ⟨rfl, .running (hr _) h⟩

/-- A step of a hook leaves the registry alone and begins no hook. -/
theorem exec_of_inHook (hB : ∀ b, B b → (app.body b).Quiet B) {g : Goal}
    {code : Code v (g.Result v.Inst)} {stack : Stack v g} (hc : code.Quiet B)
    (h : InHook B todo stack) :
    (execStep app s stack code).1.registry = s.registry ∧
      Station B todo (execStep app s stack code).2 ∧ execOccurrence s stack code = none := by
  cases code with
  | done a => exact leave_of_inHook h a
  | panic p => exact ⟨rfl, .panicking p h, rfl⟩
  | note x next => exact ⟨rfl, .running hc h, rfl⟩
  | access change next => exact ⟨rfl, .running (hc _) h, rfl⟩
  | guard b next => exact ⟨rfl, .running (hB b hc.1) (.guarding hc.2 h), rfl⟩
  | _ => exact hc.elim

/-- A step of a teardown takes up the next task, or leaves tasks and registry as they are. -/
theorem Station.step {t : Thread v} (ht : Station B todo t)
    (hq : app.QuietTasks B s.registry todo) :
    (∃ task rest, todo = task :: rest ∧ (t.step app s).1.registry = task.effect s.registry ∧
      hooksBegun (t.occurrence s).toList = task.begins ∧
      Station B (task.subtasks s.registry ++ rest) (t.step app s).2) ∨
    (t.step app s).1.registry = s.registry ∧ hooksBegun (t.occurrence s).toList = [] ∧
      Station B todo (t.step app s).2 := by
  cases ht with
  | walking =>
    cases todo with
    | nil => exact .inr ⟨rfl, rfl, .ended⟩
    | cons task rest =>
      refine .inl ⟨task, rest, rfl, ?_⟩
      cases task with
      | destroy n =>
        refine ⟨?_, rfl, .walking _⟩
        simp only [Thread.step, walkStep]
        split <;> rfl
      | hook n h => exact ⟨rfl, rfl, .running (hq.tasks n h List.mem_cons_self) (.tearing n)⟩
      | parts n => exact ⟨rfl, rfl, .walking _⟩
      | scrub n => exact ⟨rfl, rfl, .walking _⟩
      | reset => exact ⟨rfl, rfl, .walking _⟩
  | running hc h =>
    obtain ⟨hr, hs, ho⟩ := exec_of_inHook (s := s) hq.blocks hc h
    refine .inr ⟨hr, ?_, hs⟩
    rw [Thread.occurrence, ho]
    rfl
  | panicking p h =>
    obtain ⟨hr, hs⟩ := unwind_of_inHook (s := s) h p
    exact .inr ⟨hr, rfl, hs⟩
  | ended => exact .inr ⟨rfl, rfl, .finished⟩
  | finished => exact .inr ⟨rfl, rfl, .finished⟩

/-! ### Runs of a teardown -/

section Induction

variable {P : List String → v.Registry → List (Task v) → Prop}
  (hP : ∀ log r task rest, P log r (task :: rest) →
    P (log ++ task.begins) (task.effect r) (task.subtasks r ++ rest))

include hP

theorem happened_induction {t : Thread v} (ht : Station B todo t)
    (hq : app.QuietTasks B s.registry todo) {log : List String} (h : P log s.registry todo)
    (k : Nat) : ∃ r todo', P (log ++ hooksBegun (happened app k (s, t))) r todo' := by
  induction k generalizing s t todo log with
  | zero => exact ⟨_, _, by simpa [happened, hooksBegun] using h⟩
  | succ k ih =>
    rw [happened, hooksBegun_append, ← List.append_assoc]
    obtain ⟨task, rest, rfl, hr, ho, hs⟩ | ⟨hr, ho, hs⟩ := ht.step hq
    · rw [ho]
      refine ih hs ?_ ?_
      · exact hr ▸ hq.step
      · exact hr ▸ hP log s.registry task rest h
    · rw [ho, List.append_nil]
      exact ih hs (hr ▸ hq) (hr ▸ h)

/-- What every task preserves holds throughout a teardown with quiet hooks. -/
theorem hookOrder_induction (c : Teardown) (hq : app.QuietHooks B s.registry)
    (h : P [] (c.opened s.registry) (c.tasks s.registry)) (k : Nat) :
    ∃ r todo', P (hookOrder app s c k) r todo' := by
  cases k with
  | zero => exact ⟨_, _, h⟩
  | succ k =>
    have hstation : Station B (c.tasks s.registry) ((Thread.start c.program).step app s).2 := by
      cases c <;> exact .walking _
    have hopened : ((Thread.start c.program).step app s).1.registry = c.opened s.registry := by
      cases c <;> rfl
    have hlog : hookOrder app s c (k + 1) =
        [] ++ hooksBegun (happened app k ((Thread.start c.program).step app s)) := by
      cases c <;> rfl
    rw [hlog]
    refine happened_induction hP hstation ?_ (hopened ▸ h) k
    cases c with
    | one n => exact ⟨hq, by simp [tasks]⟩
    | all => exact ⟨⟨hq.blocks, hq.hooks⟩, by simp [tasks]⟩

end Induction

end Teardown

end Wiring
