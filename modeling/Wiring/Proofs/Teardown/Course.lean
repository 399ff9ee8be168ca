import Mathlib.Algebra.GroupWithZero.Nat
import Wiring.Proofs.Sample
import Wiring.Proofs.Teardown.Running

/-!
# The course of a teardown

A teardown whose hooks make no request is on its own with the registry: which tasks it takes up, and
in which order, follows from the registry and the tasks that it begins with. This is its *course*.
It is finite, since a task that puts others in front of the rest takes out as many records, and so
is every run of the teardown, provided that its hooks come to an end.

## Main definitions

* `Wiring.Links.recorded` — the number of records.
* `Wiring.Teardown.course` — the tasks that are taken up, in order.
* `Wiring.Teardown.effects` — the registry after the tasks of a list.
* `Wiring.Code.Concludes`, `Wiring.Application.Discreet` — code that makes no request and comes to
  an end.
* `Wiring.tasksTaken`, `Wiring.hooksRun` — the tasks that are taken up and the hooks that are begun
  in the first steps of a run.

## Main results

* `Wiring.Teardown.course_append` — what stands further back on the list is taken up later.
* `Wiring.Teardown.course_induction` — what every task preserves holds at the end of the course.
* `Wiring.entersHooks_hooksRun` — what is begun on the way is what the thread gets into.
* `Wiring.Teardown.ends_of_discreet` — a teardown with discreet hooks takes its course and ends.
-/

namespace Wiring

variable {v : Vocabulary}

/-! ### The number of records -/

namespace Links

/-- The number of names that are listed in a table. -/
def recordsIn (t : Table String Names) : Nat := (t.values.map Names.size).sum

theorem recordsIn_eq_add (t : Table String Names) (k : String) :
    recordsIn t = (namesAt t k).size + recordsIn (t.erase k) := by
  have hperm := ((t.values_perm k).map Names.size).sum_nat
  rw [List.map_append, List.sum_append] at hperm
  rw [recordsIn, hperm, namesAt]
  cases t.find? k <;> rfl

theorem recordsIn_unlink_le (t : Table String Names) (key name : String) :
    recordsIn (unlink t key name) ≤ recordsIn t := by
  have herase := recordsIn_eq_add t key
  unfold unlink
  cases hs : t.find? key with
  | none => exact Nat.le_refl _
  | some s =>
    have hsize : (s.erase name).size ≤ (namesAt t key).size := by
      rw [namesAt, hs]
      exact List.length_filter_le ..
    simp only
    split
    · omega
    · have hinsert := ((t.values_insert_perm key (s.erase name)).map Names.size).sum_nat
      rw [List.map_cons, List.sum_cons] at hinsert
      change recordsIn (t.insert key (s.erase name)) = _ + recordsIn (t.erase key) at hinsert
      omega

theorem recordsIn_unlinkAll_le (t : Table String Names) (keys : List String) (name : String) :
    recordsIn (unlinkAll t keys name) ≤ recordsIn t := by
  induction keys generalizing t with
  | nil => exact Nat.le_refl _
  | cons key keys ih => exact Nat.le_trans (ih _) (recordsIn_unlink_le t key name)

/-- The number of recorded dependencies and containments. -/
def recorded (g : Links) : Nat := recordsIn g.dependents + recordsIn g.parts

theorem recorded_takeDependents (g : Links) (n : String) :
    g.recorded = (g.dependentsOf n).length + (g.takeDependents n).2.recorded := by
  rw [recorded, recordsIn_eq_add g.dependents n, Nat.add_assoc]
  rfl

theorem recorded_takeParts (g : Links) (n : String) :
    g.recorded = (g.partsOf n).length + (g.takeParts n).2.recorded := by
  rw [recorded, recordsIn_eq_add g.parts n, Nat.add_left_comm]
  rfl

theorem recorded_scrub_le (g : Links) (n : String) : (g.scrub n).recorded ≤ g.recorded := by
  have htaken := g.recorded_takeDependents n
  have hunlink := recordsIn_unlinkAll_le (g.takeDependents n).2.dependents
    ((g.takeDependents n).2.dependenciesOf n) n
  have hscrub : (g.scrub n).recorded ≤ (g.takeDependents n).2.recorded :=
    Nat.add_le_add_right hunlink _
  omega

end Links

/-! ### The course -/

namespace Teardown

/-- What a task weighs: a destruction weighs as much as all the tasks of its own that it may put in
front of the others. -/
def weight : Task v → Nat
  | .destroy _ => 4
  | .hook .. | .parts _ | .scrub _ | .reset => 1

/-- What a teardown has left to do, with each record weighed as the destruction that it may bring
about. -/
def load (r : v.Registry) (todo : List (Task v)) : Nat :=
  4 * r.links.recorded + (todo.map weight).sum

theorem sum_weight_destroy (l : List String) :
    ((l.map (.destroy : String → Task v)).map weight).sum = 4 * l.length := by
  induction l with
  | nil => rfl
  | cons n l ih =>
    rw [List.map_cons, List.map_cons, List.sum_cons, ih, weight, List.length_cons]
    omega

theorem sum_weight_destroyTasks_le (r : v.Registry) (n : String) :
    ((destroyTasks r n).map weight).sum ≤ 4 * (r.links.dependentsOf n).length + 3 := by
  rw [destroyTasks, List.map_append, List.map_append, List.sum_append, List.sum_append,
    sum_weight_destroy]
  cases r.hooks.find? n <;> simp [weight]

/-- Every task takes off some of the load. -/
theorem load_lt (r : v.Registry) (task : Task v) (rest : List (Task v)) :
    load (task.effect r) (task.subtasks r ++ rest) < load r (task :: rest) := by
  rw [load, load, List.map_append, List.sum_append, List.map_cons, List.sum_cons]
  cases task with
  | destroy n =>
    have hweight := sum_weight_destroyTasks_le r n
    have hrecorded := r.links.recorded_takeDependents n
    simp only [Task.effect, Task.subtasks, Registry.detach, weight]
    omega
  | hook n k => simp [Task.effect, Task.subtasks, weight]
  | parts n =>
    have hrecorded := r.links.recorded_takeParts n
    simp only [Task.effect, Task.subtasks, Registry.detachParts, weight, sum_weight_destroy]
    omega
  | scrub n =>
    have hrecorded := r.links.recorded_scrub_le n
    simp only [Task.effect, Task.subtasks, Registry.scrub, weight, List.map_nil, List.sum_nil]
    omega
  | reset =>
    have hrecorded : Links.empty.recorded = 0 := rfl
    simp only [Task.effect, Task.subtasks, Registry.reset, Links.clear, weight, List.map_nil,
      List.sum_nil]
    omega

/-- The tasks that a teardown takes up in order, if its hooks leave the registry alone. -/
def course (r : v.Registry) : List (Task v) → List (Task v)
  | [] => []
  | task :: rest => task :: course (task.effect r) (task.subtasks r ++ rest)
termination_by todo => load r todo
decreasing_by exact load_lt r task rest

/-- The registry after the tasks of a list. -/
def effects (r : v.Registry) (l : List (Task v)) : v.Registry := l.foldl (fun r t => t.effect r) r

@[simp] theorem course_nil (r : v.Registry) : course r [] = [] := by rw [course]

theorem course_cons (r : v.Registry) (task : Task v) (rest : List (Task v)) :
    course r (task :: rest) = task :: course (task.effect r) (task.subtasks r ++ rest) := by
  rw [course]

@[simp] theorem effects_nil (r : v.Registry) : effects r [] = r := rfl

@[simp] theorem effects_cons (r : v.Registry) (task : Task v) (l : List (Task v)) :
    effects r (task :: l) = effects (task.effect r) l := rfl

theorem effects_append (r : v.Registry) (l l' : List (Task v)) :
    effects r (l ++ l') = effects (effects r l) l' :=
  List.foldl_append

/-- What stands further back on the list is taken up when everything before it is done. -/
theorem course_append (r : v.Registry) (l l' : List (Task v)) :
    course r (l ++ l') = course r l ++ course (effects r (course r l)) l' := by
  induction r, l using course.induct with
  | case1 r => simp
  | case2 r task rest ih =>
    rw [List.cons_append, course_cons, course_cons, ← List.append_assoc, ih, List.cons_append,
      effects_cons]

/-- What every task preserves, of the tasks that are done, the registry and the tasks that are left,
holds when none is left. -/
theorem course_induction {P : List (Task v) → v.Registry → List (Task v) → Prop}
    (hP : ∀ past r task rest, P past r (task :: rest) →
      P (past ++ [task]) (task.effect r) (task.subtasks r ++ rest))
    {past : List (Task v)} {r : v.Registry} {todo : List (Task v)} (h : P past r todo) :
    P (past ++ course r todo) (effects r (course r todo)) [] := by
  induction r, todo using course.induct generalizing past with
  | case1 r => simpa using h
  | case2 r task rest ih =>
    have hrest := ih (hP past r task rest h)
    rwa [course_cons, effects_cons, List.append_cons]

/-- Only hooks that are stored, or that wait already, are among the tasks that are taken up. -/
theorem of_hook_mem_course {r : v.Registry} {todo : List (Task v)} {n : String}
    {h : v.Closure .hook} (hmem : .hook n h ∈ course r todo) :
    .hook n h ∈ todo ∨ r.hooks.find? n = some h := by
  induction r, todo using course.induct with
  | case1 r => simp at hmem
  | case2 r task rest ih =>
    rw [course_cons, List.mem_cons] at hmem
    obtain rfl | hmem := hmem
    · exact .inl List.mem_cons_self
    · obtain hleft | hstored := ih hmem
      · refine (List.mem_append.mp hleft).symm.imp (List.mem_cons_of_mem _) fun hsub => ?_
        exact (Task.hook_mem_subtasks.mp hsub).2
      · exact .inr (Task.find?_hooks_of_effect hstored)

end Teardown

/-! ### Discreet hooks -/

/-- Code makes no request to the registry and comes to its end: run in the memory `w`, it returns or
panics, and leaves the memory `w'`. -/
inductive Code.Concludes (app : Application v) :
    {g : Goal} → v.World → Code v (g.Result v.Inst) → Except Panic (g.Result v.Inst) →
      v.World → Prop
  | done {g : Goal} {w : v.World} (a : g.Result v.Inst) : Concludes app w (.done a) (.ok a) w
  | panic {g : Goal} {w : v.World} (p : Panic) : Concludes (g := g) app w (.panic p) (.error p) w
  | note {g : Goal} {w w' : v.World} (x : v.Note) {next : Code v (g.Result v.Inst)}
      {o : Except Panic (g.Result v.Inst)} (h : Concludes app w next o w') :
      Concludes app w (.note x next) o w'
  | access {g : Goal} {w w' : v.World} (change : v.World → v.World)
      {next : v.World → Code v (g.Result v.Inst)} {o : Except Panic (g.Result v.Inst)}
      (h : Concludes app (change w) (next w) o w') : Concludes app w (.access change next) o w'
  | guard {g : Goal} {w w₁ w' : v.World} {b : v.Closure .block}
      {next : Except Panic (Except Error Unit) → Code v (g.Result v.Inst)}
      {o₁ : Except Panic (Goal.block.Result v.Inst)} {o : Except Panic (g.Result v.Inst)}
      (hb : Concludes (g := .block) app w (app.body b) o₁ w₁)
      (h : Concludes app w₁ (next o₁) o w') : Concludes app w (.guard b next) o w'

/-- A hook makes no request to the registry and comes to its end, whatever the memory. -/
def Application.Discreet (app : Application v) (h : v.Closure .hook) : Prop :=
  ∀ w, ∃ o w', Code.Concludes (g := .hook) app w (app.body h) o w'

/-- Quiet code that guards no block comes to its end. -/
theorem Code.Quiet.concludes (app : Application v) {g : Goal} {code : Code v (g.Result v.Inst)}
    (h : code.Quiet fun _ => False) (w : v.World) : ∃ o w', code.Concludes app w o w' := by
  induction code generalizing w with
  | done a => exact ⟨_, w, .done a⟩
  | panic p => exact ⟨_, w, .panic p⟩
  | note x next ih =>
    obtain ⟨o, w', hnext⟩ := ih h w
    exact ⟨o, w', .note x hnext⟩
  | access change next ih =>
    obtain ⟨o, w', hnext⟩ := ih w (h w) (change w)
    exact ⟨o, w', .access change hnext⟩
  | guard b next => exact h.1.elim
  | call | lookup | create | destroy | destroyAll | hold => exact h.elim

theorem Sample.discreet_idle (h : Sample.vocabulary.Closure .hook) : Sample.idle.Discreet h :=
  Code.Quiet.concludes Sample.idle trivial

/-! ### Working off tasks -/

/-- The tasks that a single thread takes up in its first `k` steps, in order. -/
def tasksTaken (app : Application v) : Nat → State v × Thread v → List (Task v)
  | 0, _ => []
  | k + 1, (s, t) => t.task?.toList ++ tasksTaken app k (t.step app s)

/-- The hooks that a single thread begins in its first `k` steps, in order, with the names of their
components. -/
def hooksRun (app : Application v) (k : Nat) (c : State v × Thread v) :
    List (String × v.Closure .hook) :=
  (tasksTaken app k c).filterMap Task.hook?

/-- The hooks that a run begins are those that it gets into. -/
theorem entersHooks_hooksRun (app : Application v) (k : Nat) (c : State v × Thread v) :
    EntersHooks app k c (hooksRun app k c) := by
  induction k generalizing c with
  | zero => exact .start c
  | succ k ih =>
    obtain ⟨s, t⟩ := c
    have hrest := ih (t.step app s)
    rw [hooksRun, tasksTaken, List.filterMap_append]
    cases htask : t.task? with
    | none => exact .stay (t.running_step_suffix app s (by rw [htask]; rfl)) hrest
    | some task =>
      cases task with
      | hook n h => exact .enter (t.enters_step app s htask) hrest
      | _ => exact .stay (t.running_step_suffix app s (by rw [htask]; rfl)) hrest

/-- What a run shows of hooks is the names of those that it begins. -/
theorem map_fst_hooksRun (app : Application v) (k : Nat) (c : State v × Thread v) :
    (hooksRun app k c).map Prod.fst = Teardown.hooksBegun (happened app k c) := by
  induction k generalizing c with
  | zero => rfl
  | succ k ih =>
    obtain ⟨s, t⟩ := c
    have hnames : ((t.task?.toList.filterMap Task.hook?).map Prod.fst) =
        Teardown.hooksBegun (t.occurrence s).toList := by
      rw [t.hooksBegun_occurrence s]
      cases t.task? with
      | none => rfl
      | some task => cases task <;> rfl
    rw [hooksRun, tasksTaken, List.filterMap_append, List.map_append, hnames, happened,
      Teardown.hooksBegun_append]
    exact congrArg _ (ih (t.step app s))

/-- A single thread gets from one place to another, takes up the tasks in `l` on the way, and is
deeper than `d` until it gets there. -/
def Works (app : Application v) (d : Nat) (c : State v × Thread v) (l : List (Task v))
    (c' : State v × Thread v) : Prop :=
  ∃ k, run app k c = c' ∧ tasksTaken app k c = l ∧ ∀ j < k, d < (run app j c).2.depth

namespace Works

variable {app : Application v} {d : Nat} {c c' c'' : State v × Thread v} {l l' : List (Task v)}

theorem refl (c : State v × Thread v) : Works app d c [] c :=
  ⟨0, rfl, rfl, fun _ hj => absurd hj (Nat.not_lt_zero _)⟩

theorem head {s : State v} {t : Thread v} (h : Works app d (t.step app s) l c')
    (hd : d < t.depth) : Works app d (s, t) (t.task?.toList ++ l) c' := by
  obtain ⟨k, hr, hl, hdeep⟩ := h
  refine ⟨k + 1, by rw [run_succ, hr], by rw [tasksTaken, hl], fun j hj => ?_⟩
  cases j with
  | zero => exact hd
  | succ j =>
    rw [run_succ]
    exact hdeep j (Nat.lt_of_succ_lt_succ hj)

theorem trans (h : Works app d c l c') (h' : Works app d c' l' c'') :
    Works app d c (l ++ l') c'' := by
  obtain ⟨k, hr, hl, hdeep⟩ := h
  induction k generalizing c l with
  | zero =>
    obtain rfl : c = c' := hr
    obtain rfl : [] = l := hl
    exact h'
  | succ k ih =>
    obtain ⟨s, t⟩ := c
    obtain rfl : t.task?.toList ++ tasksTaken app k (t.step app s) = l := hl
    rw [List.append_assoc]
    refine head (ih (run_succ app k s t ▸ hr) rfl fun j hj => ?_) (hdeep 0 (Nat.succ_pos k))
    rw [← run_succ]
    exact hdeep (j + 1) (Nat.succ_lt_succ hj)

end Works

/-- Where a thread stands when the code on top of a stack has come to its end. -/
def Stack.concluded {g : Goal} (stack : Stack v g) : Except Panic (g.Result v.Inst) → Thread v
  | .ok a => .exec (.done a) stack
  | .error p => .unwind p stack

/-- Code that makes no request leaves the registry alone and takes up no task. -/
theorem Code.Concludes.works {app : Application v} {d : Nat} {g : Goal} {w w' : v.World}
    {code : Code v (g.Result v.Inst)} {o : Except Panic (g.Result v.Inst)}
    (h : code.Concludes app w o w') (stack : Stack v g) (hd : d < stack.depth) {s : State v}
    (hs : s.world = w) :
    ∃ s', s'.registry = s.registry ∧ s'.world = w' ∧
      Works app d (s, .exec code stack) [] (s', stack.concluded o) := by
  induction h generalizing s with
  | done a => exact ⟨s, rfl, hs, .refl _⟩
  | panic p => exact ⟨s, rfl, hs, .head (.refl _) hd⟩
  | note x _ ih =>
    obtain ⟨s', hr, hw, hworks⟩ := ih stack hd (s := s.write stack.depth (.note x)) hs
    exact ⟨s', hr, hw, .head hworks hd⟩
  | access change _ ih =>
    subst hs
    obtain ⟨s', hr, hw, hworks⟩ := ih stack hd (s := { s with world := change s.world }) rfl
    exact ⟨s', hr, hw, .head hworks hd⟩
  | @guard g _ _ _ b next o₁ o _ _ ihb ih =>
    obtain ⟨s₁, hr₁, hw₁, hworks₁⟩ := ihb (.guarding next stack) (Nat.lt_succ_of_lt hd) hs
    obtain ⟨s', hr, hw, hworks⟩ := ih stack hd hw₁
    refine ⟨s', hr.trans hr₁, hw, .head (.trans hworks₁ ?_) hd⟩
    cases o₁ <;> exact .head hworks (Nat.lt_succ_of_lt hd)

namespace Teardown

variable {app : Application v}

/-- Once a discreet hook has been begun, the teardown goes on with the tasks that are left. -/
theorem works_hook {h : v.Closure .hook} (hh : app.Discreet h) (n : String) (todo : List (Task v))
    {g : Goal} (next : Code v (g.Result v.Inst)) (stack : Stack v g) (s : State v) :
    ∃ s', s'.registry = s.registry ∧
      Works app stack.depth (s, .exec (app.body h) (.tearing n todo next stack)) []
        (s', .walk todo next stack) := by
  have hd : stack.depth < (Stack.tearing n todo next stack).depth := Nat.lt_succ_self _
  obtain ⟨o, w', hconcludes⟩ := hh s.world
  obtain ⟨s', hr, -, hworks⟩ := hconcludes.works _ hd rfl
  cases o with
  | ok a =>
    cases a with
    | ok u => exact ⟨s'.report stack.depth (.hookRan n), hr, hworks.trans (.head (.refl _) hd)⟩
    | error reason =>
      exact ⟨s'.report stack.depth (.hookFailed n reason), hr, hworks.trans (.head (.refl _) hd)⟩
  | error p =>
    exact ⟨s'.report stack.depth (.hookFailed n p.reason), hr, hworks.trans (.head (.refl _) hd)⟩

/-- A teardown takes its course if the hooks that are on it are discreet. -/
theorem works_walk {s : State v} {todo : List (Task v)}
    (hd : ∀ n h, .hook n h ∈ course s.registry todo → app.Discreet h) {g : Goal}
    (next : Code v (g.Result v.Inst)) (stack : Stack v g) :
    ∃ s', s'.registry = effects s.registry (course s.registry todo) ∧
      Works app stack.depth (s, .walk todo next stack) (course s.registry todo)
        (s', .exec next stack) := by
  have hdeep (l : List (Task v)) : stack.depth < (Thread.walk l next stack).depth :=
    Nat.lt_succ_self _
  generalize hr : s.registry = r at hd
  induction r, todo using course.induct generalizing s with
  | case1 r =>
    refine ⟨s, by simp [hr], ?_⟩
    rw [course_nil]
    exact .head (.refl _) (hdeep [])
  | case2 r task rest ih =>
    rw [course_cons] at hd ⊢
    -- from wherever the step leads, the rest of the course is taken
    have hrest (s₁ : State v) (hs₁ : s₁.registry = task.effect r) :=
      ih hs₁ fun n h hmem => hd n h (List.mem_cons_of_mem _ hmem)
    subst hr
    cases task with
    | hook n h =>
      obtain ⟨s₁, hr₁, hworks₁⟩ := works_hook (hd n h List.mem_cons_self) n rest next stack s
      obtain ⟨s', hr', hworks'⟩ := hrest s₁ hr₁
      exact ⟨s', hr', .head (hworks₁.trans hworks') (hdeep _)⟩
    | destroy n =>
      obtain ⟨s', hr', hworks'⟩ := hrest (walkStep app s next stack (.destroy n :: rest)).1
        (by simp only [walkStep]; split <;> rfl)
      exact ⟨s', hr', .head hworks' (hdeep _)⟩
    | parts n =>
      obtain ⟨s', hr', hworks'⟩ := hrest (s.withRegistry (s.registry.detachParts n)) rfl
      exact ⟨s', hr', .head hworks' (hdeep _)⟩
    | scrub n =>
      obtain ⟨s', hr', hworks'⟩ := hrest (s.withRegistry (s.registry.scrub n)) rfl
      exact ⟨s', hr', .head hworks' (hdeep _)⟩
    | reset =>
      obtain ⟨s', hr', hworks'⟩ := hrest (s.withRegistry s.registry.reset) rfl
      exact ⟨s', hr', .head hworks' (hdeep _)⟩

/-- The code that calls for a teardown and then goes on. -/
def calling {α : Type} (next : Code v α) : Teardown → Code v α
  | .one n => .destroy n next
  | .all => .destroyAll next

/-- The course of a teardown that is called for. -/
def courseOf (r : v.Registry) (c : Teardown) : List (Task v) := course (c.opened r) (c.tasks r)

/-- A teardown takes its course and ends if the hooks that are stored are discreet. Then the code
that called for it goes on. -/
theorem ends_of_discreet {s : State v}
    (hd : ∀ n h, s.registry.hooks.find? n = some h → app.Discreet h) (c : Teardown) {g : Goal}
    (next : Code v (g.Result v.Inst)) (stack : Stack v g) :
    ∃ k s', EndsAfter app (s, .exec (c.calling next) stack) k ∧
      run app k (s, .exec (c.calling next) stack) = (s', .exec next stack) ∧
      tasksTaken app k (s, .exec (c.calling next) stack) = c.courseOf s.registry ∧
      s'.registry = effects (c.opened s.registry) (c.courseOf s.registry) := by
  have hcourse : ∀ n h, .hook n h ∈ c.courseOf s.registry → app.Discreet h := by
    intro n h hmem
    obtain hmem | hstored := of_hook_mem_course hmem
    · cases c <;> simp [tasks] at hmem
    · cases c <;> exact hd n h hstored
  obtain ⟨s₁, hstep, hs₁⟩ : ∃ s₁,
      Thread.step app s (.exec (c.calling next) stack) =
        (s₁, .walk (c.tasks s.registry) next stack) ∧ s₁.registry = c.opened s.registry := by
    cases c <;> exact ⟨_, rfl, rfl⟩
  rw [courseOf, ← hs₁] at hcourse
  obtain ⟨s', hr', k, hrun, htaken, hdeep⟩ := works_walk hcourse next stack
  have hend : run app (k + 1) (s, .exec (c.calling next) stack) = (s', .exec next stack) := by
    rw [run_succ, hstep, hrun]
  have hnone : (Thread.exec (c.calling next) stack).task? = none := rfl
  refine ⟨k + 1, s', ⟨Nat.succ_pos k, ?_, fun j hpos hj => ?_⟩, hend, ?_, ?_⟩
  · rw [hend]
    exact Nat.le_refl _
  · obtain ⟨j, rfl⟩ := Nat.exists_eq_add_one_of_ne_zero (Nat.pos_iff_ne_zero.mp hpos)
    rw [run_succ, hstep]
    exact hdeep j (Nat.lt_of_succ_lt_succ hj)
  · rw [tasksTaken, hnone, hstep, htaken, hs₁]
    rfl
  · rw [hr', hs₁, courseOf]

end Teardown

end Wiring
