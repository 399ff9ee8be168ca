import Wiring.Proofs.Teardown.Reach

/-!
# How often a teardown destroys a component

A teardown does not remember where it has been, and destroys a component again whenever a record
leads to it, in circles as well. But a record leads nowhere twice: when dependents or parts are put
in front of the other tasks, the records that name them are withdrawn. So it is the records that pay
for all destructions that the teardown does not begin with.

## Main definitions

* `Wiring.Teardown.Paid` — what holds throughout a teardown.
* `Wiring.destructions` — the components that a single thread takes up to destroy, in order.

## Main results

* `Wiring.Teardown.length_destroyed_subtasks_add_le` — a task withdraws a record for each
  destruction that it gives rise to.
* `Wiring.Teardown.Paid.course` — the records that are withdrawn pay for the further destructions.
* `Wiring.length_destructions_le` — the teardown of a component, or of everything, comes to an end,
  and how many components it destroys, each as often as it is destroyed.
-/

namespace Wiring

variable {v : Vocabulary}

namespace Teardown

/-! ### What a task adds -/

theorem destroyed_append (l l' : List (Task v)) :
    destroyed (l ++ l') = destroyed l ++ destroyed l' :=
  List.filterMap_append

theorem destroyed_map_destroy (l : List String) :
    destroyed (l.map (.destroy : String → Task v)) = l := by
  rw [destroyed, List.filterMap_map]
  exact List.filterMap_some

theorem destroyed_destroyTasks (r : v.Registry) (n : String) :
    destroyed (destroyTasks r n) = r.links.dependentsOf n := by
  rw [destroyTasks, destroyed_append, destroyed_append, destroyed_map_destroy]
  cases r.hooks.find? n <;> simp [destroyed]

/-- For each destruction that a task gives rise to, it withdraws a record. -/
theorem length_destroyed_subtasks_add_le (r : v.Registry) (task : Task v) :
    (destroyed (task.subtasks r)).length + (task.effect r).links.recorded ≤
      r.links.recorded := by
  cases task with
  | destroy n =>
    rw [Task.subtasks, destroyed_destroyTasks]
    exact (r.links.recorded_takeDependents n).ge
  | hook n h => exact (Nat.zero_add _).le
  | parts n =>
    rw [Task.subtasks, destroyed_map_destroy]
    exact (r.links.recorded_takeParts n).ge
  | scrub n =>
    rw [Task.subtasks, destroyed, List.filterMap_nil, List.length_nil, Nat.zero_add]
    exact r.links.recorded_scrub_le n
  | reset => exact Nat.zero_le _

/-! ### The course of a teardown -/

/-- What holds throughout a teardown that begins with the destruction of the components in `begun`
and with the registry `r₀`: beside these, at most one component is destroyed, or going to be, for
each record that has been withdrawn. -/
def Paid (r₀ : v.Registry) (begun : List String) (past : List (Task v)) (r : v.Registry)
    (todo : List (Task v)) : Prop :=
  ∃ further, (destroyed (past ++ todo)).Perm (begun ++ further) ∧
    further.length + r.links.recorded ≤ r₀.links.recorded

namespace Paid

variable {r₀ r : v.Registry} {begun : List String} {past rest : List (Task v)} {task : Task v}

theorem start (r : v.Registry) (todo : List (Task v)) : Paid r (destroyed todo) [] r todo :=
  ⟨[], by simp, by simp⟩

/-- Every task preserves it. -/
theorem step (h : Paid r₀ begun past r (task :: rest)) :
    Paid r₀ begun (past ++ [task]) (task.effect r) (task.subtasks r ++ rest) := by
  obtain ⟨further, hperm, hle⟩ := h
  refine ⟨further ++ destroyed (task.subtasks r), ?_, ?_⟩
  · have hstep : (destroyed (past ++ [task] ++ (task.subtasks r ++ rest))).Perm
        (destroyed (past ++ task :: rest ++ task.subtasks r)) :=
      (perm_step past rest r task).filterMap _
    rw [destroyed_append (past ++ task :: rest)] at hstep
    rw [← List.append_assoc begun]
    exact hstep.trans (hperm.append_right _)
  · have htask := length_destroyed_subtasks_add_le r task
    rw [List.length_append]
    omega

/-- What a teardown destroys from its beginning to its end. -/
theorem course (r : v.Registry) (todo : List (Task v)) :
    Paid r (destroyed todo) (Teardown.course r todo) (effects r (Teardown.course r todo)) [] :=
  course_induction (fun _ _ _ _ h => h.step) (start r todo)

end Paid

end Teardown

/-! ### Runs -/

/-- The components that a single thread takes up to destroy in its first `k` steps, in order. -/
def destructions (app : Application v) (k : Nat) (c : State v × Thread v) : List String :=
  Teardown.destroyed (tasksTaken app k c)

/-- A teardown with discreet hooks ends, and the records that it has withdrawn pay for what it has
destroyed beside what it began with. -/
theorem Teardown.exists_further {app : Application v} {s : State v}
    (hd : ∀ n h, s.registry.hooks.find? n = some h → app.Discreet h) (c : Teardown) {g : Goal}
    (next : Code v (g.Result v.Inst)) (stack : Stack v g) :
    ∃ k s' further, EndsAfter app (s, .exec (c.calling next) stack) k ∧
      run app k (s, .exec (c.calling next) stack) = (s', .exec next stack) ∧
      (destructions app k (s, .exec (c.calling next) stack)).Perm
        (destroyed (c.tasks s.registry) ++ further) ∧
      further.length + s'.registry.links.recorded ≤ s.registry.links.recorded := by
  obtain ⟨k, s', hend, hrun, htaken, hr'⟩ := ends_of_discreet hd c next stack
  obtain ⟨further, hperm, hle⟩ := Paid.course (c.opened s.registry) (c.tasks s.registry)
  have hlinks : (c.opened s.registry).links = s.registry.links := by cases c <;> rfl
  refine ⟨k, s', further, hend, hrun, ?_, ?_⟩
  · rwa [destructions, htaken, courseOf, ← List.append_nil (course ..)]
  · rwa [hr', courseOf, ← hlinks]

/-- **How often a teardown destroys a component.** The registry is in any state, with records of any
shape, and the hooks that are stored are discreet: they make no request, and return or panic in the
end. A thread calls for a teardown, whatever else it is in the middle of.

* The destruction of `n` comes to an end, and the code that called for it goes on. The components
  that it destroys, `n` among them and each as often as it is destroyed, are at most one more than
  the dependencies and containments that were recorded and are not any longer.
* So does the teardown of everything. It destroys each component once for the hook that it had at
  the beginning, and beside that at most as many as there were dependencies and containments
  recorded. -/
theorem length_destructions_le (app : Application v) (s : State v)
    (hd : ∀ n h, s.registry.hooks.find? n = some h → app.Discreet h) {g : Goal}
    (next : Code v (g.Result v.Inst)) (stack : Stack v g) :
    (∀ n, let c := (s, Thread.exec (.destroy n next) stack)
      ∃ k s', EndsAfter app c k ∧ run app k c = (s', .exec next stack) ∧
        n ∈ destructions app k c ∧
        (destructions app k c).length + s'.registry.links.recorded ≤
          1 + s.registry.links.recorded) ∧
    let c := (s, Thread.exec (.destroyAll next) stack)
    ∃ k s' further, EndsAfter app c k ∧ run app k c = (s', .exec next stack) ∧
      (destructions app k c).Perm (s.registry.hooks.keys ++ further) ∧
      further.length ≤ s.registry.links.recorded := by
  constructor
  · intro n c
    obtain ⟨k, s', further, hend, hrun, hperm, hle⟩ :=
      Teardown.exists_further hd (.one n) next stack
    have hmem : n ∈ destructions app k c := hperm.mem_iff.mpr List.mem_cons_self
    have hlength : (destructions app k c).length = further.length + 1 := hperm.length_eq
    exact ⟨k, s', hend, hrun, hmem, by omega⟩
  · intro c
    obtain ⟨k, s', further, hend, hrun, hperm, hle⟩ := Teardown.exists_further hd .all next stack
    have hbegun : Teardown.destroyed (Teardown.all.tasks s.registry) =
        s.registry.hooks.keys.reverse := by
      rw [Teardown.tasks, Teardown.destroyed_append, Teardown.destroyed_map_destroy]
      exact List.append_nil _
    rw [hbegun] at hperm
    have hkeys := (s.registry.hooks.keys.reverse_perm).append_right further
    exact ⟨k, s', further, hend, hrun, hperm.trans hkeys, (Nat.le_add_right ..).trans hle⟩

/-! ### A tangle -/

namespace Sample

/-- Components "a" and "b" that depend on each other, "a" also on itself, and "c", which is a part
of both. -/
def tangleMain : Code vocabulary Unit := do
  let _ ← .ask (.storeHook "a" "")
  let _ ← .ask (.storeHook "c" "")
  let _ ← .ask (.depend "a" "b")
  let _ ← .ask (.depend "b" "a")
  let _ ← .ask (.depend "a" "a")
  let _ ← .ask (.contain "c" "a")
  let _ ← .ask (.contain "c" "b")

/-- The state after that program. -/
def tangle : State vocabulary :=
  (Pool.reached idle .default () [tangleMain] (List.replicate 7 0)).state

/-- With five dependencies and two containments, the destruction of "a" destroys at most eight
components, and that of "a" and "c", which have hooks, at most nine. -/
theorem length_destructions_le_tangle :
    (∀ n h, tangle.registry.hooks.find? n = some h → idle.Discreet h) ∧
    (∃ k s', run idle k (tangle, .exec (g := .main) (.destroy "a" (.done ())) .top) =
        (s', .exec (.done ()) .top) ∧
      (destructions idle k
        (tangle, .exec (g := .main) (.destroy "a" (.done ())) .top)).length ≤ 8) ∧
    ∃ k s', run idle k (tangle, .exec (g := .main) (.destroyAll (.done ())) .top) =
        (s', .exec (.done ()) .top) ∧
      (destructions idle k
        (tangle, .exec (g := .main) (.destroyAll (.done ())) .top)).length ≤ 9 := by
  obtain ⟨hone, k, s', further, -, hrun, hperm, hle⟩ := length_destructions_le idle tangle
    (fun _ h _ => discreet_idle h) (g := .main) (.done ()) .top
  obtain ⟨k₁, s₁, -, hrun₁, -, hle₁⟩ := hone "a"
  have hrecorded : tangle.registry.links.recorded = 7 := by decide
  have hkeys : tangle.registry.hooks.keys.length = 2 := by decide
  refine ⟨fun _ h _ => discreet_idle h, ⟨k₁, s₁, hrun₁, by omega⟩, k, s', hrun, ?_⟩
  have hlength := hperm.length_eq
  rw [List.length_append] at hlength
  omega

/-- It does destroy eight. -/
example : destructions idle 30 (tangle, .exec (g := .main) (.destroy "a" (.done ())) .top) =
    ["a", "b", "a", "c", "a", "b", "c", "a"] := by decide

end Sample

end Wiring
