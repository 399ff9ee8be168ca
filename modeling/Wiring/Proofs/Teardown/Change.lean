import Wiring.Proofs.Alteration
import Wiring.Proofs.Teardown.Agenda

/-!
# What a step does to the hooks

A hook is stored, waits in the registry until its component is destroyed, is detached then, and
waits on the agenda of the thread that destroys the component until it is begun. A step of a thread
does one thing to the hooks, and which one can be told from the thread before the step. The hooks in
the registry and the detached hooks of the thread change together.

## Main definitions

* `Wiring.Hooks.Change`, with its effects on the stored and on the detached hooks.
* `Wiring.Thread.hookChange` — what the next step of a thread does to the hooks.
* `Wiring.Thread.detachedHooks` — the hooks that a thread has detached and not begun.
* `Wiring.Hooks.Change.Touches` — a change takes away or replaces the hook of a name.

## Main results

* `Wiring.Thread.hooks_step`, `Wiring.Thread.detachedHooks_step` — a step does to the hooks what its
  change says.
* `Wiring.find?_hooks_run_iff` — a name has the hook that was last stored for it, if nothing has
  touched it since.
-/

namespace Wiring

/-! ### Changes -/

namespace Hooks

variable {η : Type}

/-- What can be done to the hooks. -/
inductive Change (η : Type) where
  | keep
  | store (n : String) (h : η)
  /-- The hook of a name, if it has one, is taken out to be run. -/
  | detach (n : String)
  /-- A detached hook is begun. -/
  | begin (n : String) (h : η)
  /-- All hooks are dropped. -/
  | clear

namespace Change

/-- The stored hooks after a change. -/
def apply (t : Hooks η) : Change η → Hooks η
  | .store n h => t.insert n h
  | .detach n => t.erase n
  | .clear => Table.empty
  | .keep | .begin .. => t

/-- The detached hooks of a thread after a change, the latest first, where `t` are the stored hooks
before it. -/
def detached (t : Hooks η) (l : List (String × η)) : Change η → List (String × η)
  | .detach n => (t.find? n).toList.map (n, ·) ++ l
  | .begin .. => l.tail
  | .keep | .store .. | .clear => l

/-- Whether a change takes away the hook of `n` or replaces it. -/
def Touches (n : String) : Change η → Prop
  | .store m _ | .detach m => m = n
  | .clear => True
  | .keep | .begin .. => False

instance (n : String) : (c : Change η) → Decidable (c.Touches n)
  | .store m _ | .detach m => inferInstanceAs (Decidable (m = n))
  | .clear => isTrue trivial
  | .keep | .begin .. => isFalse id

theorem find?_apply_of_not_touches {c : Change η} {n : String} (h : ¬ c.Touches n) (t : Hooks η) :
    (c.apply t).find? n = t.find? n := by
  cases c with
  | keep | begin => rfl
  | store m k => exact t.find?_insert_of_ne k h
  | detach m => exact t.find?_erase_of_ne h
  | clear => exact absurd trivial h

/-- After a change that touches `n`, the name has a hook exactly if the change has stored it. -/
theorem find?_apply_of_touches {c : Change η} {n : String} (h : c.Touches n) (t : Hooks η) (k : η) :
    (c.apply t).find? n = some k ↔ c = .store n k := by
  cases c with
  | keep | begin => exact h.elim
  | store m j =>
    obtain rfl : m = n := h
    simp [apply]
  | detach m =>
    obtain rfl : m = n := h
    simp [apply]
  | clear => simp [apply]

end Change

end Hooks

variable {v : Vocabulary}

/-! ### The change of a step -/

/-- What a request that runs no code does to the hooks. -/
def Request.hookChange : Request v → Hooks.Change (v.Closure .hook)
  | .storeHook n h => .store n h
  | .clearAll => .clear
  | .register .. | .publish .. | .get _ | .remove _ | .names | .count | .isFinal _
  | .isInCreation _ | .isMarked _ | .setExcluded .. | .suppress _ | .depend .. | .contain ..
  | .isDependent .. | .hasDependents _ | .dependents _ | .dependencies _ | .parts _ | .hasHook _
  | .isTearingDown | .options | .summary | .survey _ => .keep

namespace Thread

/-- What the next step of a thread does to the hooks. -/
def hookChange : Thread v → Hooks.Change (v.Closure .hook)
  | .exec (.call q _) _ => q.hookChange
  | .walk (.destroy n :: _) .. => .detach n
  | .walk (.hook n h :: _) .. => .begin n h
  | .exec .. | .seek .. | .begin .. | .walk .. | .unwind .. | .finished _ => .keep

/-- The hooks that a thread has detached and not begun, the next one first. -/
def detachedHooks (t : Thread v) : List (String × v.Closure .hook) := t.agenda.flatMap Level.hooks

end Thread

/-! ### A step does to the hooks what its change says -/

theorem Request.hooks_answer (r : v.Registry) (q : Request v) :
    (q.answer r).registry.hooks = q.hookChange.apply r.hooks := by
  have halters := q.alters_answer r
  generalize (q.answer r).registry = r' at halters ⊢
  cases halters with
  | storeHook n h => rfl
  | clearAll => rfl
  | other hstore hclear hsame =>
    rw [hsame.hooks]
    cases q with
    | storeHook n h => exact absurd rfl (hstore n h)
    | clearAll => exact absurd rfl hclear
    | _ => rfl

namespace Thread

theorem hookChange_of_plain {t : Thread v} (ht : t.Plain) : t.hookChange = .keep := by
  cases t with
  | exec code stack =>
    cases code with
    | call q next => exact ht.elim
    | _ => rfl
  | walk todo next stack =>
    cases todo with
    | nil => rfl
    | cons task todo => exact ht.elim
  | _ => rfl

/-- A hook is begun only when it is the next task of a teardown. -/
theorem walk_of_begin {t : Thread v} {n : String} {hook : v.Closure .hook}
    (h : t.hookChange = .begin n hook) :
    ∃ (g : Goal) (todo : List (Task v)) (next : Code v (g.Result v.Inst)) (stack : Stack v g),
      t = .walk (.hook n hook :: todo) next stack := by
  cases t with
  | exec code stack =>
    cases code with
    | call q next => cases q <;> cases h
    | _ => cases h
  | walk todo next stack =>
    cases todo with
    | nil => cases h
    | cons task todo =>
      cases task with
      | hook m k =>
        cases h
        exact ⟨_, todo, next, stack, rfl⟩
      | _ => cases h
  | _ => cases h

/-- A step does to the stored hooks what its change says. -/
theorem hooks_step (app : Application v) (s : State v) (t : Thread v) :
    (t.step app s).1.registry.hooks = t.hookChange.apply s.registry.hooks := by
  have halters := t.alters_step app s
  generalize (t.step app s).1.registry = r at halters ⊢
  cases halters with
  | call q next stack => exact q.hooks_answer s.registry
  | destroyAll next stack => rfl
  | task task todo next stack => cases task <;> rfl
  | plain ht hsame => rw [hookChange_of_plain ht, hsame.hooks, Hooks.Change.apply]

/-- A step that takes up no task leaves the detached hooks alone. -/
theorem detached_of_task?_eq_none {t : Thread v} (ht : t.task? = none)
    (hooks : Hooks (v.Closure .hook)) (l : List (String × v.Closure .hook)) :
    t.hookChange.detached hooks l = l := by
  cases t with
  | exec code stack =>
    cases code with
    | call q next => cases q <;> rfl
    | _ => rfl
  | walk todo next stack =>
    cases todo with
    | nil => rfl
    | cons task todo => cases ht
  | _ => rfl

/-- A step does to the detached hooks what its change says. -/
theorem detachedHooks_step (app : Application v) (s : State v) (t : Thread v) :
    (t.step app s).2.detachedHooks = t.hookChange.detached s.registry.hooks t.detachedHooks := by
  have hmoves := t.moves_step app s
  simp only [detachedHooks]
  generalize (t.step app s).2.agenda = l at hmoves ⊢
  cases hmoves with
  | keep ht hl => rw [detached_of_task?_eq_none ht, hl]
  | enter level ht hl => rw [detached_of_task?_eq_none ht, List.flatMap_cons, hl, List.nil_append]
  | leave ht hl =>
    rw [detached_of_task?_eq_none ht, hl, List.flatMap_cons, Level.hooks, List.nil_append]
  | close next stack => rfl
  | take task todo next stack =>
    rw [List.flatMap_cons, Level.hooks, List.filterMap_append]
    cases task with
    | destroy n =>
      rw [Task.subtasks, filterMap_hook?_destroyTasks, List.append_assoc]
      rfl
    | parts n =>
      rw [Task.subtasks, filterMap_hook?_map_destroy]
      rfl
    | hook | scrub | reset => rfl

end Thread

/-! ### Runs of a single thread -/

/-- After some steps of a single thread, the hook of `n` is the one that was last stored for it,
during these steps or before, if no step has touched it since. -/
theorem find?_hooks_run_iff (app : Application v) (c : State v × Thread v) (k : Nat) (n : String)
    (h : v.Closure .hook) :
    (run app k c).1.registry.hooks.find? n = some h ↔
      (∃ j < k, (run app j c).2.hookChange = .store n h ∧
        ∀ i < k, j < i → ¬ (run app i c).2.hookChange.Touches n) ∨
      c.1.registry.hooks.find? n = some h ∧
        ∀ i < k, ¬ (run app i c).2.hookChange.Touches n := by
  induction k with
  | zero => simp [run]
  | succ k ih =>
    rw [run_succ_last, Thread.hooks_step, Nat.exists_lt_succ_right, Nat.forall_lt_succ_right]
    simp only [Nat.forall_lt_succ_right]
    by_cases htouch : (run app k c).2.hookChange.Touches n
    · rw [Hooks.Change.find?_apply_of_touches htouch]
      constructor
      · exact fun hstore => .inl (.inr ⟨hstore, fun i hi hk => absurd hi (Nat.lt_asymm hk),
          fun hk => absurd hk k.lt_irrefl⟩)
      · rintro ((⟨j, hj, -, -, hnone⟩ | ⟨hstore, -⟩) | ⟨-, -, hnone⟩)
        · exact absurd htouch (hnone hj)
        · exact hstore
        · exact absurd htouch hnone
    · -- neither is this the step that stores the hook, nor does it matter to one that was stored
      have hstore : (run app k c).2.hookChange ≠ .store n h := by
        intro he
        rw [he] at htouch
        exact htouch rfl
      rw [Hooks.Change.find?_apply_of_not_touches htouch, ih]
      simp [htouch, hstore]

end Wiring
