import Wiring.Proofs.Sample
import Wiring.Proofs.Teardown.Change

/-!
# What a teardown of the whole registry leaves behind

A teardown of the whole registry destroys every component that had a hook when it began, and then
drops all instances and records at one stroke, as its last task. So whatever the hooks enter into
the registry on the way, no instance and no record is there when it is over. It does not drop the
hooks: a hook that is stored meanwhile stays unless a later step takes it away, and these are the
only hooks that are there when it is over.

## Main results

* `Wiring.run_of_endsAfter_destroyAll` — the last task of a teardown is followed by its caller.
* `Wiring.destroyAll_leaves_new_hooks` — the registry when the teardown of all of it is over.
* `Wiring.Sample.hook_left_renewing` — a hook that is left behind.
-/

namespace Wiring

variable {v : Vocabulary}

section

variable (app : Application v) {s : State v} {g : Goal} {next : Code v (g.Result v.Inst)}
  {stack : Stack v g} {k : Nat}

/-- Before a teardown is over, every task that it began with has been taken up. -/
theorem taken_of_endsAfter {task : Task v} {first rest : List (Task v)}
    (hend : EndsAfter app (s, .exec (.destroyAll next) stack) k)
    (htasks : s.registry.hooks.keys.reverse.map .destroy ++ [.reset] = first ++ task :: rest) :
    ∃ j < k, ∃ s',
      run app j (s, .exec (.destroyAll next) stack) = (s', .walk (task :: rest) next stack) := by
  obtain ⟨k, rfl⟩ := Nat.exists_eq_add_one_of_ne_zero (Nat.pos_iff_ne_zero.mp hend.pos)
  have hbegun : (run app 1 (s, .exec (.destroyAll next) stack)).2 =
      .walk (first ++ task :: rest) next stack := by
    rw [← htasks]
    rfl
  have hahead : Ahead task rest ⟨next, stack⟩
      (run app 1 (s, .exec (.destroyAll next) stack)).2.agenda := by
    rw [hbegun]
    exact .of_first first
  obtain ⟨j, hj, htaken⟩ := taken_of_ahead app hahead (k := k) hend.back
  exact ⟨j + 1, Nat.succ_lt_succ hj, _, Prod.ext rfl htaken⟩

/-- A teardown of the whole registry is over two steps after its last task has been taken up, which
drops all instances and records. -/
theorem run_of_endsAfter_destroyAll (hend : EndsAfter app (s, .exec (.destroyAll next) stack) k) :
    ∃ s' : State v, run app k (s, .exec (.destroyAll next) stack) =
      (s'.withRegistry s'.registry.reset, .exec next stack) := by
  obtain ⟨j, hj, s', hreset⟩ := taken_of_endsAfter app hend rfl
  have hlast : run app (j + 1) (s, .exec (.destroyAll next) stack) =
      (s'.withRegistry s'.registry.reset, .walk [] next stack) := by
    rw [run_succ_last, hreset]
    rfl
  have hover : run app (j + 2) (s, .exec (.destroyAll next) stack) =
      (s'.withRegistry s'.registry.reset, .exec next stack) := by
    rw [run_succ_last, hlast]
    rfl
  have hne : k ≠ j + 1 := by
    rintro rfl
    have hback := hend.back
    rw [hlast] at hback
    exact absurd hback (Nat.not_le.mpr (Nat.lt_succ_self _))
  have hle : k ≤ j + 2 := by
    by_contra hlt
    have hinside := hend.inside (j + 2) (Nat.succ_pos _) (Nat.not_le.mp hlt)
    rw [hover] at hinside
    exact absurd hinside (Nat.lt_irrefl _)
  obtain rfl : k = j + 2 := by omega
  exact ⟨s', hover⟩

end

/-- **What a teardown of everything leaves behind.** A single thread calls for the teardown of the
whole registry, whatever state it is in and whatever else it is in the middle of, and the hooks do
as they please. When the teardown is over, the code that called for it goes on. No name is final,
staged or registered, there is no record, and no teardown is under way. A name has a hook exactly if
a step stored that hook during the teardown, and no later step until its end took the hook of that
name away or replaced it. -/
theorem destroyAll_leaves_new_hooks (app : Application v) (s : State v) {g : Goal}
    (next : Code v (g.Result v.Inst)) (stack : Stack v g) (k : Nat)
    (hend : EndsAfter app (s, .exec (.destroyAll next) stack) k) :
    let c := (s, Thread.exec (.destroyAll next) stack)
    let r := (run app k c).1.registry
    (run app k c).2 = .exec next stack ∧
    (∀ n, r.store.isFinal n = false ∧ r.store.isStaged n = false ∧ n ∉ r.store.registered) ∧
    r.links = .empty ∧ r.tearingDown = false ∧
    ∀ n h, r.hooks.find? n = some h ↔
      ∃ j < k, (run app j c).2.hookChange = .store n h ∧
        ∀ i < k, j < i → ¬ (run app i c).2.hookChange.Touches n := by
  intro c r
  obtain ⟨s', hrun⟩ := run_of_endsAfter_destroyAll app hend
  have hr : r = s'.registry.reset := by
    simp only [r, c, hrun]
    rfl
  have hstore : r.store = .empty := by rw [hr]; rfl
  refine ⟨by rw [hrun], fun n => ?_, by rw [hr]; rfl, by rw [hr]; rfl, fun n h => ?_⟩
  · rw [hstore]
    exact ⟨rfl, rfl, nofun⟩
  · refine (find?_hooks_run_iff app c k n h).trans (or_iff_left ?_)
    -- a name that had a hook at the beginning has been destroyed
    rintro ⟨hold, huntouched⟩
    have hmem : n ∈ s.registry.hooks.keys.reverse :=
      List.mem_reverse.mpr (Table.mem_keys_iff.mpr (by rw [hold]; rfl))
    obtain ⟨first, rest, hkeys⟩ := List.append_of_mem hmem
    have htasks : (s.registry.hooks.keys.reverse.map .destroy ++ [.reset] : List (Task v)) =
        first.map .destroy ++ .destroy n :: (rest.map .destroy ++ [.reset]) := by simp [hkeys]
    obtain ⟨j, hj, s'', htaken⟩ := taken_of_endsAfter app hend htasks
    refine huntouched j hj ?_
    rw [htaken]
    exact rfl

/-! ### A hook that is left behind -/

namespace Sample

/-- An application whose hooks store a hook for "b", except for the hook "idle". -/
def renewing : Application vocabulary where
  body {g} (c : String) :=
    match g with
    | .hook =>
      if c = "idle" then .done (.ok ())
      else do
        let _ ← .ask (.storeHook "b" "idle")
        return .ok ()
    | .main => .done ()
    | .construct => .done (.ok (0 : Nat))
    | .producer => .done (0 : Nat)
    | .block => .done (.ok ())

/-- A program that stores a hook for "a" and calls for the teardown of the whole registry. -/
def renewingMain : Code vocabulary Unit := do
  let _ ← .ask (.storeHook "a" "renewing")
  .destroyAll (.done ())

/-- A run of that program from the call on, after so many steps. -/
def renewingRun (k : Nat) : State vocabulary × Thread vocabulary :=
  run renewing k (run renewing 1 (start renewingMain))

theorem endsAfter_renewing : EndsAfter renewing (renewingRun 0) 9 := by
  have hinside : ∀ j < 9, 0 < j → (renewingRun 0).2.depth < (renewingRun j).2.depth := by decide
  exact ⟨by decide, by decide, fun j hpos hj => hinside j hj hpos⟩

/-- The teardown of the registry takes nine steps. The hook that is stored in the fourth of them is
there afterwards, although the teardown runs no hook of "b". -/
theorem destroyAll_leaves_new_hooks_renewing :
    (renewingRun 9).1.registry.store.isFinal "a" = false ∧
      (renewingRun 9).1.registry.links = .empty ∧
      (renewingRun 9).1.registry.hooks.find? "b" = some "idle" := by
  obtain ⟨-, hstore, hlinks, -, hhooks⟩ := destroyAll_leaves_new_hooks renewing (renewingRun 0).1
    (g := .main) (.done ()) .top 9 endsAfter_renewing
  have huntouched : ∀ i < 9, 3 < i → ¬ (renewingRun i).2.hookChange.Touches "b" := by decide
  exact ⟨(hstore "a").1, hlinks, (hhooks "b" "idle").mpr ⟨3, by decide, rfl, huntouched⟩⟩

/-- No build is open when the teardown of the registry is called for, and when it is over a hook is
pending. -/
theorem hook_left_renewing :
    (renewingRun 0).2 = .exec (g := .main) (.destroyAll (.done ())) .top ∧
      EndsAfter renewing (renewingRun 0) 9 ∧ (renewingRun 0).2.builds = [] ∧
      (renewingRun 9).1.registry.hooks.contains "b" = true :=
  ⟨rfl, endsAfter_renewing, rfl, by decide⟩

end Sample

end Wiring
