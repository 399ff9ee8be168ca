import Mathlib.Data.Multiset.DershowitzManna
import Wiring.Proofs.Teardown.Change
import Wiring.Proofs.Tiers.Memoized

/-!
# Ranks of stored code

A registry holds code that is to be run later: hooks and producers of early references. When it is
run, it may store code in turn, for its own component, too, and so on for ever. It does not if all
code can be given a *rank*, so that it stores code of lower ranks only. Then the ranks of the code
that a registry holds are its *backlog*. A step adds nothing to it but the ranks of what is stored,
and whatever is taken out to be run takes its rank out. Multisets that change in this way, an
element giving way to lower ones, are well-founded.

## Main definitions

* `Wiring.Within` — the order of multisets.
* `Wiring.Code.Ranked`, `Wiring.Application.Ranked` — code that stores code of lower ranks only.
* `Wiring.backlog`, `Wiring.waiting` — the ranks of the code that a registry holds, and of the hooks
  among tasks.
* `Wiring.Thread.StoresBelow` — what a step stores is below a rank.

## Main results

* `Wiring.Application.Ranked.step`, `Wiring.backlog_step_le` — what a step stores is all that is
  new.
* `Wiring.backlog_fetch`, `Wiring.backlog_effect_le` — what is taken out takes its rank out.
-/

namespace Wiring

variable {v : Vocabulary}

/-! ### Multisets of ranks -/

/-- A multiset is another one, or comes from it when some elements give way to lower ones. -/
def Within (N M : Multiset ℕ) : Prop := N = M ∨ N.IsDershowitzMannaLT M

namespace Within

variable {L M N : Multiset ℕ}

theorem refl (N : Multiset ℕ) : Within N N := .inl rfl

theorem of_le (h : N ≤ M) : Within N M := by
  obtain ⟨C, rfl⟩ := Multiset.le_iff_exists_add.mp h
  obtain rfl | hC := eq_or_ne C 0
  · exact .inl (add_zero N).symm
  · exact .inr ⟨N, 0, C, hC, (add_zero N).symm, rfl, nofun⟩

theorem trans_lt (h : Within N M) (h' : M.IsDershowitzMannaLT L) : N.IsDershowitzMannaLT L := by
  obtain rfl | h := h
  · exact h'
  · exact h.trans h'

theorem lt_trans (h : N.IsDershowitzMannaLT M) (h' : Within M L) : N.IsDershowitzMannaLT L := by
  obtain rfl | h' := h'
  · exact h
  · exact h.trans h'

theorem trans (h : Within N M) (h' : Within M L) : Within N L := by
  obtain rfl | h := h
  · exact h'
  · exact .inr (lt_trans h h')

theorem lt_add_right (h : N.IsDershowitzMannaLT M) (C : Multiset ℕ) :
    (N + C).IsDershowitzMannaLT (M + C) := by
  obtain ⟨X, Y, Z, hZ, rfl, rfl, hlt⟩ := h
  exact ⟨X + C, Y, Z, hZ, add_right_comm .., add_right_comm .., hlt⟩

theorem add_right (h : Within N M) (C : Multiset ℕ) : Within (N + C) (M + C) := by
  obtain rfl | h := h
  · exact .refl _
  · exact .inr (lt_add_right h C)

end Within

theorem lower_lt {m : ℕ} {Y : Multiset ℕ} (hY : ∀ y ∈ Y, y < m) (Z : Multiset ℕ) :
    (Z + Y).IsDershowitzMannaLT (Z + {m}) :=
  ⟨Z, Y, {m}, Multiset.singleton_ne_zero m, rfl, rfl,
    fun y hy => ⟨m, Multiset.mem_singleton_self m, hY y hy⟩⟩

/-- The ranks of the values of a table. -/
def ranksOf {α : Type} (f : α → ℕ) (t : Table String α) : Multiset ℕ := t.values.map f

section Tables

variable {α : Type} (f : α → ℕ) (t : Table String α) (n : String)

theorem ranksOf_eq_add :
    ranksOf f t = ((t.find? n).toList.map f : List ℕ) + ranksOf f (t.erase n) := by
  rw [ranksOf, ranksOf, Multiset.coe_add, ← List.map_append]
  exact Multiset.coe_eq_coe.mpr ((t.values_perm n).map f)

theorem ranksOf_erase_le : ranksOf f (t.erase n) ≤ ranksOf f t := by
  rw [ranksOf_eq_add f t n]
  exact Multiset.le_add_left ..

theorem ranksOf_insert_le (a : α) : ranksOf f (t.insert n a) ≤ ranksOf f t + {f a} := by
  have hinsert : ranksOf f (t.insert n a) = ranksOf f (t.erase n) + {f a} := by
    rw [add_comm, ranksOf, ranksOf, ← Multiset.coe_singleton, Multiset.coe_add]
    exact Multiset.coe_eq_coe.mpr ((t.values_insert_perm n a).map f)
  rw [hinsert]
  exact Multiset.add_le_add_right (ranksOf_erase_le f t n)

end Tables

/-! ### Code that stores code -/

/-- Code that runs at the rank `m`: the hooks and the producers that it stores are of lower ranks,
and so on for what they store in turn. The constructs and the blocks that it runs are a part of
it. -/
inductive Code.Ranked (app : Application v) (rank : (g : Goal) → v.Closure g → ℕ) :
    ℕ → {g : Goal} → Code v (g.Result v.Inst) → Prop
  | done {m : ℕ} {g : Goal} (a : g.Result v.Inst) : Ranked app rank m (.done a)
  | panic {m : ℕ} {g : Goal} (p : Panic) : Ranked (g := g) app rank m (.panic p)
  | note {m : ℕ} {g : Goal} (x : v.Note) {next : Code v (g.Result v.Inst)}
      (h : Ranked app rank m next) : Ranked app rank m (.note x next)
  | access {m : ℕ} {g : Goal} (change : v.World → v.World)
      {next : v.World → Code v (g.Result v.Inst)} (h : ∀ w, Ranked app rank m (next w)) :
      Ranked app rank m (.access change next)
  | call {m : ℕ} {g : Goal} {q : Request v}
      (hlower : ∀ n k, q = .storeHook n k → rank .hook k < m)
      (hhook : ∀ n k, q = .storeHook n k →
        Ranked (g := .hook) app rank (rank .hook k) (app.body k))
      (hlower' : ∀ n p, q = .publish n p → rank .producer p < m)
      (hproducer : ∀ n p, q = .publish n p →
        Ranked (g := .producer) app rank (rank .producer p) (app.body p))
      {next : q.Reply → Code v (g.Result v.Inst)} (h : ∀ a, Ranked app rank m (next a)) :
      Ranked app rank m (.call q next)
  | lookup {m : ℕ} {g : Goal} (n : String) (early : Bool)
      {next : Option v.Inst → Code v (g.Result v.Inst)} (h : ∀ a, Ranked app rank m (next a)) :
      Ranked app rank m (.lookup n early next)
  | create {m : ℕ} {g : Goal} (n : String) {c : v.Closure .construct}
      (hc : Ranked (g := .construct) app rank m (app.body c))
      {next : Except Error v.Inst → Code v (g.Result v.Inst)}
      (h : ∀ a, Ranked app rank m (next a)) : Ranked app rank m (.create n c next)
  | destroy {m : ℕ} {g : Goal} (n : String) {next : Code v (g.Result v.Inst)}
      (h : Ranked app rank m next) : Ranked app rank m (.destroy n next)
  | destroyAll {m : ℕ} {g : Goal} {next : Code v (g.Result v.Inst)}
      (h : Ranked app rank m next) : Ranked app rank m (.destroyAll next)
  | hold {m : ℕ} {g : Goal} {b : v.Closure .block}
      (hb : Ranked (g := .block) app rank m (app.body b))
      {next : Except Error Unit → Code v (g.Result v.Inst)}
      (h : ∀ a, Ranked app rank m (next a)) : Ranked app rank m (.hold b next)
  | guard {m : ℕ} {g : Goal} {b : v.Closure .block}
      (hb : Ranked (g := .block) app rank m (app.body b))
      {next : Except Panic (Except Error Unit) → Code v (g.Result v.Inst)}
      (h : ∀ a, Ranked app rank m (next a)) : Ranked app rank m (.guard b next)

/-- The hooks and the producers that a registry holds store code of lower ranks only. -/
structure Application.Ranked (app : Application v) (rank : (g : Goal) → v.Closure g → ℕ)
    (r : v.Registry) : Prop where
  hooks : ∀ n k, r.hooks.find? n = some k → (app.body k).Ranked app rank (rank .hook k)
  producers : ∀ n p, r.store.producers.find? n = some p →
    (app.body p).Ranked app rank (rank .producer p)

/-- The ranks of the hooks and the producers that a registry holds. -/
def backlog (rank : (g : Goal) → v.Closure g → ℕ) (r : v.Registry) : Multiset ℕ :=
  ranksOf (rank .hook) r.hooks + ranksOf (rank .producer) r.store.producers

/-- The ranks of the hooks among tasks. -/
def waiting (rank : (g : Goal) → v.Closure g → ℕ) (todo : List (Task v)) : Multiset ℕ :=
  (todo.filterMap Task.hook?).map fun h => rank .hook h.2

/-! ### What a step stores -/

section Changes

variable {η : Type}

theorem Hooks.Change.find?_apply {c : Hooks.Change η} {t : Hooks η} {n : String} {k : η}
    (h : (c.apply t).find? n = some k) : c = .store n k ∨ t.find? n = some k := by
  by_cases htouch : c.Touches n
  · exact .inl ((find?_apply_of_touches htouch t k).mp h)
  · exact .inr (find?_apply_of_not_touches htouch t ▸ h)

theorem Hooks.Change.ranksOf_apply_le (f : η → ℕ) (c : Hooks.Change η) (t : Hooks η) :
    ∃ A, ranksOf f (c.apply t) ≤ ranksOf f t + A ∧ ∀ y ∈ A, ∃ n k, c = .store n k ∧ y = f k := by
  cases c with
  | keep | begin => exact ⟨0, Multiset.le_add_right .., nofun⟩
  | store n k => exact ⟨{f k}, ranksOf_insert_le .., by simp⟩
  | detach n =>
    exact ⟨0, (ranksOf_erase_le f t n).trans (Multiset.le_add_right ..), nofun⟩
  | clear => exact ⟨0, Multiset.zero_le _, nofun⟩

variable {ι φ : Type}

theorem Store.Change.ranksOf_apply_le (f : φ → ℕ) (c : Store.Change ι φ) (s : Store ι φ) :
    ∃ A, ranksOf f (c.apply s).producers ≤ ranksOf f s.producers + A ∧
      ∀ y ∈ A, ∃ n p, c = .offer n p ∧ y = f p := by
  have hle {t : Table String φ} (h : ranksOf f t ≤ ranksOf f s.producers) :
      ranksOf f t ≤ ranksOf f s.producers + 0 := (add_zero (ranksOf f s.producers)).symm ▸ h
  cases c with
  | keep => exact ⟨0, hle le_rfl, nofun⟩
  | put n i | fetch n | remove n | discard n => exact ⟨0, hle (ranksOf_erase_le f _ n), nofun⟩
  | memoize n i =>
    refine ⟨0, hle ?_, nofun⟩
    simp only [apply, Store.memoize]
    split <;> exact le_rfl
  | clear => exact ⟨0, Multiset.zero_le _, nofun⟩
  | offer n p =>
    simp only [apply, Store.offer]
    split
    · exact ⟨0, hle le_rfl, nofun⟩
    · exact ⟨{f p}, ranksOf_insert_le .., by simp⟩

end Changes

variable {app : Application v} {rank : (g : Goal) → v.Closure g → ℕ} {m : ℕ}

namespace Thread

variable {s : State v} {t : Thread v}

/-- What the next step of a thread stores is of ranks below `m`, and so is what it stores. -/
structure StoresBelow (app : Application v) (rank : (g : Goal) → v.Closure g → ℕ) (m : ℕ)
    (s : State v) (t : Thread v) : Prop where
  hook : ∀ n k, t.hookChange = .store n k →
    rank .hook k < m ∧ (app.body k).Ranked app rank (rank .hook k)
  producer : ∀ n p, t.storeChange s = .offer n p →
    rank .producer p < m ∧ (app.body p).Ranked app rank (rank .producer p)

/-- Only requests store code. -/
theorem storesBelow_of_ne_call (ht : ∀ (g : Goal) (q : Request v)
    (next : q.Reply → Code v (g.Result v.Inst)) (stack : Stack v g),
    t ≠ .exec (.call q next) stack) : t.StoresBelow app rank m s := by
  refine ⟨fun n k h => ?_, fun n p h => ?_⟩
  · cases t with
    | exec code stack =>
      cases code with
      | call q next => exact absurd rfl (ht _ q next stack)
      | _ => cases h
    | walk todo next stack =>
      obtain _ | ⟨_ | _, _⟩ := todo <;> cases h
    | _ => cases h
  · have hcause := t.cause_storeChange s
    rw [h] at hcause
    cases hcause with
    | offer next stack => exact absurd rfl (ht _ (.publish n p) next stack)

theorem storesBelow_walk {todo : List (Task v)} {g : Goal} {next : Code v (g.Result v.Inst)}
    {stack : Stack v g} : (Thread.walk todo next stack).StoresBelow app rank m s :=
  storesBelow_of_ne_call nofun

end Thread

/-- What a request stores is below `m`, unless it stores code that is not. -/
theorem Thread.storesBelow_call {s : State v} {q : Request v} {g : Goal}
    {next : q.Reply → Code v (g.Result v.Inst)} {stack : Stack v g}
    (hhook : ∀ n k, q = .storeHook n k →
      rank .hook k < m ∧ (app.body k).Ranked app rank (rank .hook k))
    (hproducer : ∀ n p, q = .publish n p →
      rank .producer p < m ∧ (app.body p).Ranked app rank (rank .producer p)) :
    (Thread.exec (.call q next) stack).StoresBelow app rank m s := by
  refine ⟨fun n k h => hhook n k ?_, fun n p h => hproducer n p ?_⟩
  · have hchange : q.hookChange = .store n k := h
    cases q <;> cases hchange
    rfl
  · have hcause := (Thread.exec (.call q next) stack).cause_storeChange s
    rw [h] at hcause
    cases hcause
    rfl

theorem Application.Ranked.step {s : State v} {t : Thread v} (h : app.Ranked rank s.registry)
    (ht : t.StoresBelow app rank m s) : app.Ranked rank (t.step app s).1.registry := by
  refine ⟨fun n k hk => ?_, fun n p hp => ?_⟩
  · rw [Thread.hooks_step] at hk
    obtain hstore | hk := Hooks.Change.find?_apply hk
    · exact (ht.hook n k hstore).2
    · exact h.hooks n k hk
  · rw [Thread.store_step] at hp
    obtain ⟨hoffer, -⟩ | hp := Store.producers_apply hp
    · exact (ht.producer n p hoffer).2
    · exact h.producers n p hp

/-- A step adds nothing to the backlog but what it stores. -/
theorem backlog_step_le {s : State v} {t : Thread v} (ht : t.StoresBelow app rank m s) :
    ∃ A, (∀ y ∈ A, y < m) ∧
      backlog rank (t.step app s).1.registry ≤ backlog rank s.registry + A := by
  obtain ⟨A, hA, hhook⟩ := t.hookChange.ranksOf_apply_le (rank .hook) s.registry.hooks
  obtain ⟨B, hB, hproducer⟩ :=
    (t.storeChange s).ranksOf_apply_le (rank .producer) s.registry.store
  refine ⟨A + B, fun y hy => ?_, ?_⟩
  · obtain hy | hy := Multiset.mem_add.mp hy
    · obtain ⟨n, k, hstore, rfl⟩ := hhook y hy
      exact (ht.hook n k hstore).1
    · obtain ⟨n, p, hoffer, rfl⟩ := hproducer y hy
      exact (ht.producer n p hoffer).1
  · rw [backlog, backlog, Thread.hooks_step, Thread.store_step, add_add_add_comm]
    exact add_le_add hA hB

/-! ### What is taken out -/

namespace Application.Ranked

variable {r r' : v.Registry}

theorem congr (h : app.Ranked rank r) (hhooks : r'.hooks = r.hooks) (hstore : r'.store = r.store) :
    app.Ranked rank r' := by
  refine ⟨?_, ?_⟩
  · rw [hhooks]
    exact h.hooks
  · rw [hstore]
    exact h.producers

/-- A producer that is taken out is ranked, and so is what is left. -/
theorem fetch (h : app.Ranked rank r) (hhooks : r'.hooks = r.hooks) {n : String}
    (hstore : r'.store = r.store.fetch n) : app.Ranked rank r' := by
  refine ⟨?_, fun m p hp => ?_⟩
  · rw [hhooks]
    exact h.hooks
  · rw [hstore, Store.fetch, Table.find?_erase] at hp
    split at hp
    · cases hp
    · exact h.producers m p hp

end Application.Ranked

theorem backlog_congr {r r' : v.Registry} (hhooks : r'.hooks = r.hooks)
    (hstore : r'.store = r.store) : backlog rank r' = backlog rank r := by
  rw [backlog, backlog, hhooks, hstore]

/-- Of the backlog, a producer that is taken out takes its own rank. -/
theorem backlog_fetch {r r' : v.Registry} {n : String} {p : v.Closure .producer}
    (hp : r.store.producers.find? n = some p) (hhooks : r'.hooks = r.hooks)
    (hstore : r'.store = r.store.fetch n) :
    backlog rank r = backlog rank r' + {rank .producer p} := by
  rw [backlog, backlog, hhooks, hstore, ranksOf_eq_add _ r.store.producers n, hp, Store.fetch,
    add_assoc, add_comm (ranksOf _ (r.store.producers.erase n))]
  rfl

/-- A teardown begins with no hook among its tasks. -/
theorem waiting_tasks (r : v.Registry) (c : Teardown) : waiting rank (c.tasks r) = 0 := by
  cases c with
  | one n => rfl
  | all =>
    rw [waiting, Teardown.tasks, List.filterMap_append, filterMap_hook?_map_destroy]
    rfl

theorem waiting_append (l l' : List (Task v)) :
    waiting rank (l ++ l') = waiting rank l + waiting rank l' := by
  rw [waiting, waiting, waiting, List.filterMap_append, List.map_append, Multiset.coe_add]

/-- A task adds nothing to the backlog: a hook that joins the tasks has left the registry. -/
theorem backlog_effect_le (r : v.Registry) {task : Task v} (htask : task.hook? = none)
    (rest : List (Task v)) :
    backlog rank (task.effect r) + waiting rank (task.subtasks r ++ rest) ≤
      backlog rank r + waiting rank (task :: rest) := by
  have hrest : waiting rank (task :: rest) = waiting rank rest := by
    rw [waiting, List.filterMap_cons_none htask, ← waiting]
  rw [waiting_append, hrest, ← add_assoc]
  refine Multiset.add_le_add_right ?_
  cases task with
  | hook n k => cases htask
  | destroy n =>
    have hsubtasks : waiting rank (Task.subtasks r (.destroy n)) =
        ((r.hooks.find? n).toList.map (rank .hook) : List ℕ) := by
      rw [waiting, Task.subtasks, filterMap_hook?_destroyTasks, List.map_map]
      rfl
    rw [hsubtasks, backlog, backlog, ranksOf_eq_add _ r.hooks n, add_right_comm,
      add_comm (ranksOf _ _)]
    exact Multiset.add_le_add_left (ranksOf_erase_le _ r.store.producers n)
  | parts n =>
    rw [waiting, Task.subtasks, filterMap_hook?_map_destroy]
    exact (add_zero _).le
  | scrub n => exact (add_zero _).le
  | reset => exact (add_zero _).le.trans (Multiset.add_le_add_left (Multiset.zero_le _))

end Wiring
