import Mathlib.Logic.Relation
import Wiring.Proofs.Teardown.Tasks

/-!
# The order of hooks in a teardown

Dependents are to be torn down before what they depend on. Whether they are, is decided by what a
teardown draws along: destroying a component destroys its dependents before its hook is run, and its
parts afterwards, and all of these draw along others in turn. If a component is drawn along by a
dependent of one of its own dependents, it *overtakes* that dependent, even where no dependencies
lead around a circle. Without such a detour the hook of the dependent is begun first in every
teardown.

## Main definitions

* `Wiring.Links.Draws` — destroying one component destroys another one along.
* `Wiring.Links.Overtakes` — destroying a component destroys another one before its own hook is run.
* `Wiring.Registry.Prepared` — registries that records and hooks were entered into.
* `Wiring.Teardown.InOrder` — what holds throughout a teardown if nothing overtakes.

## Main results

* `Wiring.Teardown.InOrder.step` — every task preserves the order.
* `Wiring.Teardown.not_sublist_hookOrder` — the hook of a dependent that nothing overtakes is begun
  first.
-/

namespace Wiring

variable {v : Vocabulary}

/-! ### What is drawn along -/

namespace Links

/-- Destroying `a` destroys `b` along: `b` depends on `a`, or is a part of it. -/
def Draws (g : Links) (a b : String) : Prop := b ∈ g.dependentsOf a ∨ b ∈ g.partsOf a

/-- Destroying `x` destroys `y` before the hook of `x` is run: some dependent of `x` draws `y`
along, directly or through others. -/
def Overtakes (g : Links) (y x : String) : Prop :=
  ∃ d ∈ g.dependentsOf x, Relation.ReflTransGen g.Draws d y

/-- What depends on `x`, directly or through others, overtakes it. -/
theorem overtakes_of_transGen {g : Links} {x y : String}
    (h : Relation.TransGen (fun a b => b ∈ g.dependentsOf a) x y) : g.Overtakes y x := by
  obtain ⟨d, hd, hdy⟩ := Relation.TransGen.head'_iff.mp h
  exact ⟨d, hd, Relation.ReflTransGen.mono (fun a b hab => .inl hab) d y hdy⟩

end Links

/-! ### Prepared registries -/

/-- The requests that enter records and hooks. -/
def Request.Prepares : Request v → Prop
  | .depend .. | .contain .. | .storeHook .. => True
  | .register .. | .publish .. | .get _ | .remove _ | .names | .count | .isFinal _ | .isInCreation _
  | .isMarked _ | .setExcluded .. | .suppress _ | .isDependent .. | .hasDependents _ | .dependents _
  | .dependencies _ | .parts _ | .hasHook _ | .isTearingDown | .clearAll | .options | .summary
  | .survey _ => False

namespace Registry

/-- The registries that result from entering records and hooks into a fresh one. -/
inductive Prepared : v.Registry → Prop
  | fresh (o : Options) : Prepared (.fresh o)
  | step {r : v.Registry} (q : Request v) (hq : q.Prepares) (hr : Prepared r) :
      Prepared (q.answer r).registry

theorem Prepared.foldl {r : v.Registry} {l : List (Request v)} (hl : ∀ q ∈ l, q.Prepares)
    (hr : r.Prepared) : Prepared (l.foldl (fun r q => (q.answer r).registry) r) := by
  induction l generalizing r with
  | nil => exact hr
  | cons q l ih =>
    exact ih (fun q' hq' => hl q' (List.mem_cons_of_mem _ hq'))
      (.step q (hl q List.mem_cons_self) hr)

/-- A container depends on its parts. -/
theorem Prepared.mem_dependentsOf {r : v.Registry} (hr : r.Prepared) {a b : String}
    (h : b ∈ r.links.partsOf a) : a ∈ r.links.dependentsOf b := by
  induction hr with
  | fresh o => cases h
  | @step r q hq _ ih =>
    cases q with
    | depend dependency dependent =>
      change b ∈ (r.depend dependency dependent).registry.links.partsOf a at h
      change a ∈ (r.depend dependency dependent).registry.links.dependentsOf b
      obtain hl | hl := r.links_depend dependency dependent
      · rw [hl] at h ⊢
        exact ih h
      · rw [hl] at h ⊢
        rw [Links.partsOf_depend] at h
        exact Links.mem_dependentsOf_depend.mpr (.inl (ih h))
    | contain inner outer =>
      change b ∈ (r.contain inner outer).registry.links.partsOf a at h
      change a ∈ (r.contain inner outer).registry.links.dependentsOf b
      obtain hl | hl := r.links_contain inner outer
      · rw [hl] at h ⊢
        exact ih h
      · rw [hl] at h ⊢
        refine Links.mem_dependentsOf_contain.mpr ?_
        obtain h | ⟨rfl, rfl⟩ := Links.mem_partsOf_contain.mp h
        · exact .inl (ih h)
        · by_cases hin : b ∈ r.links.partsOf outer
          · exact .inl (ih hin)
          · exact .inr ⟨hin, rfl, rfl⟩
    | storeHook n k => exact ih h
    | _ => exact hq.elim

end Registry

/-! ### Without overtaking -/

namespace Task

/-- Whether a task is about one of the names in `R`. -/
def Concerns (R : String → Prop) : Task v → Prop
  | .destroy n | .hook n _ | .parts n | .scrub n => R n
  | .reset => False

end Task

namespace Teardown

/-- In a list of tasks, the hook of `y` comes only after the destruction of `x`. -/
def Guarded (x y : String) : List (Task v) → Prop
  | [] => True
  | .destroy n :: todo => n = x ∨ Guarded x y todo
  | .hook n _ :: todo => n ≠ y ∧ Guarded x y todo
  | .parts _ :: todo | .scrub _ :: todo | .reset :: todo => Guarded x y todo

theorem guarded_append_of_mem {x y : String} {l l' : List (Task v)} (h : ∀ k, .hook y k ∉ l)
    (hx : .destroy x ∈ l) : Guarded x y (l ++ l') := by
  induction l with
  | nil => cases hx
  | cons t l ih =>
    have hl : ∀ k, .hook y k ∉ l := fun k hk => h k (List.mem_cons_of_mem _ hk)
    rcases List.mem_cons.mp hx with hx' | hx'
    · cases hx'
      exact .inl rfl
    · cases t with
      | destroy n => exact .inr (ih hl hx')
      | hook n k =>
        refine ⟨?_, ih hl hx'⟩
        rintro rfl
        exact h k List.mem_cons_self
      | _ => exact ih hl hx'

theorem Guarded.append {x y : String} {l l' : List (Task v)} (h : ∀ k, .hook y k ∉ l)
    (hl' : Guarded x y l') : Guarded x y (l ++ l') := by
  induction l with
  | nil => exact hl'
  | cons t l ih =>
    have hl := ih fun k hk => h k (List.mem_cons_of_mem _ hk)
    cases t with
    | destroy n => exact .inr hl
    | hook n k =>
      refine ⟨?_, hl⟩
      rintro rfl
      exact h k List.mem_cons_self
    | _ => exact hl

theorem pair_sublist_concat {a b c : String} {l : List String} :
    [a, b].Sublist (l ++ [c]) ↔ [a, b].Sublist l ∨ b = c ∧ a ∈ l := by
  have hrev : [b, a].Sublist l.reverse ↔ [a, b].Sublist l :=
    (List.reverse_sublist : [a, b].reverse.Sublist l.reverse ↔ [a, b].Sublist l)
  rw [← List.reverse_sublist, List.reverse_append]
  change [b, a].Sublist (c :: l.reverse) ↔ _
  rw [List.sublist_cons_iff, hrev]
  refine or_congr_right ⟨?_, ?_⟩
  · rintro ⟨m, h, hm⟩
    cases h
    exact ⟨rfl, by simpa using hm⟩
  · rintro ⟨rfl, ha⟩
    exact ⟨[a], rfl, by simpa using ha⟩

/-- What holds throughout a teardown in which `y` does not overtake its dependent `x`. The names in
`R` are those that the dependents of `x` draw along; `log` lists the hooks that were begun. -/
structure InOrder (x y : String) (R : String → Prop) (log : List String) (r : v.Registry)
    (todo : List (Task v)) : Prop where
  /-- The records lead from the dependents of `x` to names in `R` only. -/
  dependents : ∀ a, R a ∨ a = x → ∀ b ∈ r.links.dependentsOf a, R b
  contained : ∀ a, R a → ∀ b ∈ r.links.partsOf a, R b
  /-- The record is there for as long as it matters. -/
  recorded : r.hooks.contains x = true → r.hooks.contains y = true →
    x ∈ r.links.dependentsOf y ∨ ∀ t ∈ todo, t = .reset
  resets : todo.Pairwise fun a b => a = .reset → b = .reset
  scrubbed : ∀ n, .scrub n ∈ todo → r.hooks.contains n = false
  /-- Only names in `R` are dealt with before the hook of `x`, once that is among the tasks. -/
  between : todo.Pairwise fun a b => b.begins = [x] → a.Concerns R
  /-- Before that, the destruction of `x` comes before the hook of `y`. -/
  guarded : r.hooks.contains x = true → Guarded x y todo
  passed : y ∈ log → r.hooks.contains x = false ∧ ∀ t ∈ todo, t.begins ≠ [x]
  order : ¬ [y, x].Sublist log

namespace InOrder

variable {x y : String} {R : String → Prop} {log : List String} {r : v.Registry}
  {rest : List (Task v)}

theorem concerns {t u : Task v} (h : InOrder x y R log r (t :: rest)) (hu : u ∈ rest)
    (hx : u.begins = [x]) : t.Concerns R :=
  List.rel_of_pairwise_cons h.between hu hx

theorem destroy {n : String} (h : InOrder x y R log r (.destroy n :: rest)) :
    InOrder x y R log (r.detach n) (destroyTasks r n ++ rest) := by
  have hdeps {a b : String} : b ∈ (r.detach n).links.dependentsOf a ↔
      b ∈ r.links.dependentsOf a ∧ n ≠ a :=
    Links.mem_dependentsOf_takeDependents
  refine ⟨fun a ha b hb => h.dependents a ha b (hdeps.mp hb).1, h.contained, ?recorded, ?resets,
    ?scrubbed, ?between, ?guarded, ?passed, h.order⟩
  case recorded =>
    intro hx hy
    rw [Registry.contains_hooks_detach, Bool.and_eq_true] at hx hy
    obtain hxy | hall := h.recorded hx.2 hy.2
    · exact .inl (hdeps.mpr ⟨hxy, by simpa using hy.1⟩)
    · cases hall _ List.mem_cons_self
  case resets =>
    refine List.pairwise_append.mpr ⟨?_, h.resets.of_cons, fun t ht _ _ => ?_⟩
    · refine List.pairwise_of_forall_mem_list fun t ht _ _ hreset => ?_
      exact absurd hreset (ne_reset_of_mem_destroyTasks ht)
    · exact fun hreset => absurd hreset (ne_reset_of_mem_destroyTasks ht)
  case scrubbed =>
    intro m hm
    rw [Registry.contains_hooks_detach]
    rcases List.mem_append.mp hm with hm | hm
    · obtain rfl := scrub_mem_destroyTasks.mp hm
      simp
    · rw [h.scrubbed m (List.mem_cons_of_mem _ hm), Bool.and_false]
  case between =>
    refine List.pairwise_append.mpr ⟨?_, h.between.of_cons, fun t ht u hu hux => ?_⟩
    · refine pairwise_destroyTasks (fun d hd k hk => ?_) fun t u hu hux => ?_
      · obtain rfl : n = x := by simpa [Task.begins] using hk
        exact h.dependents n (.inr rfl) d hd
      · rw [hu] at hux
        cases hux
    · have hn : R n := h.concerns hu hux
      obtain ⟨d, hd, rfl⟩ | ⟨k, -, rfl⟩ | rfl | rfl := mem_destroyTasks.mp ht
      · exact h.dependents n (.inl hn) d hd
      · exact hn
      · exact hn
      · exact hn
  case guarded =>
    intro hx
    rw [Registry.contains_hooks_detach, Bool.and_eq_true] at hx
    have hnx : n ≠ x := by simpa using hx.1
    have hrest : Guarded x y rest := (h.guarded hx.2).resolve_left hnx
    by_cases hy : r.hooks.contains y = true ∧ n = y
    · -- the hook of `y` joins the tasks, and the destruction of `x` before it
      obtain ⟨hy, rfl⟩ := hy
      obtain hxy | hall := h.recorded hx.2 hy
      · rw [destroyTasks, List.append_assoc, List.append_assoc]
        refine guarded_append_of_mem ?_ (List.mem_map.mpr ⟨x, hxy, rfl⟩)
        simp
      · cases hall _ List.mem_cons_self
    · refine hrest.append fun k hk => ?_
      obtain ⟨d, -, hd⟩ | ⟨j, hj, hd⟩ | hd | hd := mem_destroyTasks.mp hk <;> cases hd
      exact hy ⟨by simp [Table.contains, hj], rfl⟩
  case passed =>
    intro hy
    obtain ⟨hx, hall⟩ := h.passed hy
    refine ⟨by rw [Registry.contains_hooks_detach, hx, Bool.and_false], fun t ht => ?_⟩
    rcases List.mem_append.mp ht with ht | ht
    · exact begins_ne_of_mem_destroyTasks hx ht
    · exact hall t (List.mem_cons_of_mem _ ht)

theorem hook {n : String} {k : v.Closure .hook} (h : InOrder x y R log r (.hook n k :: rest))
    (hy : ¬ R y) : InOrder x y R (log ++ [n]) r rest := by
  refine ⟨h.dependents, h.contained, ?recorded, h.resets.of_cons,
    fun m hm => h.scrubbed m (List.mem_cons_of_mem _ hm), h.between.of_cons,
    fun hx => (h.guarded hx).2, ?passed, ?order⟩
  case recorded =>
    intro hx hy
    refine (h.recorded hx hy).imp_right fun hall => ?_
    cases hall _ List.mem_cons_self
  case passed =>
    intro hlog
    rcases List.mem_append.mp hlog with hlog | hlog
    · obtain ⟨hx, hall⟩ := h.passed hlog
      exact ⟨hx, fun t ht => hall t (List.mem_cons_of_mem _ ht)⟩
    · -- the hook of `y` is begun: `x` has been destroyed, and its hook is not among the tasks
      obtain rfl : y = n := List.mem_singleton.mp hlog
      refine ⟨?_, fun t ht htx => hy (h.concerns ht htx)⟩
      refine Bool.eq_false_iff.mpr fun hx => ?_
      exact (h.guarded hx).1 rfl
  case order =>
    intro hsub
    obtain hsub | ⟨rfl, hlog⟩ := pair_sublist_concat.mp hsub
    · exact h.order hsub
    · exact (h.passed hlog).2 _ List.mem_cons_self rfl

theorem parts {n : String} (h : InOrder x y R log r (.parts n :: rest)) :
    InOrder x y R log (r.detachParts n) ((r.links.partsOf n).map .destroy ++ rest) := by
  have hdestroy {t : Task v} (ht : t ∈ (r.links.partsOf n).map .destroy) :
      ∃ d ∈ r.links.partsOf n, t = .destroy d := by
    obtain ⟨d, hd, rfl⟩ := List.mem_map.mp ht
    exact ⟨d, hd, rfl⟩
  refine ⟨h.dependents, fun a ha b hb => h.contained a ha b (Links.mem_partsOf_takeParts.mp hb).1,
    ?recorded, ?resets, ?scrubbed, ?between, ?guarded, ?passed, h.order⟩
  case recorded =>
    intro hx hy
    refine (h.recorded hx hy).imp_right fun hall => ?_
    cases hall _ List.mem_cons_self
  case resets =>
    refine List.pairwise_append.mpr ⟨?_, h.resets.of_cons, fun t ht u _ => ?_⟩
    · exact List.pairwise_map.mpr (List.pairwise_of_forall (by simp))
    · obtain ⟨d, -, rfl⟩ := hdestroy ht
      simp
  case scrubbed =>
    intro m hm
    rcases List.mem_append.mp hm with hm | hm
    · obtain ⟨d, -, hd⟩ := hdestroy hm
      cases hd
    · exact h.scrubbed m (List.mem_cons_of_mem _ hm)
  case between =>
    refine List.pairwise_append.mpr ⟨?_, h.between.of_cons, fun t ht u hu hux => ?_⟩
    · exact List.pairwise_map.mpr (List.pairwise_of_forall (by simp [Task.begins]))
    · obtain ⟨d, hd, rfl⟩ := hdestroy ht
      exact h.contained n (h.concerns hu hux) d hd
  case guarded =>
    intro hx
    refine Guarded.append (fun k hk => ?_) (h.guarded hx)
    obtain ⟨d, -, hd⟩ := hdestroy hk
    cases hd
  case passed =>
    intro hy
    obtain ⟨hx, hall⟩ := h.passed hy
    refine ⟨hx, fun t ht => ?_⟩
    rcases List.mem_append.mp ht with ht | ht
    · obtain ⟨d, -, rfl⟩ := hdestroy ht
      simp [Task.begins]
    · exact hall t (List.mem_cons_of_mem _ ht)

theorem scrub {n : String} (h : InOrder x y R log r (.scrub n :: rest)) :
    InOrder x y R log (r.scrub n) rest := by
  refine ⟨fun a ha b hb => h.dependents a ha b (Links.mem_dependentsOf_scrub.mp hb).1, h.contained,
    fun hx hy => ?recorded, h.resets.of_cons, fun m hm => h.scrubbed m (List.mem_cons_of_mem _ hm),
    h.between.of_cons, h.guarded, fun hy => ?passed, h.order⟩
  case recorded =>
    -- a name whose remaining records are withdrawn has no hook any more
    have hn : r.hooks.contains n = false := h.scrubbed n List.mem_cons_self
    have hnx : n ≠ x := by
      rintro rfl
      exact absurd (hn.symm.trans hx) (by simp)
    have hny : n ≠ y := by
      rintro rfl
      exact absurd (hn.symm.trans hy) (by simp)
    obtain hxy | hall := h.recorded hx hy
    · exact .inl (Links.mem_dependentsOf_scrub.mpr ⟨hxy, hny, fun hxn => hnx hxn.2.symm⟩)
    · cases hall _ List.mem_cons_self
  case passed =>
    obtain ⟨hx, hall⟩ := h.passed hy
    exact ⟨hx, fun t ht => hall t (List.mem_cons_of_mem _ ht)⟩

theorem reset (h : InOrder x y R log r (.reset :: rest)) : InOrder x y R log r.reset rest := by
  refine ⟨fun _ _ _ hb => (List.not_mem_nil hb).elim, fun _ _ _ hb => (List.not_mem_nil hb).elim,
    fun _ _ => .inr fun t ht => ?_,
    h.resets.of_cons, fun m hm => h.scrubbed m (List.mem_cons_of_mem _ hm), h.between.of_cons,
    h.guarded, fun hy => ?_, h.order⟩
  · exact List.rel_of_pairwise_cons h.resets ht rfl
  · obtain ⟨hx, hall⟩ := h.passed hy
    exact ⟨hx, fun t ht => hall t (List.mem_cons_of_mem _ ht)⟩

/-- Every task preserves the order. -/
theorem step {task : Task v} (h : InOrder x y R log r (task :: rest)) (hy : ¬ R y) :
    InOrder x y R (log ++ task.begins) (task.effect r) (task.subtasks r ++ rest) := by
  cases task with
  | hook n k => exact h.hook hy
  | destroy n =>
    rw [Task.begins, List.append_nil]
    exact h.destroy
  | parts n =>
    rw [Task.begins, List.append_nil]
    exact h.parts
  | scrub n =>
    rw [Task.begins, List.append_nil]
    exact h.scrub
  | reset =>
    rw [Task.begins, List.append_nil]
    exact h.reset

/-- A teardown begins in order. -/
theorem start {c : Teardown} (hxy : x ∈ r.links.dependentsOf y)
    (hR : ∀ z, R z ↔ ∃ d ∈ r.links.dependentsOf x, Relation.ReflTransGen r.links.Draws d z) :
    InOrder x y R [] (c.opened r) (c.tasks r) := by
  have hlinks : (c.opened r).links = r.links := by cases c <;> rfl
  have hbegins {t : Task v} (ht : t ∈ c.tasks r) : t.begins = [] := by
    cases c with
    | one n =>
      obtain rfl := List.mem_singleton.mp ht
      rfl
    | all =>
      obtain rfl | ⟨n, -, rfl⟩ : t = .reset ∨ ∃ n, n ∈ r.hooks.keys ∧ t = .destroy n := by
        simpa [tasks, or_comm, eq_comm] using ht
      · rfl
      · rfl
  refine ⟨?_, ?_, fun _ _ => .inl (hlinks ▸ hxy), ?_, ?_, ?_, fun _ => ?_,
    fun hy => (List.not_mem_nil hy).elim, by simp⟩
  · intro a ha b hb
    rw [hlinks] at hb
    rw [hR]
    obtain ha | rfl := ha
    · obtain ⟨d, hd, hda⟩ := (hR a).mp ha
      exact ⟨d, hd, hda.tail (.inl hb)⟩
    · exact ⟨b, hb, .refl⟩
  · intro a ha b hb
    rw [hlinks] at hb
    obtain ⟨d, hd, hda⟩ := (hR a).mp ha
    exact (hR b).mpr ⟨d, hd, hda.tail (.inr hb)⟩
  · cases c with
    | one n => exact List.pairwise_singleton ..
    | all =>
      refine List.pairwise_append.mpr ⟨?_, List.pairwise_singleton .., fun _ _ u hu _ => ?_⟩
      · exact List.pairwise_map.mpr (List.pairwise_of_forall (by simp))
      · exact List.mem_singleton.mp hu
  · intro n hn
    cases c <;> simp [tasks] at hn
  · refine List.pairwise_of_forall_mem_list fun t _ u hu hux => ?_
    rw [hbegins hu] at hux
    cases hux
  · have hnone : ∀ k, .hook y k ∉ c.tasks r := fun k hk => (List.cons_ne_nil _ _ (hbegins hk)).elim
    rw [← List.append_nil (c.tasks r)]
    exact Guarded.append hnone trivial

end InOrder

/-- The hook of a dependent that nothing overtakes is begun first, in every teardown. -/
theorem not_sublist_hookOrder {app : Application v} {B : v.Closure .block → Prop} {s : State v}
    {x y : String} (hq : app.QuietHooks B s.registry)
    (hxy : x ∈ s.registry.links.dependentsOf y) (h : ¬ s.registry.links.Overtakes y x)
    (c : Teardown) (k : Nat) : ¬ [y, x].Sublist (hookOrder app s c k) := by
  let R (z : String) : Prop := s.registry.links.Overtakes z x
  have hstep (log : List String) (r : v.Registry) (task : Task v) (rest : List (Task v))
      (hinv : InOrder x y R log r (task :: rest)) :
      InOrder x y R (log ++ task.begins) (task.effect r) (task.subtasks r ++ rest) :=
    hinv.step h
  have hstart : InOrder x y R [] (c.opened s.registry) (c.tasks s.registry) :=
    .start hxy fun z => Iff.rfl
  obtain ⟨r, todo, hinv⟩ := hookOrder_induction hstep c hq hstart k
  exact hinv.order

end Teardown

end Wiring
