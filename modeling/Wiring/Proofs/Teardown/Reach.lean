import Wiring.Proofs.Records.Change
import Wiring.Proofs.Teardown.Course
import Wiring.Proofs.Teardown.Order

/-!
# What a destruction takes along

The destruction of a component keeps no list of the components that it has passed. It withdraws
records while it follows them, and comes back to components that it has not finished with. All the
same it destroys every component that the records lead to, cycles or not: a record is withdrawn only
when its destination has been destroyed, or is going to be. Nothing else is touched.

## Main definitions

* `Wiring.Teardown.destroyed` and its relatives — the components that a list of tasks deals with.
* `Wiring.Registry.Forgets`, `Wiring.Registry.Without` — some components are gone from the registry,
  and the others are as they were.
* `Wiring.Teardown.Spreads` — what holds throughout the destruction of a component.

## Main results

* `Wiring.Teardown.Spreads.step` — every task preserves it.
* `Wiring.Teardown.mem_destroyed_courseOf` — the components that are destroyed along.
* `Wiring.destroy_exactly_reachable` — what the destruction of a component runs and leaves.
-/

namespace Wiring

variable {v : Vocabulary}

/-! ### What a list of tasks does -/

/-- The instances, names and hooks of the components in `R` are gone, and those of the others are as
they were, in the same order. -/
structure Registry.Forgets (r : v.Registry) (R : List String) (r' : v.Registry) : Prop where
  final? : ∀ m, r'.store.final? m = if m ∈ R then none else r.store.final? m
  early? : ∀ m, r'.store.early? m = if m ∈ R then none else r.store.early? m
  producer? : ∀ m, r'.store.producers.find? m = if m ∈ R then none else r.store.producers.find? m
  names : r'.store.names = r.store.names.filter (· ∉ R)
  hook? : ∀ m, r'.hooks.find? m = if m ∈ R then none else r.hooks.find? m
  hookNames : r'.hooks.keys = r.hooks.keys.filter (· ∉ R)
  options : r'.options = r.options
  marks : r'.marks = r.marks
  tearingDown : r'.tearingDown = r.tearingDown
  suppressed : r'.suppressed = r.suppressed

/-- The components in `R` are gone with all their records, and the others are as they were, except
that none of their dependents is in `R`. -/
structure Registry.Without (r : v.Registry) (R : List String) (r' : v.Registry) : Prop
    extends r.Forgets R r' where
  dependents : ∀ m, r'.links.dependentsOf m =
    if m ∈ R then [] else (r.links.dependentsOf m).filter (· ∉ R)
  dependencies : ∀ m, r'.links.dependenciesOf m =
    if m ∈ R then [] else r.links.dependenciesOf m
  parts : ∀ m, r'.links.partsOf m = if m ∈ R then [] else r.links.partsOf m

namespace Registry.Forgets

variable {r r' r'' : v.Registry} {R R' : List String}

theorem refl (r : v.Registry) : r.Forgets [] r := by
  constructor <;> simp

theorem trans (h : r.Forgets R r') (h' : r'.Forgets R' r'') : r.Forgets (R ++ R') r'' where
  final? m := by rw [h'.final?, h.final?]; by_cases m ∈ R <;> simp [*]
  early? m := by rw [h'.early?, h.early?]; by_cases m ∈ R <;> simp [*]
  producer? m := by rw [h'.producer?, h.producer?]; by_cases m ∈ R <;> simp [*]
  names := by rw [h'.names, h.names, List.filter_filter]; simp [Bool.and_comm]
  hook? m := by rw [h'.hook?, h.hook?]; by_cases m ∈ R <;> simp [*]
  hookNames := by rw [h'.hookNames, h.hookNames, List.filter_filter]; simp [Bool.and_comm]
  options := h'.options.trans h.options
  marks := h'.marks.trans h.marks
  tearingDown := h'.tearingDown.trans h.tearingDown
  suppressed := h'.suppressed.trans h.suppressed

theorem detach (r : v.Registry) (n : String) : r.Forgets [n] (r.detach n) where
  final? m := by simp [Registry.detach, Store.final?_remove, eq_comm]
  early? m := by simp [Registry.detach, Store.early?, Store.remove, Table.find?_erase, eq_comm]
  producer? m := by simp [Registry.detach, Store.remove, Table.find?_erase, eq_comm]
  names := by simp [Registry.detach, Store.names, Store.remove]
  hook? m := by simp [Registry.detach, Table.find?_erase, eq_comm]
  hookNames := by simp [Registry.detach]
  options := rfl
  marks := rfl
  tearingDown := rfl
  suppressed := rfl

end Registry.Forgets

namespace Teardown

/-- The components that are destroyed by the tasks of a list. -/
def destroyed (l : List (Task v)) : List String :=
  l.filterMap fun
    | .destroy n => some n
    | .hook .. | .parts _ | .scrub _ | .reset => none

/-- The components whose parts are taken by the tasks of a list. -/
def emptied (l : List (Task v)) : List String :=
  l.filterMap fun
    | .parts n => some n
    | .destroy _ | .hook .. | .scrub _ | .reset => none

/-- The components whose remaining records are withdrawn by the tasks of a list. -/
def scrubbed (l : List (Task v)) : List String :=
  l.filterMap fun
    | .scrub n => some n
    | .destroy _ | .hook .. | .parts _ | .reset => none

theorem mem_destroyed {l : List (Task v)} {m : String} : m ∈ destroyed l ↔ .destroy m ∈ l :=
  mem_filterMap_iff_of_eq_some fun t => by cases t <;> simp

theorem mem_emptied {l : List (Task v)} {m : String} : m ∈ emptied l ↔ .parts m ∈ l :=
  mem_filterMap_iff_of_eq_some fun t => by cases t <;> simp

theorem mem_scrubbed {l : List (Task v)} {m : String} : m ∈ scrubbed l ↔ .scrub m ∈ l :=
  mem_filterMap_iff_of_eq_some fun t => by cases t <;> simp

/-- The components that are destroyed are forgotten, and nothing else is. -/
theorem forgets_effects (r : v.Registry) {l : List (Task v)} (hl : .reset ∉ l) :
    r.Forgets (destroyed l) (effects r l) := by
  induction l generalizing r with
  | nil => exact .refl r
  | cons task l ih =>
    have hrest := ih (task.effect r) fun h => hl (List.mem_cons_of_mem _ h)
    cases task with
    | destroy n => exact (Registry.Forgets.detach r n).trans hrest
    | reset => exact absurd List.mem_cons_self hl
    | hook | parts | scrub => exact { hrest with }

/-- The edges that are left when the tasks of a list are done. -/
def edgesLeft (e : Edges) (l : List (Task v)) : Edges where
  needs := e.needs.filter fun p => p.1 ∉ destroyed l ∧ p.1 ∉ scrubbed l ∧ p.2 ∉ scrubbed l
  parts := e.parts.filter fun p => p.1 ∉ emptied l

theorem shows_effects {r : v.Registry} {e : Edges} (h : r.links.Shows e) {l : List (Task v)}
    (hl : .reset ∉ l) : (effects r l).links.Shows (edgesLeft e l) := by
  induction l generalizing r e with
  | nil => simpa [edgesLeft, destroyed, scrubbed, emptied, Pairs.filter] using h
  | cons task l ih =>
    have hrest {e' : Edges} (h' : (task.effect r).links.Shows e')
        (he : edgesLeft e' l = edgesLeft e (task :: l)) :
        (effects r (task :: l)).links.Shows (edgesLeft e (task :: l)) :=
      he ▸ ih h' fun hmem => hl (List.mem_cons_of_mem _ hmem)
    cases task with
    | destroy n =>
      refine hrest (h.takeDependents n) (congrArg₂ Edges.mk (Pairs.filter_filter fun p => ?_) rfl)
      have hdestroyed : destroyed (.destroy n :: l) = n :: destroyed l := rfl
      have hscrubbed : scrubbed (.destroy n :: l) = scrubbed l := rfl
      simp [hdestroyed, hscrubbed, and_assoc]
    | hook n k => exact hrest h rfl
    | parts n =>
      refine hrest (h.takeParts n) (congrArg₂ Edges.mk rfl (Pairs.filter_filter fun p => ?_))
      have hemptied : emptied (.parts n :: l) = n :: emptied l := rfl
      simp [hemptied]
    | scrub n =>
      refine hrest (h.scrub n) (congrArg₂ Edges.mk (Pairs.filter_filter fun p => ?_) rfl)
      have hdestroyed : destroyed (.scrub n :: l) = destroyed l := rfl
      have hscrubbed : scrubbed (.scrub n :: l) = n :: scrubbed l := rfl
      simp [hdestroyed, hscrubbed]
      tauto
    | reset => exact absurd List.mem_cons_self hl

/-! ### Throughout a destruction -/

/-- What holds throughout a destruction that takes along components in `R` only. It began with the
registry `r₀`, the tasks in `past` are done, and those in `todo` are left. -/
structure Spreads (R : String → Prop) (r₀ : v.Registry) (past : List (Task v)) (r : v.Registry)
    (todo : List (Task v)) : Prop where
  registry : r = effects r₀ past
  concerns : ∀ t ∈ past ++ todo, t.Concerns R
  /-- What a destroyed component had for dependents at first is destroyed, or is going to be. -/
  dependents : ∀ a b, .destroy a ∈ past → b ∈ r₀.links.dependentsOf a → .destroy b ∈ past ++ todo
  contained : ∀ a b, .parts a ∈ past → b ∈ r₀.links.partsOf a → .destroy b ∈ past ++ todo
  hooks : ∀ a h, .hook a h ∈ past ++ todo ↔ .destroy a ∈ past ∧ r₀.hooks.find? a = some h
  parts : ∀ a, .parts a ∈ past ++ todo ↔ .destroy a ∈ past
  scrubs : ∀ a, .scrub a ∈ past ++ todo ↔ .destroy a ∈ past
  once : (((past ++ todo).filterMap Task.hook?).map Prod.fst).Nodup

/-- A task that is taken up is done, and its subtasks join those that are left. -/
theorem perm_step (past rest : List (Task v)) (r : v.Registry) (task : Task v) :
    (past ++ [task] ++ (task.subtasks r ++ rest)).Perm
      (past ++ task :: rest ++ task.subtasks r) := by
  have hcons : past ++ task :: rest = past ++ [task] ++ rest := List.append_cons ..
  rw [hcons, List.append_assoc (past ++ [task]) rest]
  exact List.perm_append_comm.append_left _

namespace Spreads

variable {R : String → Prop} {r₀ r : v.Registry} {e : Edges} {past todo rest : List (Task v)}
  {task : Task v}

theorem start (n : String) (hR : R n) : Spreads R r₀ [] r₀ [.destroy n] := by
  constructor
  case once => exact List.nodup_nil
  all_goals simp [Task.Concerns, hR]

theorem reset_notMem (h : Spreads R r₀ past r todo) : .reset ∉ past := fun hmem =>
  h.concerns _ (List.mem_append_left _ hmem)

theorem mem_dependentsOf (h : Spreads R r₀ past r todo) (he : r₀.links.Shows e) {a b : String} :
    b ∈ r.links.dependentsOf a ↔ b ∈ r₀.links.dependentsOf a ∧
      .destroy a ∉ past ∧ .scrub a ∉ past ∧ .scrub b ∉ past := by
  rw [h.registry, (shows_effects he h.reset_notMem).mem_dependentsOf, he.mem_dependentsOf,
    edgesLeft, Pairs.mem_filter, decide_eq_true_eq, mem_destroyed, mem_scrubbed, mem_scrubbed]

theorem mem_partsOf (h : Spreads R r₀ past r todo) (he : r₀.links.Shows e) {a b : String} :
    b ∈ r.links.partsOf a ↔ b ∈ r₀.links.partsOf a ∧ .parts a ∉ past := by
  rw [h.registry, (shows_effects he h.reset_notMem).mem_partsOf, he.mem_partsOf, edgesLeft,
    Pairs.mem_filter, decide_eq_true_eq, mem_emptied]

theorem find?_hooks (h : Spreads R r₀ past r todo) {a : String} {k : v.Closure .hook} :
    r.hooks.find? a = some k ↔ .destroy a ∉ past ∧ r₀.hooks.find? a = some k := by
  rw [h.registry, (forgets_effects r₀ h.reset_notMem).hook?, ← mem_destroyed]
  split <;> simp [*]

/-- Every task preserves it, where `R` is closed under what is drawn along. -/
theorem step (h : Spreads R r₀ past r (task :: rest)) (he : r₀.links.Shows e)
    (hR : ∀ a b, R a → r₀.links.Draws a b → R b) :
    Spreads R r₀ (past ++ [task]) (task.effect r) (task.subtasks r ++ rest) := by
  have hmem {t : Task v} : t ∈ past ++ [task] ++ (task.subtasks r ++ rest) ↔
      t ∈ past ++ task :: rest ∨ t ∈ task.subtasks r :=
    (perm_step past rest r task).mem_iff.trans List.mem_append
  have hpast {t : Task v} : t ∈ past ++ [task] ↔ t ∈ past ∨ task = t := by
    simp [eq_comm]
  have hnow : task ∈ past ++ task :: rest := by simp
  constructor
  case registry => rw [effects_append, ← h.registry]; rfl
  case concerns =>
    intro t ht
    obtain ht | ht := hmem.mp ht
    · exact h.concerns t ht
    · have htask := h.concerns task hnow
      cases t with
      | destroy d =>
        obtain ⟨n, ⟨rfl, hd⟩ | ⟨rfl, hd⟩⟩ := Task.destroy_mem_subtasks.mp ht
        · exact hR n d htask (.inl ((h.mem_dependentsOf he).mp hd).1)
        · exact hR n d htask (.inr ((h.mem_partsOf he).mp hd).1)
      | hook n k =>
        obtain ⟨rfl, -⟩ := Task.hook_mem_subtasks.mp ht
        exact htask
      | parts n =>
        obtain rfl := Task.parts_mem_subtasks.mp ht
        exact htask
      | scrub n =>
        obtain rfl := Task.scrub_mem_subtasks.mp ht
        exact htask
      | reset => cases task <;> simp [Task.subtasks, mem_destroyTasks] at ht
  case dependents =>
    intro a b ha hb
    rw [hmem]
    obtain ha | rfl := hpast.mp ha
    · exact .inl (h.dependents a b ha hb)
    · -- the record is still there, unless it was withdrawn for a reason that settles the matter
      by_cases hdone : .destroy a ∈ past
      · exact .inl (h.dependents a b hdone hb)
      · by_cases hgone : .scrub b ∈ past
        · have hdestroyed := (h.scrubs b).mp (List.mem_append_left _ hgone)
          exact .inl (List.mem_append_left _ hdestroyed)
        · have hscrub : .scrub a ∉ past := fun hs =>
            hdone ((h.scrubs a).mp (List.mem_append_left _ hs))
          have hrecorded := (h.mem_dependentsOf he).mpr ⟨hb, hdone, hscrub, hgone⟩
          exact .inr (Task.destroy_mem_subtasks.mpr ⟨a, .inl ⟨rfl, hrecorded⟩⟩)
  case contained =>
    intro a b ha hb
    rw [hmem]
    obtain ha | rfl := hpast.mp ha
    · exact .inl (h.contained a b ha hb)
    · by_cases hdone : .parts a ∈ past
      · exact .inl (h.contained a b hdone hb)
      · have hrecorded := (h.mem_partsOf he).mpr ⟨hb, hdone⟩
        exact .inr (Task.destroy_mem_subtasks.mpr ⟨a, .inr ⟨rfl, hrecorded⟩⟩)
  case hooks =>
    intro a k
    rw [hmem, h.hooks, Task.hook_mem_subtasks, h.find?_hooks, hpast]
    tauto
  case parts =>
    intro a
    rw [hmem, h.parts, Task.parts_mem_subtasks, hpast]
  case scrubs =>
    intro a
    rw [hmem, h.scrubs, Task.scrub_mem_subtasks, hpast]
  case once =>
    have hperm := ((perm_step past rest r task).filterMap Task.hook?).map Prod.fst
    rw [hperm.nodup_iff, List.filterMap_append, List.map_append, List.nodup_append]
    refine ⟨h.once, nodup_hooks_subtasks r task, fun m hm m' hm' hmm' => ?_⟩
    subst hmm'
    obtain ⟨⟨a, k⟩, hk, rfl⟩ := List.mem_map.mp hm
    obtain ⟨⟨a', k'⟩, hk', haa'⟩ := List.mem_map.mp hm'
    obtain rfl : a' = a := haa'
    -- a component whose hook has been among the tasks has been destroyed, and has no hook stored
    have hdestroyed := ((h.hooks a' k).mp (mem_filterMap_hook?.mp hk)).1
    have hstored := (Task.hook_mem_subtasks.mp (mem_filterMap_hook?.mp hk')).2
    exact (h.find?_hooks.mp hstored).1 hdestroyed

end Spreads

/-! ### At the end of a destruction -/

section

variable {r : v.Registry} {e : Edges} (he : r.links.Shows e) (n : String)

include he

theorem spreads_courseOf :
    Spreads (Relation.ReflTransGen r.links.Draws n) r (courseOf r (.one n))
      (effects r (courseOf r (.one n))) [] :=
  course_induction (P := Spreads (Relation.ReflTransGen r.links.Draws n) r)
    (fun _ _ _ _ h => h.step he fun _ _ ha hab => ha.tail hab) (.start n .refl)

/-- What is destroyed along with `n` is what the records lead to from `n`. -/
theorem mem_destroyed_courseOf {m : String} :
    m ∈ destroyed (courseOf r (.one n)) ↔ Relation.ReflTransGen r.links.Draws n m := by
  have h := spreads_courseOf he n
  rw [mem_destroyed]
  refine ⟨fun hm => h.concerns _ (List.mem_append_left _ hm), fun hm => ?_⟩
  have hdone {t : Task v} (ht : t ∈ courseOf r (.one n) ++ []) : t ∈ courseOf r (.one n) := by
    rwa [List.append_nil] at ht
  induction hm with
  | refl =>
    rw [courseOf, tasks, course_cons]
    exact List.mem_cons_self
  | tail _ hab ih =>
    obtain hb | hb := hab
    · exact hdone (h.dependents _ _ ih hb)
    · exact hdone (h.contained _ _ (hdone ((h.parts _).mpr ih)) hb)

/-- The destruction of `n` leaves the registry without what the records lead to from `n`. -/
theorem without_courseOf :
    r.Without (destroyed (courseOf r (.one n))) (effects r (courseOf r (.one n))) := by
  have h := spreads_courseOf he n
  have hshows := shows_effects he h.reset_notMem
  have hscrubbed (m : String) :
      m ∈ scrubbed (courseOf r (.one n)) ↔ m ∈ destroyed (courseOf r (.one n)) := by
    rw [mem_scrubbed, mem_destroyed, ← h.scrubs, List.append_nil]
  have hemptied (m : String) :
      m ∈ emptied (courseOf r (.one n)) ↔ m ∈ destroyed (courseOf r (.one n)) := by
    rw [mem_emptied, mem_destroyed, ← h.parts, List.append_nil]
  refine { forgets_effects r h.reset_notMem with
    dependents := fun m => ?_, dependencies := fun m => ?_, parts := fun m => ?_ }
  · rw [hshows.dependents, edgesLeft, Pairs.under_filter, ← he.dependents]
    by_cases hm : m ∈ destroyed (courseOf r (.one n)) <;> simp [hscrubbed, hm]
  · rw [hshows.dependencies, edgesLeft, Pairs.above_filter, ← he.dependencies]
    by_cases hm : m ∈ destroyed (courseOf r (.one n))
    · simp [hscrubbed, hm]
    · -- what `m` depends on has not been destroyed, or `m` would have been, too
      rw [if_neg hm, List.filter_eq_self]
      intro a ha
      have hdraws : r.links.Draws a m :=
        .inl (he.mem_dependentsOf.mpr (he.mem_dependenciesOf.mp ha))
      have hna : a ∉ destroyed (courseOf r (.one n)) := fun hna =>
        hm ((mem_destroyed_courseOf he n).mpr (((mem_destroyed_courseOf he n).mp hna).tail hdraws))
      simp [hscrubbed, hm, hna]
  · rw [hshows.parts, edgesLeft, Pairs.under_filter, ← he.parts]
    by_cases hm : m ∈ destroyed (courseOf r (.one n)) <;> simp [hemptied, hm]

end

end Teardown

/-- **What the destruction of a component runs and leaves.** Some programs have run for a while on a
fresh registry, whatever they have recorded, and the hooks that are stored are discreet: they make
no request, and return or panic in the end. A thread calls for the destruction of `n`, whatever else
it is in the middle of. Then the destruction comes to an end, and the code that called for it goes
on. Let `R` be the components that the records lead to from `n`, from a component to its dependents
and to its parts.

* The hooks that are run are those that were stored for components in `R`, each of them once. They
  are the hooks that the thread gets into on the way.
* The components in `R` are gone: they have no instance in any tier, are not registered, have no
  hook, no dependents, no dependencies and no parts, and nobody has them for a dependent.
* The other components have the instances, the hooks, the dependencies and the parts that they had,
  and of their dependents those that are left, all in the same order as before. -/
theorem destroy_exactly_reachable (app : Application v) (o : Options) (w : v.World)
    (programs : List (Code v Unit)) (schedule : List Nat)
    (hd : ∀ m h, (Pool.reached app o w programs schedule).state.registry.hooks.find? m = some h →
      app.Discreet h)
    (n : String) {g : Goal} (next : Code v (g.Result v.Inst)) (stack : Stack v g) :
    let s := (Pool.reached app o w programs schedule).state
    let c := (s, Thread.exec (.destroy n next) stack)
    ∃ (R : List String) (k : Nat) (s' : State v),
      (∀ m, m ∈ R ↔ Relation.ReflTransGen s.registry.links.Draws n m) ∧
      EndsAfter app c k ∧ run app k c = (s', .exec next stack) ∧
      EntersHooks app k c (hooksRun app k c) ∧
      ((hooksRun app k c).map Prod.fst).Nodup ∧
      (∀ m h, (m, h) ∈ hooksRun app k c ↔ m ∈ R ∧ s.registry.hooks.find? m = some h) ∧
      s.registry.Without R s'.registry := by
  intro s c
  obtain ⟨e, he⟩ := Pool.shows_reached app o w programs schedule
  obtain ⟨k, s', hend, hrun, htaken, hr'⟩ := Teardown.ends_of_discreet hd (.one n) next stack
  have hspreads := Teardown.spreads_courseOf he n
  have hhooks : hooksRun app k c = ((Teardown.one n).courseOf s.registry).filterMap Task.hook? :=
    congrArg (List.filterMap Task.hook?) htaken
  refine ⟨_, k, s', fun m => Teardown.mem_destroyed_courseOf he n, hend, hrun,
    entersHooks_hooksRun app k c, ?_, fun m h => ?_, ?_⟩
  · rw [hhooks, ← List.append_nil ((Teardown.one n).courseOf s.registry)]
    exact hspreads.once
  · rw [hhooks, mem_filterMap_hook?, Teardown.mem_destroyed, ← hspreads.hooks, List.append_nil]
  · rw [hr']
    exact Teardown.without_courseOf he n

/-! ### A circle, and what hangs on it -/

namespace Sample

/-- Components "a" and "b" that depend on each other, "a" also on itself, and "c", which is a part
of "b". Both "a" and "y" depend on "x". -/
def circleMain : Code vocabulary Unit := do
  let _ ← .ask (.storeHook "x" "")
  let _ ← .ask (.storeHook "a" "")
  let _ ← .ask (.storeHook "c" "")
  let _ ← .ask (.depend "a" "b")
  let _ ← .ask (.depend "a" "a")
  let _ ← .ask (.depend "b" "a")
  let _ ← .ask (.contain "c" "b")
  let _ ← .ask (.depend "x" "a")
  let _ ← .ask (.depend "x" "y")

/-- The state after that program. -/
def circle : State vocabulary :=
  (Pool.reached idle .default () [circleMain] (List.replicate 9 0)).state

/-- The destruction of "a" runs the hook of "c". It leaves "x" its hook and its other dependent. -/
theorem destroy_exactly_reachable_circle :
    (∀ m h, circle.registry.hooks.find? m = some h → idle.Discreet h) ∧
    ∃ (k : Nat) (s' : State vocabulary),
      EndsAfter idle (circle, .exec (g := .main) (.destroy "a" (.done ())) .top) k ∧
      run idle k (circle, .exec (g := .main) (.destroy "a" (.done ())) .top) =
        (s', .exec (.done ()) .top) ∧
      ("c", "") ∈ hooksRun idle k (circle, .exec (g := .main) (.destroy "a" (.done ())) .top) ∧
      s'.registry.hooks.keys = ["x"] ∧ s'.registry.links.dependentsOf "x" = ["y"] := by
  obtain ⟨R, k, s', hR, hend, hrun, -, -, hhooks, hwithout⟩ := destroy_exactly_reachable idle .default
    () [circleMain] (List.replicate 9 0) (fun _ h _ => discreet_idle h) "a" (g := .main) (.done ())
    .top
  have hab : Relation.ReflTransGen circle.registry.links.Draws "a" "b" := .single (.inl (by decide))
  have ha : "a" ∈ R := (hR "a").mpr .refl
  have hc : "c" ∈ R := (hR "c").mpr (hab.tail (.inr (by decide)))
  have hsub : ∀ m ∈ R, m ∈ ["a", "b", "c"] := by
    have hdependents : ∀ a ∈ ["a", "b", "c"], ∀ b ∈ circle.registry.links.dependentsOf a,
        b ∈ ["a", "b", "c"] := by decide
    have hparts : ∀ a ∈ ["a", "b", "c"], ∀ b ∈ circle.registry.links.partsOf a,
        b ∈ ["a", "b", "c"] := by decide
    intro m hm
    have hpath := (hR m).mp hm
    clear hm
    induction hpath with
    | refl => exact List.mem_cons_self
    | tail _ hab ih => exact hab.elim (hdependents _ ih _) (hparts _ ih _)
  have hx : "x" ∉ R := fun hx => absurd (hsub "x" hx) (by decide)
  have hy : "y" ∉ R := fun hy => absurd (hsub "y" hy) (by decide)
  have hleft : circle.registry.Without R s'.registry := hwithout
  have hkeys : circle.registry.hooks.keys = ["x", "a", "c"] := by decide
  have hdependents : circle.registry.links.dependentsOf "x" = ["a", "y"] := by decide
  refine ⟨fun _ h _ => discreet_idle h, k, s', hend, hrun, (hhooks "c" "").mpr ⟨hc, rfl⟩, ?_, ?_⟩
  · simp [hleft.hookNames, hkeys, ha, hc, hx]
  · simp [hleft.dependents, hdependents, ha, hx, hy]

end Sample

end Wiring
