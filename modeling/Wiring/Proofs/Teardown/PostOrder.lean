import Mathlib.Data.List.Permutation
import Wiring.Proofs.Records.Edges
import Wiring.Proofs.Teardown.Course

/-!
# A teardown is a depth-first walk

Where nothing contains anything, a teardown begins hooks in the order of a textbook walk: depth
first, dependents before what they depend on, no component twice. The walk reads the records as they
were when the teardown began, and remembers what it has seen. The teardown remembers nothing. It
withdraws records as it goes, and what it meets again has no dependents and no hook any more. So
what the walk has seen is what the teardown has emptied, and the records of everything else differ
from those at the beginning by what has been seen only.

## Main definitions

* `Wiring.Links.postOrder` — the walk.
* `Wiring.Teardown.Agrees` — the registry in the middle of a teardown and the walk agree.

## Main results

* `Wiring.Teardown.visits_postOrder` — destroying some components keeps in step with the walk.
* `Wiring.Teardown.hooks_in_postOrder` — the hooks that a teardown runs, in order.
-/

namespace Wiring

variable {v : Vocabulary}

/-! ### The walk -/

namespace Links

theorem length_unseen_append_le (t : Table String Names) (l seen : List String) :
    (unseen t (l ++ seen)).length ≤ (unseen t seen).length := by
  induction l with
  | nil => exact Nat.le_refl _
  | cons n l ih => exact Nat.le_trans (length_unseen_cons_le t (l ++ seen) n) ih

/-- The components that a depth-first walk passes from those in `visit` on, leaving out those in
`seen`: each one comes after its dependents, which are visited in the order of recording. -/
def postOrder (g : Links) (visit seen : List String) : List String :=
  match visit with
  | [] => []
  | n :: rest =>
    if n ∈ seen then postOrder g rest seen
    else
      postOrder g (g.dependentsOf n) (n :: seen) ++
        n :: postOrder g rest (postOrder g (g.dependentsOf n) (n :: seen) ++ n :: seen)
termination_by ((unseen g.dependents seen).length, visit.length)
decreasing_by
  · exact Prod.Lex.right _ (Nat.lt_succ_self _)
  · by_cases hn : n ∈ g.dependents.keys
    · exact Prod.Lex.left _ _ (length_unseen_cons_lt hn ‹n ∉ seen›)
    · -- a component without an entry has no dependents
      have hnone : g.dependentsOf n = [] := by
        rw [Table.mem_keys_iff, Option.not_isSome_iff_eq_none] at hn
        rw [dependentsOf, namesAt, hn]
        rfl
      rw [hnone]
      exact Prod.Lex.right' _ (length_unseen_cons_le g.dependents seen n) (Nat.succ_pos _)
  · refine Prod.Lex.right' _ ?_ (Nat.lt_succ_self _)
    exact Nat.le_trans (length_unseen_append_le g.dependents _ (n :: seen))
      (length_unseen_cons_le g.dependents seen n)

end Links

/-- The hooks of the components in a list, in its order. -/
def Hooks.along {η : Type} (hooks : Hooks η) (l : List String) : List (String × η) :=
  l.filterMap fun n => (hooks.find? n).map (n, ·)

theorem Hooks.along_append {η : Type} (hooks : Hooks η) (l l' : List String) :
    hooks.along (l ++ l') = hooks.along l ++ hooks.along l' :=
  List.filterMap_append

namespace Teardown

/-! ### Agreement -/

/-- In the middle of a teardown that began with the records `g` and with `hooks`, the registry
agrees with a walk that has seen the components in `seen`. -/
structure Agrees (g : Links) (hooks : Hooks (v.Closure .hook)) (seen : List String)
    (r : v.Registry) : Prop where
  emptied : ∀ n ∈ seen, r.links.dependentsOf n = []
  dependents : ∀ n ∉ seen,
    (r.links.dependentsOf n).filter (· ∉ seen) = (g.dependentsOf n).filter (· ∉ seen)
  hook? : ∀ n, r.hooks.find? n = if n ∈ seen then none else hooks.find? n
  parts : ∀ n, r.links.partsOf n = []

theorem filter_notMem_of_subset {l l' seen seen' : List String}
    (h : l.filter (· ∉ seen) = l'.filter (· ∉ seen)) (hsub : seen ⊆ seen') :
    l.filter (· ∉ seen') = l'.filter (· ∉ seen') := by
  have hfilter (l : List String) :
      l.filter (· ∉ seen') = (l.filter (· ∉ seen)).filter (· ∉ seen') := by
    rw [List.filter_filter]
    refine List.filter_congr fun m _ => ?_
    by_cases hm : m ∈ seen
    · simp [hsub hm]
    · simp [hm]
  rw [hfilter l, h, ← hfilter l']

namespace Agrees

variable {g : Links} {hooks : Hooks (v.Closure .hook)} {seen seen' : List String} {r : v.Registry}

theorem congr (h : Agrees g hooks seen r) (hseen : ∀ n, n ∈ seen' ↔ n ∈ seen) :
    Agrees g hooks seen' r := by
  obtain ⟨hemptied, hdependents, hhook, hparts⟩ := h
  refine ⟨fun n hn => hemptied n ((hseen n).mp hn), fun n hn => ?_, fun n => ?_, hparts⟩
  · simpa only [hseen] using hdependents n fun h => hn ((hseen n).mpr h)
  · simpa only [hseen] using hhook n

theorem start (r : v.Registry) (hparts : ∀ n, r.links.partsOf n = []) (c : Teardown) :
    Agrees r.links r.hooks [] (c.opened r) := by
  have hlinks : (c.opened r).links = r.links := by cases c <;> rfl
  have hhooks : (c.opened r).hooks = r.hooks := by cases c <;> rfl
  constructor <;> simp [hlinks, hhooks, hparts]

/-- When the destruction of a component begins, the walk has seen it. -/
theorem detach (h : Agrees g hooks seen r) (n : String) :
    Agrees g hooks (n :: seen) (r.detach n) := by
  have hdependents (m : String) :
      (r.detach n).links.dependentsOf m = if n = m then [] else r.links.dependentsOf m :=
    Links.toList_namesAt_erase m
  refine ⟨fun m hm => ?_, fun m hm => ?_, fun m => ?_, h.parts⟩
  · rw [hdependents]
    split
    · rfl
    · next hne => exact h.emptied m ((List.mem_cons.mp hm).resolve_left (Ne.symm hne))
  · obtain ⟨hne, hm⟩ := not_or.mp (mt List.mem_cons.mpr hm)
    rw [hdependents, if_neg (Ne.symm hne)]
    exact filter_notMem_of_subset (h.dependents m hm) (List.subset_cons_self n seen)
  · rw [Registry.detach, Table.find?_erase, h.hook?]
    by_cases hnm : n = m
    · simp [hnm]
    · simp [hnm, Ne.symm hnm]

theorem detachParts (h : Agrees g hooks seen r) (n : String) :
    Agrees g hooks seen (r.detachParts n) := by
  refine ⟨h.emptied, h.dependents, h.hook?, fun m => ?_⟩
  refine (Links.toList_namesAt_erase m).trans ?_
  split
  · rfl
  · exact h.parts m

/-- To withdraw the remaining records of a component that was seen makes no difference. -/
theorem scrub (h : Agrees g hooks seen r) {n : String} (hn : n ∈ seen) :
    Agrees g hooks seen (r.scrub n) := by
  have htaken (m : String) :
      (r.links.takeDependents n).2.dependentsOf m = r.links.dependentsOf m := by
    refine (Links.toList_namesAt_erase m).trans ?_
    split
    · next hnm => exact (h.emptied m (hnm ▸ hn)).symm
    · rfl
  have hscrub (m : String) : (r.scrub n).links.dependentsOf m =
      if m ∈ (r.links.takeDependents n).2.dependenciesOf n then
        (r.links.dependentsOf m).filter (· ≠ n)
      else r.links.dependentsOf m := by
    rw [← htaken m]
    exact Links.toList_namesAt_unlinkAll m
  refine ⟨fun m hm => ?_, fun m hm => ?_, h.hook?, h.parts⟩
  · rw [hscrub, h.emptied m hm]
    split <;> rfl
  · rw [← h.dependents m hm, hscrub]
    split
    · rw [List.filter_filter]
      refine List.filter_congr fun a _ => ?_
      by_cases ha : a = n
      · simp [ha, hn]
      · simp [ha]
    · rfl

end Agrees

/-! ### Keeping in step -/

/-- The tasks in `todo` begin the hooks in `log`, and the registry that they leave agrees with a
walk that has seen the components in `seen`. -/
structure Visits (g : Links) (hooks : Hooks (v.Closure .hook)) (r : v.Registry)
    (todo : List (Task v)) (log : List (String × v.Closure .hook)) (seen : List String) :
    Prop where
  log : (course r todo).filterMap Task.hook? = log
  agrees : Agrees g hooks seen (effects r (course r todo))

namespace Visits

variable {g : Links} {hooks : Hooks (v.Closure .hook)} {seen seen' : List String} {r : v.Registry}
  {todo todo' : List (Task v)} {log log' : List (String × v.Closure .hook)} {n : String}

theorem nil (h : Agrees g hooks seen r) : Visits g hooks r [] [] seen :=
  ⟨by simp, by simpa using h⟩

theorem append (h : Visits g hooks r todo log seen)
    (h' : Visits g hooks (effects r (course r todo)) todo' log' seen') :
    Visits g hooks r (todo ++ todo') (log ++ log') seen' where
  log := by rw [course_append, List.filterMap_append, h.log, h'.log]
  agrees := by
    rw [course_append, effects_append]
    exact h'.agrees

theorem destroy (h : Visits g hooks (r.detach n) (destroyTasks r n) log seen) :
    Visits g hooks r [.destroy n] log seen := by
  have hcourse : course r [.destroy n] = .destroy n :: course (r.detach n) (destroyTasks r n) := by
    rw [course_cons, List.append_nil]
    rfl
  exact ⟨by rw [hcourse]; exact h.log, by rw [hcourse]; exact h.agrees⟩

theorem hook (h : Agrees g hooks seen r) (n : String) :
    Visits g hooks r ((hooks.find? n).toList.map (.hook n)) (hooks.along [n]) seen := by
  cases hk : hooks.find? n with
  | none => exact ⟨by simp [Hooks.along, hk], by simpa using h⟩
  | some k => exact ⟨by simp [course_cons, Task.subtasks, Task.hook?, Hooks.along, hk],
      by simpa [course_cons, Task.subtasks, Task.effect] using h⟩

/-- The last tasks of a destruction, where there are no parts. -/
theorem close (h : Agrees g hooks seen r) (hn : n ∈ seen) :
    Visits g hooks r [.parts n, .scrub n] [] seen := by
  have hcourse : course r [.parts n, .scrub n] = [.parts n, .scrub n] := by
    simp [course_cons, Task.subtasks, h.parts]
  exact ⟨by rw [hcourse]; rfl, by rw [hcourse]; exact (h.detachParts n).scrub hn⟩

/-- To destroy components that were seen makes no difference. -/
theorem revisit (h : Agrees g hooks seen r) {l : List String} (hl : ∀ n ∈ l, n ∈ seen) :
    Visits g hooks r (l.map .destroy) [] seen := by
  induction l generalizing r with
  | nil => exact .nil h
  | cons n l ih =>
    have hn := hl n List.mem_cons_self
    have htasks : destroyTasks r n = [.parts n, .scrub n] := by
      simp [destroyTasks, h.emptied n hn, h.hook?, hn]
    have hdetached : Agrees g hooks seen (r.detach n) := (h.detach n).congr (by simp [hn])
    have hfirst : Visits g hooks r [.destroy n] [] seen := .destroy (htasks ▸ .close hdetached hn)
    exact hfirst.append (ih hfirst.agrees fun m hm => hl m (List.mem_cons_of_mem _ hm))

/-- The destruction of a component that was not seen keeps in step with the walk if the destruction
of its dependents does. -/
theorem enter (h : Agrees g hooks seen r) (hn : n ∉ seen) (hn' : n ∈ seen')
    (hbelow : Visits g hooks (r.detach n) ((r.links.dependentsOf n).map .destroy) log seen') :
    Visits g hooks r [.destroy n] (log ++ hooks.along [n]) seen' := by
  have hown := hbelow.append (.hook hbelow.agrees n)
  have hlast := hown.append (.close hown.agrees hn')
  rw [List.append_nil] at hlast
  refine .destroy ?_
  rwa [destroyTasks, h.hook?, if_neg hn]

end Visits

/-- The destruction of some components keeps in step with a walk from them, where a name on either
list that was seen makes no difference. -/
theorem visits_postOrder {g : Links} {hooks : Hooks (v.Closure .hook)} (visit seen : List String)
    {r : v.Registry} (h : Agrees g hooks seen r) {l : List String}
    (hl : l.filter (· ∉ seen) = visit.filter (· ∉ seen)) :
    Visits g hooks r (l.map .destroy) (hooks.along (g.postOrder visit seen))
      (g.postOrder visit seen ++ seen) := by
  fun_induction Links.postOrder g visit seen generalizing r l with
  | case1 seen =>
    refine .revisit h fun n hn => ?_
    simpa using List.filter_eq_nil_iff.mp hl n hn
  | case2 seen n rest hn ih =>
    refine ih h (hl.trans ?_)
    simp [hn]
  | case3 seen n rest hn ihbelow ihrest =>
    rw [List.filter_cons_of_pos (by simpa using hn)] at hl
    obtain ⟨l₁, l₂, rfl, hl₁, -, hl₂⟩ := List.filter_eq_cons_iff.mp hl
    -- what comes before `n` on the list was seen
    have hbefore : Visits g hooks r (l₁.map .destroy) [] seen :=
      .revisit h fun m hm => by simpa using hl₁ m hm
    -- then `n` is destroyed along with what was not seen of its dependents
    have hbelow := ihbelow (hbefore.agrees.detach n)
      (filter_notMem_of_subset (hbefore.agrees.dependents n hn) (List.subset_cons_self n seen))
    generalize g.postOrder (g.dependentsOf n) (n :: seen) = below at hbelow ihrest ⊢
    have hself : n ∈ below ++ n :: seen := by simp
    have hfirst := hbefore.append (.enter hbefore.agrees hn hself hbelow)
    -- after that come the others
    have hsub : seen ⊆ below ++ n :: seen := fun m hm => by simp [hm]
    have hall := hfirst.append (ihrest hfirst.agrees (filter_notMem_of_subset hl₂ hsub))
    have hlog : hooks.along (below ++ n :: g.postOrder rest (below ++ n :: seen)) =
        [] ++ (hooks.along below ++ hooks.along [n]) ++
          hooks.along (g.postOrder rest (below ++ n :: seen)) := by
      rw [← Hooks.along_append, List.nil_append, ← Hooks.along_append, List.append_assoc]
      rfl
    have htodo : (l₁ ++ n :: l₂).map (.destroy : String → Task v) =
        l₁.map .destroy ++ [.destroy n] ++ l₂.map .destroy := by simp
    rw [hlog, htodo]
    refine ⟨hall.log, hall.agrees.congr fun m => ?_⟩
    simp only [List.mem_append, List.mem_cons]
    tauto

/-- The components that a teardown is called for, the first one first. -/
def roots (r : v.Registry) : Teardown → List String
  | .one n => [n]
  | .all => r.hooks.keys.reverse

/-- The hooks on the course of a teardown. -/
theorem hooks_courseOf {r : v.Registry} (hparts : ∀ n, r.links.partsOf n = []) (c : Teardown) :
    (c.courseOf r).filterMap Task.hook? = r.hooks.along (r.links.postOrder (c.roots r) []) := by
  have hroots := visits_postOrder (c.roots r) [] (.start r hparts c) rfl
  cases c with
  | one n => exact hroots.log
  | all =>
    have hcourse : courseOf r .all =
        course r.beginTeardown (r.hooks.keys.reverse.map .destroy) ++ [.reset] := by
      rw [courseOf, opened, tasks, course_append, course_cons]
      simp [Task.subtasks]
    have hlog : (course r.beginTeardown (r.hooks.keys.reverse.map .destroy)).filterMap Task.hook? =
        r.hooks.along (r.links.postOrder r.hooks.keys.reverse []) := hroots.log
    rw [hcourse, List.filterMap_append, hlog]
    exact List.append_nil _

/-- **A teardown is a depth-first walk.** There are no containments, the dependencies are as they
may, and the hooks that are stored are discreet: they make no request, and return or panic in the
end. A thread calls for the teardown of a component or of the whole registry, whatever else it is in
the middle of. Then the teardown comes to an end, and the code that called for it goes on. The hooks
that it has run, which are those that the thread has got into, are in order those of the components
that a depth-first walk passes over the dependents as they were recorded at first: from the
component on, or from the components with hooks on, the last one of these first.

A component whose hook is replaced keeps its place among those with hooks, and otherwise comes
last when its hook is stored. -/
theorem hooks_in_postOrder (app : Application v) (s : State v)
    (hparts : ∀ n, s.registry.links.partsOf n = [])
    (hd : ∀ n h, s.registry.hooks.find? n = some h → app.Discreet h) (c : Teardown) {g : Goal}
    (next : Code v (g.Result v.Inst)) (stack : Stack v g) :
    (∃ k s', EndsAfter app (s, .exec (c.calling next) stack) k ∧
      run app k (s, .exec (c.calling next) stack) = (s', .exec next stack) ∧
      EntersHooks app k (s, .exec (c.calling next) stack)
        (hooksRun app k (s, .exec (c.calling next) stack)) ∧
      hooksRun app k (s, .exec (c.calling next) stack) =
        s.registry.hooks.along (s.registry.links.postOrder (c.roots s.registry) [])) ∧
    ∀ n h, ((Request.storeHook n h).answer s.registry).registry.hooks.keys =
      if n ∈ s.registry.hooks.keys then s.registry.hooks.keys
      else s.registry.hooks.keys ++ [n] := by
  obtain ⟨k, s', hend, hrun, htaken, -⟩ := ends_of_discreet hd c next stack
  refine ⟨⟨k, s', hend, hrun, entersHooks_hooksRun app k _, ?_⟩,
    fun n h => Table.keys_insert s.registry.hooks n h⟩
  rw [hooksRun, htaken, hooks_courseOf hparts]

end Teardown

/-! ### A circle with a tail -/

namespace Sample

/-- Components "a", "b" and "c" that depend on each other in a circle, and "d", which depends on
"a". The hook of "a" was replaced. -/
def tail : State vocabulary :=
  (State.start .default ()).withRegistry <|
    [.storeHook "a" "old", .storeHook "b" "", .storeHook "d" "", .depend "a" "b", .depend "b" "c",
      .depend "c" "a", .depend "a" "d", .storeHook "a" "new"].foldl
      (fun r (q : Request vocabulary) => (q.answer r).registry) (.fresh .default)

theorem hooks_in_postOrder_tail :
    (∀ n, tail.registry.links.partsOf n = []) ∧
    (∀ n h, tail.registry.hooks.find? n = some h → idle.Discreet h) ∧
    ∃ k, hooksRun idle k (tail, .exec (g := .main) (.destroyAll (.done ())) .top) =
      [("d", ""), ("a", "new"), ("b", "")] := by
  have hparts : ∀ n, tail.registry.links.partsOf n = [] := fun n => by rfl
  have hd : ∀ n h, tail.registry.hooks.find? n = some h → idle.Discreet h :=
    fun _ h _ => discreet_idle h
  obtain ⟨⟨k, s', -, -, -, hlog⟩, -⟩ := Teardown.hooks_in_postOrder idle tail hparts hd .all
    (g := .main) (.done ()) .top
  have horder : tail.registry.links.postOrder (Teardown.all.roots tail.registry) [] =
      ["d", "a", "c", "b"] := by cbv
  refine ⟨hparts, hd, k, hlog.trans ?_⟩
  rw [horder]
  rfl

end Sample

end Wiring
