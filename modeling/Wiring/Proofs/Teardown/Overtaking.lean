import Mathlib.Data.List.Permutation
import Wiring.Proofs.Sample
import Wiring.Proofs.Teardown.Course
import Wiring.Proofs.Teardown.Order

/-!
# Overtaken dependents

Whatever a component draws along ahead of itself is destroyed before its own hook is begun: between
the destruction of `x` and its hook, the teardown visits every name that the dependents of `x` draw
along, although records are withdrawn while it is under way. So where `y` overtakes its dependent
`x`, destroying `x` runs the two hooks the wrong way round. Together with the order that holds where
nothing overtakes, this decides the order of two hooks in every teardown of a registry that records
and hooks were entered into.

## Main definitions

* `Wiring.Teardown.Visiting` — what holds until the hook of an overtaken component is begun.

## Main results

* `Wiring.Teardown.Visiting.visited_of_overtakes` — a visit that is over has left nothing out.
* `Wiring.Teardown.sublist_hookOrder_of_overtakes` — the hook of an overtaken dependent is second.
* `Wiring.Teardown.dependent_first_unless_overtaken` — the order of two hooks in every teardown.
-/

namespace Wiring

variable {v : Vocabulary}

namespace Teardown

/-- What holds while the dependents of `x`, and what they draw along, are destroyed, before the hook
of `x` is begun. The records were `g` when the teardown began; the names in `V` have been visited
since; `log` lists the hooks that were begun, `top` the tasks that come before the hook of `x`. -/
structure Visiting (g : Links) (x y : String) (V : String → Prop) (log : List String)
    (r : v.Registry) (top : List (Task v)) : Prop where
  /-- Dependents of what was visited are visited too, or will be. -/
  dependents : ∀ a, V a ∨ a = x → ∀ b ∈ g.dependentsOf a, V b ∨ .destroy b ∈ top
  contained : ∀ a, V a → ∀ b ∈ g.partsOf a,
    V b ∨ .destroy b ∈ top ∨ .parts a ∈ top ∧ b ∈ r.links.partsOf a
  /-- A name that was not visited has lost only dependents that were. -/
  unvisited : ∀ a, ¬ V a → a ≠ x → ∀ b ∈ g.dependentsOf a, b ∈ r.links.dependentsOf a ∨ V b
  uncontained : ∀ a, ¬ V a → ∀ b ∈ g.partsOf a, b ∈ r.links.partsOf a
  visited : ∀ n, .parts n ∈ top ∨ .scrub n ∈ top → V n
  /-- The hook of `y` is not lost. -/
  kept : r.hooks.contains y = true ∨ (∃ h, .hook y h ∈ top) ∨ y ∈ log
  detached : V y → r.hooks.contains y = false
  /-- The hook of `x` is not begun before the visit is over. -/
  pending : r.hooks.contains x = false ∧ x ∉ log ∧ ∀ t ∈ top, t.begins ≠ [x] ∧ t ≠ .reset

namespace Visiting

variable {g : Links} {x y : String} {V : String → Prop} {log : List String} {r : v.Registry}
  {rest : List (Task v)}

/-- Once no task is left, everything that the dependents of `x` draw along has been visited. -/
theorem visited_of_overtakes {z : String} (h : Visiting g x y V log r []) (hz : g.Overtakes z x) :
    V z := by
  obtain ⟨d, hd, hdz⟩ := hz
  induction hdz with
  | refl => exact (h.dependents x (.inr rfl) d hd).resolve_right List.not_mem_nil
  | @tail a b _ hab ih =>
    rcases hab with hb | hb
    · exact (h.dependents a (.inl ih) b hb).resolve_right List.not_mem_nil
    · obtain hV | hV | ⟨hV, -⟩ := h.contained a ih b hb
      · exact hV
      · cases hV
      · cases hV

theorem mem_log (h : Visiting g x y V log r []) (hy : g.Overtakes y x) : y ∈ log := by
  obtain hk | ⟨k, hk⟩ | hk := h.kept
  · exact absurd ((h.detached (h.visited_of_overtakes hy)).symm.trans hk) (by simp)
  · cases hk
  · exact hk

/-- A task that neither destroys a component nor its parts is not what a visit waits for. -/
theorem ahead {t : Task v} (h : Visiting g x y V log r (t :: rest)) (hd : ∀ b, .destroy b ≠ t)
    (hp : ∀ a, .parts a ≠ t) :
    (∀ a, V a ∨ a = x → ∀ b ∈ g.dependentsOf a, V b ∨ .destroy b ∈ rest) ∧
      ∀ a, V a → ∀ b ∈ g.partsOf a,
        V b ∨ .destroy b ∈ rest ∨ .parts a ∈ rest ∧ b ∈ r.links.partsOf a := by
  refine ⟨fun a ha b hb => ?_, fun a ha b hb => ?_⟩
  · exact (h.dependents a ha b hb).imp_right (List.mem_of_ne_of_mem (hd b))
  · refine (h.contained a ha b hb).imp_right (Or.imp (List.mem_of_ne_of_mem (hd b)) fun hpb => ?_)
    exact ⟨List.mem_of_ne_of_mem (hp a) hpb.1, hpb.2⟩

theorem destroy {n : String} (h : Visiting g x y V log r (.destroy n :: rest)) :
    Visiting g x y (fun a => V a ∨ a = n) log (r.detach n) (destroyTasks r n ++ rest) := by
  have hrest {t : Task v} (ht : t ∈ rest) : t ∈ destroyTasks r n ++ rest :=
    List.mem_append_right _ ht
  have hnew {t : Task v} (ht : t ∈ destroyTasks r n) : t ∈ destroyTasks r n ++ rest :=
    List.mem_append_left _ ht
  -- a visit that was ahead is still ahead, or is made by this very task
  have hahead {b : String} (hb : V b ∨ .destroy b ∈ .destroy n :: rest) :
      (V b ∨ b = n) ∨ .destroy b ∈ destroyTasks r n ++ rest := by
    rcases hb with hb | hb
    · exact .inl (.inl hb)
    · rcases List.mem_cons.mp hb with hb | hb
      · cases hb
        exact .inl (.inr rfl)
      · exact .inr (hrest hb)
  refine ⟨?dependents, ?contained, ?unvisited, ?uncontained, ?visited, ?kept, ?detached, ?pending⟩
  case dependents =>
    intro a ha b hb
    by_cases hold : V a ∨ a = x
    · exact hahead (h.dependents a hold b hb)
    · obtain ⟨hVa, hax⟩ := not_or.mp hold
      obtain rfl : a = n := (ha.resolve_right hax).resolve_left hVa
      obtain hb | hb := h.unvisited a hVa hax b hb
      · exact .inr (hnew (mem_destroyTasks.mpr (.inl ⟨b, hb, rfl⟩)))
      · exact .inl (.inl hb)
  case contained =>
    intro a ha b hb
    by_cases hVa : V a
    · obtain hb | hb | ⟨ha, hb⟩ := h.contained a hVa b hb
      · exact .inl (.inl hb)
      · rcases hahead (.inr hb) with hb | hb
        · exact .inl hb
        · exact .inr (.inl hb)
      · exact .inr (.inr ⟨hrest ((List.mem_cons.mp ha).resolve_left (by simp)), hb⟩)
    · obtain rfl : a = n := ha.resolve_left hVa
      exact .inr (.inr ⟨hnew (parts_mem_destroyTasks.mpr rfl),
        h.uncontained a hVa b hb⟩)
  case unvisited =>
    intro a ha hax b hb
    obtain ⟨hVa, han⟩ := not_or.mp ha
    refine (h.unvisited a hVa hax b hb).imp (fun hb => ?_) .inl
    exact Links.mem_dependentsOf_takeDependents.mpr ⟨hb, Ne.symm han⟩
  case uncontained =>
    exact fun a ha b hb => h.uncontained a (not_or.mp ha).1 b hb
  case visited =>
    intro m hm
    rcases hm with hm | hm
    · rcases List.mem_append.mp hm with hm | hm
      · exact .inr (parts_mem_destroyTasks.mp hm)
      · exact .inl (h.visited m (.inl (List.mem_cons_of_mem _ hm)))
    · rcases List.mem_append.mp hm with hm | hm
      · exact .inr (scrub_mem_destroyTasks.mp hm)
      · exact .inl (h.visited m (.inr (List.mem_cons_of_mem _ hm)))
  case kept =>
    obtain hk | ⟨k, hk⟩ | hk := h.kept
    · by_cases hny : n = y
      · subst hny
        obtain ⟨k, hfind⟩ := Option.isSome_iff_exists.mp hk
        exact .inr (.inl ⟨k, hnew (mem_destroyTasks.mpr (.inr (.inl ⟨k, hfind, rfl⟩)))⟩)
      · refine .inl ?_
        simp [Registry.contains_hooks_detach, hny, hk]
    · exact .inr (.inl ⟨k, hrest ((List.mem_cons.mp hk).resolve_left (by simp))⟩)
    · exact .inr (.inr hk)
  case detached =>
    intro hy
    rw [Registry.contains_hooks_detach]
    rcases hy with hy | rfl
    · rw [h.detached hy, Bool.and_false]
    · simp
  case pending =>
    obtain ⟨hx, hlog, hall⟩ := h.pending
    refine ⟨by rw [Registry.contains_hooks_detach, hx, Bool.and_false], hlog, fun t ht => ?_⟩
    rcases List.mem_append.mp ht with ht | ht
    · exact ⟨begins_ne_of_mem_destroyTasks hx ht, ne_reset_of_mem_destroyTasks ht⟩
    · exact hall t (List.mem_cons_of_mem _ ht)

theorem hook {n : String} {k : v.Closure .hook} (h : Visiting g x y V log r (.hook n k :: rest)) :
    Visiting g x y V (log ++ [n]) r rest := by
  obtain ⟨hx, hlog, hall⟩ := h.pending
  obtain ⟨hdependents, hcontained⟩ := h.ahead (by simp) (by simp)
  refine ⟨hdependents, hcontained, h.unvisited, h.uncontained, fun m hm => ?visited, ?kept,
    h.detached, hx, ?log, fun t ht => hall t (List.mem_cons_of_mem _ ht)⟩
  case visited =>
    exact h.visited m (hm.imp (List.mem_cons_of_mem _) (List.mem_cons_of_mem _))
  case kept =>
    obtain hk | ⟨j, hj⟩ | hk := h.kept
    · exact .inl hk
    · rcases List.mem_cons.mp hj with hj | hj
      · cases hj
        exact .inr (.inr (List.mem_append_right _ (List.mem_singleton.mpr rfl)))
      · exact .inr (.inl ⟨j, hj⟩)
    · exact .inr (.inr (List.mem_append_left _ hk))
  case log =>
    refine List.not_mem_append hlog fun hxn => (hall _ List.mem_cons_self).1 ?_
    rw [Task.begins, List.mem_singleton.mp hxn]

theorem parts {n : String} (h : Visiting g x y V log r (.parts n :: rest)) :
    Visiting g x y V log (r.detachParts n) ((r.links.partsOf n).map .destroy ++ rest) := by
  obtain ⟨hx, hlog, hall⟩ := h.pending
  have hrest {t : Task v} (ht : t ∈ rest) : t ∈ (r.links.partsOf n).map .destroy ++ rest :=
    List.mem_append_right _ ht
  have hold {t : Task v} (ht : t ∈ (r.links.partsOf n).map .destroy ++ rest) :
      (∃ d, t = .destroy d) ∨ t ∈ rest := by
    refine (List.mem_append.mp ht).imp_left fun ht => ?_
    obtain ⟨d, -, rfl⟩ := List.mem_map.mp ht
    exact ⟨d, rfl⟩
  have hn : V n := h.visited n (.inl List.mem_cons_self)
  refine ⟨fun a ha b hb => ?dependents, fun a ha b hb => ?contained, h.unvisited,
    fun a ha b hb => ?uncontained, fun m hm => ?visited, ?kept, h.detached, hx, hlog,
    fun t ht => ?pending⟩
  case dependents =>
    obtain hb | hb := h.dependents a ha b hb
    · exact .inl hb
    · exact .inr (hrest ((List.mem_cons.mp hb).resolve_left (by simp)))
  case contained =>
    obtain hb | hb | ⟨ha, hb⟩ := h.contained a ha b hb
    · exact .inl hb
    · exact .inr (.inl (hrest ((List.mem_cons.mp hb).resolve_left (by simp))))
    · by_cases hna : n = a
      · subst hna
        exact .inr (.inl (List.mem_append_left _ (List.mem_map.mpr ⟨b, hb, rfl⟩)))
      · have ha' : .parts a ∈ rest := by
          refine List.mem_of_ne_of_mem (fun hp => hna ?_) ha
          cases hp
          rfl
        exact .inr (.inr ⟨hrest ha', Links.mem_partsOf_takeParts.mpr ⟨hb, hna⟩⟩)
  case uncontained =>
    refine Links.mem_partsOf_takeParts.mpr ⟨h.uncontained a ha b hb, ?_⟩
    rintro rfl
    exact ha hn
  case visited =>
    rcases hm with hm | hm
    · obtain ⟨d, hd⟩ | hm := hold hm
      · cases hd
      · exact h.visited m (.inl (List.mem_cons_of_mem _ hm))
    · obtain ⟨d, hd⟩ | hm := hold hm
      · cases hd
      · exact h.visited m (.inr (List.mem_cons_of_mem _ hm))
  case kept =>
    refine h.kept.imp_right (Or.imp_left fun hk => ?_)
    obtain ⟨k, hk⟩ := hk
    exact ⟨k, hrest ((List.mem_cons.mp hk).resolve_left (by simp))⟩
  case pending =>
    obtain ⟨d, rfl⟩ | ht := hold ht
    · simp [Task.begins]
    · exact hall t (List.mem_cons_of_mem _ ht)

theorem scrub {n : String} (h : Visiting g x y V log r (.scrub n :: rest)) :
    Visiting g x y V log (r.scrub n) rest := by
  obtain ⟨hx, hlog, hall⟩ := h.pending
  obtain ⟨hdependents, hcontained⟩ := h.ahead (by simp) (by simp)
  have hn : V n := h.visited n (.inr List.mem_cons_self)
  refine ⟨hdependents, hcontained, fun a ha hax b hb => ?unvisited, h.uncontained,
    fun m hm => ?visited, ?kept, h.detached, hx, hlog,
    fun t ht => hall t (List.mem_cons_of_mem _ ht)⟩
  case unvisited =>
    by_cases hbn : b = n
    · exact .inr (hbn ▸ hn)
    · refine (h.unvisited a ha hax b hb).imp_left fun hb => ?_
      refine Links.mem_dependentsOf_scrub.mpr ⟨hb, ?_, fun hbad => hbn hbad.2⟩
      rintro rfl
      exact ha hn
  case visited =>
    exact h.visited m (hm.imp (List.mem_cons_of_mem _) (List.mem_cons_of_mem _))
  case kept =>
    refine h.kept.imp_right (Or.imp_left fun hk => ?_)
    obtain ⟨k, hk⟩ := hk
    exact ⟨k, (List.mem_cons.mp hk).resolve_left (by simp)⟩

/-- Every task before the hook of `x` preserves what holds during the visit. -/
theorem step {task : Task v} (h : Visiting g x y V log r (task :: rest)) :
    ∃ V', Visiting g x y V' (log ++ task.begins) (task.effect r) (task.subtasks r ++ rest) := by
  cases task with
  | hook n k => exact ⟨V, h.hook⟩
  | destroy n =>
    rw [Task.begins, List.append_nil]
    exact ⟨_, h.destroy⟩
  | parts n =>
    rw [Task.begins, List.append_nil]
    exact ⟨V, h.parts⟩
  | scrub n =>
    rw [Task.begins, List.append_nil]
    exact ⟨V, h.scrub⟩
  | reset => exact absurd rfl (h.pending.2.2 _ List.mem_cons_self).2

/-- The visit begins when the dependents of `x` have been listed. -/
theorem start (hy : r.hooks.contains y = true) (hxy : x ≠ y) :
    Visiting r.links x y (fun _ => False) [] (r.detach x)
      ((r.links.dependentsOf x).map .destroy) := by
  refine ⟨fun a ha b hb => ?_, fun _ hV => hV.elim, fun a _ hax b hb => .inl ?_,
    fun a _ b hb => hb, ?_, .inl ?_, False.elim, ?_, List.not_mem_nil, ?_⟩
  · obtain rfl : a = x := ha.resolve_left id
    exact .inr (List.mem_map.mpr ⟨b, hb, rfl⟩)
  · exact Links.mem_dependentsOf_takeDependents.mpr ⟨hb, Ne.symm hax⟩
  · simp
  · simp [Registry.contains_hooks_detach, hxy, hy]
  · simp [Registry.contains_hooks_detach]
  · intro t ht
    obtain ⟨d, -, rfl⟩ := List.mem_map.mp ht
    simp [Task.begins]

end Visiting

/-- Where the destruction of `x` has come to: it was called for, it visits what goes ahead of `x`,
or the hooks of `y` and `x` have been begun in this order. -/
inductive Detour (r₀ : v.Registry) (x y : String) : List String → v.Registry → List (Task v) → Prop
  | called : Detour r₀ x y [] r₀ [.destroy x]
  | visiting {V : String → Prop} {log : List String} {r : v.Registry} {top : List (Task v)}
      (k : v.Closure .hook) (rest : List (Task v)) (h : Visiting r₀.links x y V log r top) :
      Detour r₀ x y log r (top ++ .hook x k :: rest)
  | passed {log : List String} (r : v.Registry) (todo : List (Task v))
      (h : [y, x].Sublist log) : Detour r₀ x y log r todo

theorem Detour.step {r₀ r : v.Registry} {x y : String} {log : List String} {task : Task v}
    {rest : List (Task v)} (h : Detour r₀ x y log r (task :: rest))
    (hx : r₀.hooks.contains x = true) (hy : r₀.hooks.contains y = true) (hxy : x ≠ y)
    (hover : r₀.links.Overtakes y x) :
    Detour r₀ x y (log ++ task.begins) (task.effect r) (task.subtasks r ++ rest) := by
  generalize htodo : task :: rest = todo at h
  cases h with
  | called =>
    cases htodo
    obtain ⟨k, hk⟩ := Option.isSome_iff_exists.mp hx
    have htasks : Task.subtasks r₀ (.destroy x) ++ [] =
        (r₀.links.dependentsOf x).map .destroy ++ .hook x k :: [.parts x, .scrub x] := by
      simp [Task.subtasks, destroyTasks, hk]
    rw [htasks]
    exact .visiting k _ (.start hy hxy)
  | @visiting V _ _ top k rest' hvisit =>
    cases top with
    | nil =>
      cases htodo
      exact .passed _ _ (pair_sublist_concat.mpr (.inr ⟨rfl, hvisit.mem_log hover⟩))
    | cons t top =>
      cases htodo
      obtain ⟨V', hvisit'⟩ := hvisit.step
      have htasks : task.subtasks r ++ (top ++ .hook x k :: rest') =
          task.subtasks r ++ top ++ .hook x k :: rest' := (List.append_assoc ..).symm
      exact htasks ▸ .visiting k rest' hvisit'
  | passed _ _ hsub => exact .passed _ _ (hsub.trans (List.sublist_append_left ..))

/-- The hook of a dependent that is overtaken is begun second when the dependent is destroyed. -/
theorem sublist_hookOrder_of_overtakes {app : Application v} {B : v.Closure .block → Prop}
    {s : State v} {x y : String} (hq : app.QuietHooks B s.registry)
    (hover : s.registry.links.Overtakes y x) (hxy : x ≠ y)
    (hx : s.registry.hooks.contains x = true) (hy : s.registry.hooks.contains y = true) {k : Nat}
    (hk : x ∈ hookOrder app s (.one x) k) : [y, x].Sublist (hookOrder app s (.one x) k) := by
  have hstep (log : List String) (r : v.Registry) (task : Task v) (rest : List (Task v))
      (h : Detour s.registry x y log r (task :: rest)) :
      Detour s.registry x y (log ++ task.begins) (task.effect r) (task.subtasks r ++ rest) :=
    h.step hx hy hxy hover
  have hstart : Detour s.registry x y [] (opened s.registry (.one x)) (tasks s.registry (.one x)) :=
    .called
  obtain ⟨r, todo, hinv⟩ := hookOrder_induction hstep (.one x) hq hstart k
  generalize hookOrder app s (.one x) k = log at hk hinv
  cases hinv with
  | called => cases hk
  | visiting j rest h => exact absurd hk h.pending.2.1
  | passed _ _ h => exact h

/-- **The order of two hooks.** Records and hooks have been entered into a fresh registry, among
them that `x` depends on `y` or that `y` is a part of `x`, and the hooks make no request.

* If `y` does not overtake `x`, no teardown begins the hook of `y` before that of `x`, neither of
  any component nor of the whole registry.
* If it does, and both have hooks, then the destruction of `x` begins the hook of `y` first.
* If `y` itself depends on `x`, directly or through others, then it overtakes `x`; containments can
  make it do so where it does not.
* The hooks that a teardown begins are those that its thread gets into, in the same order. -/
theorem dependent_first_unless_overtaken (app : Application v) (B : v.Closure .block → Prop)
    (s : State v) {x y : String} (hr : s.registry.Prepared) (hq : app.QuietHooks B s.registry)
    (hxy : x ∈ s.registry.links.dependentsOf y ∨ y ∈ s.registry.links.partsOf x) :
    (¬ s.registry.links.Overtakes y x → ∀ c k, ¬ [y, x].Sublist (hookOrder app s c k)) ∧
    (s.registry.links.Overtakes y x → x ≠ y → s.registry.hooks.contains x = true →
      s.registry.hooks.contains y = true →
        ∀ k, x ∈ hookOrder app s (.one x) k → [y, x].Sublist (hookOrder app s (.one x) k)) ∧
    (Relation.TransGen (fun a b => b ∈ s.registry.links.dependentsOf a) x y →
      s.registry.links.Overtakes y x) ∧
    ∀ c k, ∃ l, EntersHooks app k (s, .start c.program) l ∧
      l.map Prod.fst = hookOrder app s c k := by
  have hdep : x ∈ s.registry.links.dependentsOf y := hxy.elim id hr.mem_dependentsOf
  refine ⟨fun hover c k => ?_, fun hover hne hx hy k hk => ?_, Links.overtakes_of_transGen,
    fun c k => ⟨_, entersHooks_hooksRun app k _, map_fst_hooksRun app k _⟩⟩
  · exact not_sublist_hookOrder hq hdep hover c k
  · exact sublist_hookOrder_of_overtakes hq hover hne hx hy hk

end Teardown

/-! ### A detour without a cycle -/

namespace Sample

/-- Three components with hooks: `X` depends on `Y`, and `Z` depends on `X` and contains `Y`. -/
def detour : State vocabulary :=
  (State.start .default ()).withRegistry <|
    [.storeHook "X" "", .storeHook "Y" "", .storeHook "Z" "", .depend "Y" "X", .depend "X" "Z",
      .contain "Y" "Z"].foldl (fun r (q : Request vocabulary) => (q.answer r).registry)
      (.fresh .default)

theorem prepared_detour : detour.registry.Prepared := by
  refine .foldl (fun q hq => ?_) (.fresh .default)
  simp only [List.mem_cons, List.not_mem_nil, or_false] at hq
  obtain rfl | rfl | rfl | rfl | rfl | rfl := hq <;> trivial

theorem quietHooks_detour : idle.QuietHooks (fun _ => False) detour.registry :=
  ⟨fun _ hB => hB.elim, fun _ _ _ => trivial⟩

theorem dependent_first_unless_overtaken_detour :
    detour.registry.Prepared ∧ idle.QuietHooks (fun _ => False) detour.registry ∧
      "X" ∈ detour.registry.links.dependentsOf "Y" ∧
      [("Y" : String), "X"].Sublist (Teardown.hookOrder idle detour (.one "X") 25) := by
  have hXY : "X" ∈ detour.registry.links.dependentsOf "Y" := by decide
  have hover : detour.registry.links.Overtakes "Y" "X" :=
    ⟨"Z", by decide, .single (.inr (by decide))⟩
  have h := Teardown.dependent_first_unless_overtaken idle (fun _ => False) detour prepared_detour
    quietHooks_detour (.inl hXY)
  exact ⟨prepared_detour, quietHooks_detour, hXY,
    h.2.1 hover (by decide) (by decide) (by decide) 25 (by decide)⟩

/-- `Y` does not depend on `X`, directly or through others, and yet destroying `X` runs the hook of
`Y` before that of `X`. -/
theorem hookOrder_detour :
    detour.registry.Prepared ∧ idle.QuietHooks (fun _ => False) detour.registry ∧
      "X" ∈ detour.registry.links.dependentsOf "Y" ∧
      detour.registry.links.isDependent "X" "Y" = false ∧
      ¬ Relation.TransGen (fun a b => b ∈ detour.registry.links.dependentsOf a) "X" "Y" ∧
      Teardown.hookOrder idle detour (.one "X") 25 = ["Z", "Y", "X"] := by
  refine ⟨prepared_detour, quietHooks_detour, by decide, by cbv, fun h => ?_, by decide⟩
  have hX : detour.registry.links.dependentsOf "X" = ["Z"] := by decide
  have hZ : detour.registry.links.dependentsOf "Z" = [] := by decide
  obtain ⟨d, hd, hdY⟩ := Relation.TransGen.head'_iff.mp h
  rw [hX, List.mem_singleton] at hd
  subst hd
  obtain hZY | ⟨c, hc, -⟩ := hdY.cases_head
  · exact absurd hZY (by decide)
  · rw [hZ] at hc
    cases hc

end Sample

end Wiring
