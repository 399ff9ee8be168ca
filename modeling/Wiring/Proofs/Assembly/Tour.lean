import Mathlib.Data.Fintype.Card
import Mathlib.Logic.Relation

/-!
# Touring a graph of components

Components that are built on demand are built in the order of a depth-first traversal. A component
is *open* from when its instance is allocated until all its peers have been seen to; then it is
*made*. An open peer can be had if its early instance is shown; an open peer that hides it blocks
the tour. Nothing here mentions a registry: this is what resolving a graph should come to.

## Main definitions

* `Wiring.Plan` — a graph of components, with what their constructs allocate.
* `Wiring.Plan.explore` — the depth-first traversal, from the inside of some open components.
* `Wiring.Plan.tour` — the traversal from a root.
* `Wiring.Plan.Needs` — an edge of the graph.

## Main results

* `Wiring.Plan.begun_nodup_explore` — no component is begun twice.
* `Wiring.Plan.made_tour_iff` — a tour that is not blocked makes what can be reached.
* `Wiring.Plan.mem_begun_tour_iff` — a tour that is not blocked begins what can be reached.
-/

namespace Wiring

/-- A graph of components with instances `ι`. Each component has a list of peers; its construct
allocates its instance from the memory `W`, and either shows it early or hides it until the end. -/
structure Plan (V ι W : Type) where
  peers : V → List V
  shown : V → Bool
  allocate : V → W → ι × W

/-- What comes of a tour: the instances of what was made, the memory, the components that were begun
in order, and the open component that blocked the tour, if one did. -/
structure Tour (V ι W : Type) where
  made : V → Option ι
  world : W
  begun : List V
  blocked : Option V

namespace Plan

variable {V ι W : Type} [DecidableEq V]

/-- The components that are not open. -/
def closed [Fintype V] (opened : V → Option ι) : Finset V :=
  Finset.univ.filter fun u => (opened u).isNone

theorem card_closed_update_lt [Fintype V] {opened : V → Option ι} {p : V} (hp : opened p = none)
    (i : ι) :
    (closed (Function.update opened p (some i))).card < (closed opened).card := by
  refine Finset.card_lt_card (Finset.ssubset_iff_of_subset (fun u hu => ?_) |>.mpr ⟨p, ?_, ?_⟩)
  · by_cases hup : u = p
    · subst hup
      simp [closed] at hu
    · simpa [closed, hup] using hu
  · simp [closed, hp]
  · simp [closed]

/-- The tour of the components `ps` from the inside of the open ones, one after the other. A
component that was made needs nothing; an open one lets the tour go on if it is shown; any other is
begun, its peers are toured from its inside, and then it is made. -/
def explore [Fintype V] (d : Plan V ι W) (opened made : V → Option ι) (w : W) :
    List V → Tour V ι W
  | [] => ⟨made, w, [], none⟩
  | p :: ps =>
    match made p with
    | some _ => explore d opened made w ps
    | none =>
      match _ : opened p with
      | some _ => if d.shown p then explore d opened made w ps else ⟨made, w, [], some p⟩
      | none =>
        let i := (d.allocate p w).1
        let inner :=
          explore d (Function.update opened p (some i)) made (d.allocate p w).2 (d.peers p)
        match inner.blocked with
        | some b => ⟨inner.made, inner.world, p :: inner.begun, some b⟩
        | none =>
          let rest := explore d opened (Function.update inner.made p (some i)) inner.world ps
          { rest with begun := p :: inner.begun ++ rest.begun }
termination_by ps => ((closed opened).card, ps.length)
decreasing_by
  · exact Prod.Lex.right _ (Nat.lt_succ_self _)
  · exact Prod.Lex.right _ (Nat.lt_succ_self _)
  · exact Prod.Lex.left _ _ (card_closed_update_lt ‹_› _)
  · exact Prod.Lex.right _ (Nat.lt_succ_self _)

-- the principle that the inductions over tours go by
attribute [elab_as_elim] explore.induct_unfolding

/-- The tour of all that is needed for `root`, when nothing is open and nothing was made. -/
def tour [Fintype V] (d : Plan V ι W) (w : W) (root : V) : Tour V ι W :=
  d.explore (fun _ => none) (fun _ => none) w [root]

/-- The tour of the peers of `root` from the inside of it. A tour begins with its root, goes on
inside, and makes the root unless it is blocked there (`Wiring.Plan.tour_eq`). -/
def inside [Fintype V] (d : Plan V ι W) (w : W) (root : V) : Tour V ι W :=
  d.explore (Function.update (fun _ => none) root (some (d.allocate root w).1)) (fun _ => none)
    (d.allocate root w).2 (d.peers root)

/-- An edge of the graph. -/
def Needs (d : Plan V ι W) (u p : V) : Prop := p ∈ d.peers u

variable [Fintype V] {d : Plan V ι W} {opened made : V → Option ι} {w : W} {ps : List V}

theorem tour_eq (w : W) (root : V) :
    d.tour w root =
      ⟨if (d.inside w root).blocked = none then
          Function.update (d.inside w root).made root (some (d.allocate root w).1)
        else (d.inside w root).made,
        (d.inside w root).world, root :: (d.inside w root).begun, (d.inside w root).blocked⟩ := by
  rw [tour, explore]
  simp only
  rw [← inside]
  cases hb : (d.inside w root).blocked with
  | some b => simp
  | none => simp [explore]

theorem blocked_tour (w : W) (root : V) : (d.tour w root).blocked = (d.inside w root).blocked := by
  rw [tour_eq]

theorem made_tour_self {root : V} (hn : (d.tour w root).blocked = none) :
    (d.tour w root).made root = some (d.allocate root w).1 := by
  rw [blocked_tour] at hn
  rw [tour_eq]
  simp [hn]

/-! ### What stays as it is -/

/-- What was made stays made. -/
theorem made_explore_of_made {u : V} {i : ι} (h : made u = some i) :
    (d.explore opened made w ps).made u = some i := by
  fun_induction explore d opened made w ps with
  | case1 => exact h
  | case2 opened made w p ps j hp ih => exact ih h
  | case3 opened made w p ps hp j ho hs ih => exact ih h
  | case4 => exact h
  | case5 opened made w p ps hp ho j inner b hb ih => exact ih h
  | case6 opened made w p ps hp ho j inner hb rest ih _ ih' =>
    have hup : u ≠ p := by
      rintro rfl
      exact Option.some_ne_none i (h.symm.trans hp)
    refine ih' ?_
    rw [Function.update_of_ne hup]
    exact ih h

/-! ### What is begun -/

/-- Only what is neither open nor made is begun. -/
theorem untouched_of_mem_begun {u : V} (h : u ∈ (d.explore opened made w ps).begun) :
    opened u = none ∧ made u = none := by
  fun_induction explore d opened made w ps with
  | case1 => cases h
  | case2 opened made w p ps j hp ih => exact ih h
  | case3 opened made w p ps hp j ho hs ih => exact ih h
  | case4 => cases h
  | case5 opened made w p ps hp ho j inner b hb ih =>
    rcases List.mem_cons.mp h with rfl | h
    · exact ⟨ho, hp⟩
    · obtain ⟨hu, hm⟩ := ih h
      have hup : u ≠ p := by
        rintro rfl
        simp at hu
      exact ⟨by rwa [Function.update_of_ne hup] at hu, hm⟩
  | case6 opened made w p ps hp ho j inner hb rest ih _ ih' =>
    rcases List.mem_append.mp h with h | h
    · rcases List.mem_cons.mp h with rfl | h
      · exact ⟨ho, hp⟩
      · obtain ⟨hu, hm⟩ := ih h
        have hup : u ≠ p := by
          rintro rfl
          simp at hu
        exact ⟨by rwa [Function.update_of_ne hup] at hu, hm⟩
    · obtain ⟨hu, hm⟩ := ih' h
      have hup : u ≠ p := by
        rintro rfl
        simp at hm
      rw [Function.update_of_ne hup] at hm
      refine ⟨hu, Option.eq_none_iff_forall_ne_some.mpr fun i hi => ?_⟩
      exact Option.some_ne_none i ((made_explore_of_made hi).symm.trans hm)

/-- What is made was made before or has been begun. -/
theorem mem_begun_of_made {u : V} (h : (d.explore opened made w ps).made u ≠ none)
    (hu : made u = none) : u ∈ (d.explore opened made w ps).begun := by
  fun_induction explore d opened made w ps with
  | case1 => exact absurd hu h
  | case2 opened made w p ps j hp ih => exact ih h hu
  | case3 opened made w p ps hp j ho hs ih => exact ih h hu
  | case4 => exact absurd hu h
  | case5 opened made w p ps hp ho j inner b hb ih => exact List.mem_cons_of_mem _ (ih h hu)
  | case6 opened made w p ps hp ho j inner hb rest ih _ ih' =>
    by_cases hup : u = p
    · subst hup
      exact List.mem_append_left _ List.mem_cons_self
    · by_cases hinner : inner.made u = none
      · exact List.mem_append_right _ (ih' h (by rwa [Function.update_of_ne hup]))
      · exact List.mem_append_left _ (List.mem_cons_of_mem _ (ih hinner hu))

/-- A tour that is not blocked makes all it has begun. -/
theorem made_of_mem_begun {u : V} (hn : (d.explore opened made w ps).blocked = none)
    (h : u ∈ (d.explore opened made w ps).begun) : (d.explore opened made w ps).made u ≠ none := by
  fun_induction explore d opened made w ps with
  | case1 => cases h
  | case2 opened made w p ps j hp ih => exact ih hn h
  | case3 opened made w p ps hp j ho hs ih => exact ih hn h
  | case4 => cases h
  | case5 => cases hn
  | case6 opened made w p ps hp ho j inner hb rest ih _ ih' =>
    have hkeep {i : ι} (hi : Function.update inner.made p (some j) u = some i) :
        rest.made u ≠ none := by
      rw [made_explore_of_made hi]
      exact Option.some_ne_none i
    rcases List.mem_append.mp h with h | h
    · rcases List.mem_cons.mp h with rfl | h
      · exact hkeep (Function.update_self ..)
      · obtain ⟨i, hi⟩ := Option.ne_none_iff_exists'.mp (ih hb h)
        have hup : u ≠ p := by
          rintro rfl
          simpa using (untouched_of_mem_begun h).1
        exact hkeep ((Function.update_of_ne hup ..).trans hi)
    · exact ih' hn h

/-- No component is begun twice. -/
theorem begun_nodup_explore : (d.explore opened made w ps).begun.Nodup := by
  fun_induction explore d opened made w ps with
  | case1 => exact List.nodup_nil
  | case2 opened made w p ps j hp ih => exact ih
  | case3 opened made w p ps hp j ho hs ih => exact ih
  | case4 => exact List.nodup_nil
  | case5 opened made w p ps hp ho j inner b hb ih =>
    refine List.nodup_cons.mpr ⟨fun h => ?_, ih⟩
    simpa using (untouched_of_mem_begun h).1
  | case6 opened made w p ps hp ho j inner hb rest ih _ ih' =>
    refine List.nodup_append.mpr ⟨List.nodup_cons.mpr ⟨fun h => ?_, ih⟩, ih', ?_⟩
    · simpa using (untouched_of_mem_begun h).1
    · rintro u hu _ hrest rfl
      -- what is begun in the rest was not made on the inside
      have hm := (untouched_of_mem_begun hrest).2
      by_cases hup : u = p
      · subst hup
        simp at hm
      · rw [Function.update_of_ne hup] at hm
        exact made_of_mem_begun hb ((List.mem_cons.mp hu).resolve_left hup) hm

/-! ### What is reached -/

/-- What is begun can be reached from the components to be toured. -/
theorem reachable_of_mem_begun {u : V} (h : u ∈ (d.explore opened made w ps).begun) :
    ∃ p ∈ ps, Relation.ReflTransGen d.Needs p u := by
  fun_induction explore d opened made w ps with
  | case1 => cases h
  | case2 opened made w p ps j hp ih =>
    obtain ⟨q, hq, hqu⟩ := ih h
    exact ⟨q, List.mem_cons_of_mem _ hq, hqu⟩
  | case3 opened made w p ps hp j ho hs ih =>
    obtain ⟨q, hq, hqu⟩ := ih h
    exact ⟨q, List.mem_cons_of_mem _ hq, hqu⟩
  | case4 => cases h
  | case5 opened made w p ps hp ho j inner b hb ih =>
    refine ⟨p, List.mem_cons_self, ?_⟩
    rcases List.mem_cons.mp h with rfl | h
    · exact .refl
    · obtain ⟨q, hq, hqu⟩ := ih h
      exact .head hq hqu
  | case6 opened made w p ps hp ho j inner hb rest ih _ ih' =>
    rcases List.mem_append.mp h with h | h
    · refine ⟨p, List.mem_cons_self, ?_⟩
      rcases List.mem_cons.mp h with rfl | h
      · exact .refl
      · obtain ⟨q, hq, hqu⟩ := ih h
        exact .head hq hqu
    · obtain ⟨q, hq, hqu⟩ := ih' h
      exact ⟨q, List.mem_cons_of_mem _ hq, hqu⟩

/-- After a tour that is not blocked, the components toured are made or open, and so are the peers
of all that was begun. -/
theorem seen_of_unblocked (hn : (d.explore opened made w ps).blocked = none) :
    (∀ p ∈ ps, (d.explore opened made w ps).made p ≠ none ∨ opened p ≠ none) ∧
      ∀ u ∈ (d.explore opened made w ps).begun, ∀ p ∈ d.peers u,
        (d.explore opened made w ps).made p ≠ none ∨ opened p ≠ none := by
  fun_induction explore d opened made w ps with
  | case1 => exact ⟨by simp, by simp⟩
  | case2 opened made w p ps j hp ih =>
    refine ⟨List.forall_mem_cons.mpr ⟨.inl ?_, (ih hn).1⟩, (ih hn).2⟩
    rw [made_explore_of_made hp]
    exact Option.some_ne_none j
  | case3 opened made w p ps hp j ho hs ih =>
    refine ⟨List.forall_mem_cons.mpr ⟨.inr ?_, (ih hn).1⟩, (ih hn).2⟩
    rw [ho]
    exact Option.some_ne_none j
  | case4 => cases hn
  | case5 => cases hn
  | case6 opened made w p ps hp ho j inner hb rest ih _ ih' =>
    have hp' : rest.made p ≠ none := by
      rw [made_explore_of_made (Function.update_self p (some j) inner.made)]
      exact Option.some_ne_none j
    -- what was made or open on the inside is made or open now
    have hkeep {q : V} (hq : inner.made q ≠ none ∨ Function.update opened p (some j) q ≠ none) :
        rest.made q ≠ none ∨ opened q ≠ none := by
      by_cases hqp : q = p
      · subst hqp
        exact .inl hp'
      · rw [Function.update_of_ne hqp] at hq
        refine hq.imp_left fun hq => ?_
        obtain ⟨i, hi⟩ := Option.ne_none_iff_exists'.mp hq
        rw [made_explore_of_made ((Function.update_of_ne hqp ..).trans hi)]
        exact Option.some_ne_none i
    obtain ⟨hps, hbegun⟩ := ih' hn
    obtain ⟨hpeers, hinner⟩ := ih hb
    refine ⟨List.forall_mem_cons.mpr ⟨.inl hp', hps⟩, fun u hu q hq => ?_⟩
    rcases List.mem_append.mp hu with hu | hu
    · rcases List.mem_cons.mp hu with rfl | hu
      · exact hkeep (hpeers q hq)
      · exact hkeep (hinner u hu q hq)
    · exact hbegun u hu q hq

/-- A tour that is not blocked begins exactly what can be reached from the root. -/
theorem mem_begun_tour_iff {root u : V} (hn : (d.tour w root).blocked = none) :
    u ∈ (d.tour w root).begun ↔ Relation.ReflTransGen d.Needs root u := by
  constructor
  · intro h
    obtain ⟨p, hp, hpu⟩ := reachable_of_mem_begun h
    rwa [List.mem_singleton.mp hp] at hpu
  · intro h
    obtain ⟨hroot, hbegun⟩ := seen_of_unblocked hn
    have hmade {q : V} (hq : (d.tour w root).made q ≠ none ∨ (none : Option ι) ≠ none) :
        q ∈ (d.tour w root).begun :=
      mem_begun_of_made (hq.resolve_right fun hq => hq rfl) rfl
    induction h with
    | refl => exact hmade (hroot root List.mem_cons_self)
    | @tail a b _ hab ih => exact hmade (hbegun a ih b hab)

/-- A tour that is not blocked makes exactly what can be reached from the root. -/
theorem made_tour_iff {root u : V} (hn : (d.tour w root).blocked = none) :
    (d.tour w root).made u ≠ none ↔ Relation.ReflTransGen d.Needs root u := by
  rw [← mem_begun_tour_iff hn]
  exact ⟨fun h => mem_begun_of_made h rfl, made_of_mem_begun hn⟩

/-! ### What is made -/

/-- A component is made of what its own construct allocates. -/
theorem allocated_of_made {u : V} {i : ι} (h : (d.explore opened made w ps).made u = some i)
    (hu : made u = none) : ∃ w', i = (d.allocate u w').1 := by
  fun_induction explore d opened made w ps with
  | case1 => exact absurd (h.symm.trans hu) (Option.some_ne_none i)
  | case2 opened made w p ps j hp ih => exact ih h hu
  | case3 opened made w p ps hp j ho hs ih => exact ih h hu
  | case4 => exact absurd (h.symm.trans hu) (Option.some_ne_none i)
  | case5 opened made w p ps hp ho j inner b hb ih => exact ih h hu
  | case6 opened made w p ps hp ho j inner hb rest ih _ ih' =>
    have hi : rest.made u = some i := h
    by_cases hup : u = p
    · subst hup
      have hj : rest.made u = some j := made_explore_of_made (Function.update_self ..)
      exact ⟨w, Option.some.inj (hi.symm.trans hj)⟩
    · cases hinner : inner.made u with
      | none => exact ih' hi (by rwa [Function.update_of_ne hup])
      | some k =>
        have hk : rest.made u = some k :=
          made_explore_of_made ((Function.update_of_ne hup ..).trans hinner)
        obtain rfl : i = k := Option.some.inj (hi.symm.trans hk)
        exact ih hinner hu

end Plan

end Wiring
