import Mathlib.Data.List.Induction
import Mathlib.Data.List.Infix
import Wiring.Proofs.Occurrence
import Wiring.Proofs.Sample
import Wiring.Proofs.Tiers.Change

/-!
# Final names are not staged

A name should be final or staged, never both. Every change of the tiers respects that but one: the
product of a producer is taken up without asking whether its name became final while the producer
ran. This file shows that nothing else can go wrong. Over every run of every pool of threads, the
final and the staged names are disjoint for exactly as long as no producer returns for a name that
has become final, and as long as that is so no lookup hands out an early instance of a final name.

## Main definitions

* `Wiring.Store.Exclusive` — no name is both final and staged.
* `Wiring.Thread.LateProduct` — the next step takes up the product of a producer whose name has
  become final.
* `Wiring.Thread.Informed` — a single thread has not missed that a name it looks for is final.
* `Wiring.Pool.reached` — where programs stand that were started on a fresh registry.

## Main results

* `Wiring.Store.Exclusive.apply` — the changes that keep the tiers exclusive.
* `Wiring.Thread.exclusive_step_iff` — a step keeps them so unless it takes up a late product.
* `Wiring.Pool.exclusive_iff_forall_not_lateProduct` — the same over runs, and what lookups answer.
-/

namespace Wiring

/-! ### Exclusive tiers -/

namespace Store

variable {ι φ : Type}

/-- No name is both final and staged. -/
def Exclusive (s : Store ι φ) : Prop := ∀ n, s.isFinal n = true → s.isStaged n = false

theorem exclusive_empty : (empty : Store ι φ).Exclusive := fun _ _ => rfl

theorem isFinal_iff {s : Store ι φ} {n : String} : s.isFinal n = true ↔ s.final? n ≠ none := by
  rw [Ne, ← isFinal_eq_false_iff, Bool.not_eq_false]

/-- Every change keeps the tiers exclusive, except that a product may come back for a final name. -/
theorem Exclusive.apply {s : Store ι φ} (hs : s.Exclusive) {c : Change ι φ}
    (hc : ∀ n i, c = .memoize n i → s.isFinal n = false) : (c.apply s).Exclusive := by
  intro m hm
  have hm' : (c.apply s).final? m ≠ none := isFinal_iff.mp hm
  have keep (hf : s.final? m ≠ none) : s.isStaged m = false := hs m (isFinal_iff.mpr hf)
  cases c with
  | keep => exact keep hm'
  | put n i =>
    rw [Change.apply, isStaged_put]
    by_cases h : n = m
    · simp [h]
    · rw [Change.apply, final?_put, if_neg h] at hm'
      simp [keep hm']
  | offer n p =>
    rw [Change.apply, final?_offer] at hm'
    rw [Change.apply, isStaged_offer, keep hm']
    by_cases h : n = m
    · subst h
      simp [isFinal_iff.mpr hm']
    · simp [h]
  | fetch n =>
    have hst := keep hm'
    simp only [isStaged, Bool.or_eq_false_iff] at hst
    simp [Change.apply, fetch, isStaged, Table.contains_erase, hst]
  | memoize n i =>
    rw [Change.apply, final?_memoize] at hm'
    rw [Change.apply, isStaged_memoize, keep hm', Bool.or_false, decide_eq_false_iff_not]
    rintro rfl
    exact hm' (isFinal_eq_false_iff.mp (hc _ i rfl))
  | remove n =>
    rw [Change.apply, isStaged_remove]
    by_cases h : n = m
    · simp [h]
    · rw [Change.apply, final?_remove, if_neg h] at hm'
      simp [keep hm']
  | discard n =>
    rw [Change.apply, final?_discard] at hm'
    simp [Change.apply, isStaged_discard, keep hm']
  | clear => rfl

theorem not_exclusive_memoize {s : Store ι φ} {n : String} (hn : s.isFinal n = true) (i : ι) :
    ¬ (s.memoize n i).2.Exclusive := by
  intro h
  have hf : (s.memoize n i).2.isFinal n = true := by
    rw [isFinal_iff, final?_memoize]
    exact isFinal_iff.mp hn
  have := h n hf
  simp [isStaged_memoize] at this

end Store

/-! ### Late products -/

namespace Thread

variable {v : Vocabulary}

/-- The next step takes up the product of a producer whose name has become final while it ran. -/
inductive LateProduct (s : State v) : Thread v → Prop
  | intro {g : Goal} {n : String} (i : v.Inst) (resume : Option v.Inst → Code v (g.Result v.Inst))
      (rest : Stack v g) (hn : s.registry.store.isFinal n = true) :
      LateProduct s (.exec (g := .producer) (.done i) (.producing n resume rest))

/-- A late product is a product that comes back for a final name. -/
theorem lateProduct_iff {s : State v} {t : Thread v} :
    t.LateProduct s ↔
      ∃ n i, t.storeChange s = .memoize n i ∧ s.registry.store.isFinal n = true := by
  constructor
  · rintro ⟨i, resume, rest, hn⟩
    exact ⟨_, i, rfl, hn⟩
  · rintro ⟨n, i, hc, hn⟩
    have hcause := cause_storeChange s t
    rw [hc] at hcause
    cases hcause with
    | memoize resume rest => exact .intro i resume rest hn

/-- A step from exclusive tiers leads to exclusive tiers exactly if it takes up no late product. -/
theorem exclusive_step_iff (app : Application v) {s : State v} (t : Thread v)
    (hs : s.registry.store.Exclusive) :
    (t.step app s).1.registry.store.Exclusive ↔ ¬ t.LateProduct s := by
  rw [store_step]
  constructor
  · intro h hlate
    obtain ⟨n, i, hc, hn⟩ := lateProduct_iff.mp hlate
    rw [hc] at h
    exact Store.not_exclusive_memoize hn i h
  · intro h
    refine hs.apply fun n i hc => ?_
    by_contra hn
    exact h (lateProduct_iff.mpr ⟨n, i, hc, by simpa using hn⟩)

/-! ### Lookups of final names -/

/-- The thread has not missed that a name it has begun to look for is final. -/
def Informed (s : State v) : Thread v → Prop
  | .seek .reading n _ _ _ => s.registry.store.final? n = none
  | .seek .. | .exec .. | .begin .. | .walk .. | .unwind .. | .finished _ => True

/-- A thread is informed after each of its own steps. -/
theorem informed_step (app : Application v) (s : State v) (t : Thread v) :
    (t.step app s).2.Informed (t.step app s).1 := by
  cases h : (t.step app s).2 with
  | seek stage n early resume stack =>
    obtain ⟨hs, ⟨rfl, hf⟩ | ⟨rfl, -⟩ | ⟨rfl, -⟩⟩ := of_step_eq_seek app h
    · rw [hs]
      exact hf
    · trivial
    · trivial
  | _ => trivial

/-- A late product answers the lookup that asked for it, and is then staged beside the final
instance. -/
theorem found_of_lateProduct (app : Application v) {s : State v} {t : Thread v}
    (h : t.LateProduct s) :
    ∃ n x e, t.occurrence s = some (.found n (some e)) ∧
      (t.step app s).1.registry.store.final? n = some x ∧
      (t.step app s).1.registry.store.early? n = some e := by
  obtain ⟨i, resume, rest, hn⟩ := h
  rename_i g n
  obtain ⟨x, hx⟩ := Option.ne_none_iff_exists'.mp (Store.isFinal_iff.mp hn)
  refine ⟨n, x, (s.registry.store.memoize n i).1, rfl, ?_, ?_⟩
  · rw [store_step, storeChange, Store.Change.apply, Store.final?_memoize, hx]
  · rw [store_step, storeChange, Store.Change.apply, Store.early?_memoize]

/-- A lookup that is answered while its name is final gets the final instance, unless it takes up a
late product, or its thread did not see that the name had become final. -/
theorem found_of_final (app : Application v) {s : State v} {t : Thread v} {n : String} {x : v.Inst}
    {r : Option v.Inst} (ho : t.occurrence s = some (.found n r))
    (hx : (t.step app s).1.registry.store.final? n = some x) (hlate : ¬ t.LateProduct s) :
    r = some x ∨ r = none ∧ ¬ t.Informed s := by
  rw [store_step] at hx
  cases t with
  | exec code stack =>
    cases code with
    | done a =>
      cases stack with
      | producing m resume rest =>
        obtain ⟨rfl, -⟩ : m = n ∧ some (s.registry.store.memoize m a).1 = r := by
          simpa [occurrence, execOccurrence, Stack.occurrence] using ho
        refine (hlate (.intro a resume rest ?_)).elim
        rw [storeChange, Store.Change.apply, Store.final?_memoize] at hx
        simp [Store.isFinal_iff, hx]
      | _ => simp [occurrence, execOccurrence, Stack.occurrence] at ho
    | lookup m early next =>
      cases hf : s.registry.store.final? m with
      | none => simp [occurrence, execOccurrence, hf] at ho
      | some i =>
        obtain ⟨rfl, rfl⟩ : m = n ∧ some i = r := by simpa [occurrence, execOccurrence, hf] using ho
        exact .inl (hf.symm.trans hx)
    | create m c next => cases hn : checkName m <;> simp [occurrence, execOccurrence, hn] at ho
    | _ => simp [occurrence, execOccurrence] at ho
  | seek stage m early resume stack =>
    cases stage with
    | reading =>
      cases hm : s.registry.marks.isMarked m with
      | true => simp [occurrence, seekOccurrence, hm] at ho
      | false =>
        obtain ⟨rfl, rfl⟩ : m = n ∧ none = r := by simpa [occurrence, seekOccurrence, hm] using ho
        have hf : s.registry.store.final? m = some x := hx
        exact .inr ⟨rfl, fun hi => Option.some_ne_none x (hf.symm.trans hi)⟩
    | waiting => cases ho
    | inside =>
      cases hf : s.registry.store.final? m with
      | some i =>
        obtain ⟨rfl, rfl⟩ : m = n ∧ some i = r := by simpa [occurrence, seekOccurrence, hf] using ho
        rw [storeChange, hf] at hx
        exact .inl (hf.symm.trans hx)
      | none =>
        have hs : seekOccurrence s m early .inside = some (.found n r) := ho
        obtain ⟨r', h, -⟩ := snd_seekStep resume stack hs
        cases h
        -- nothing that a lookup changes makes its name final
        rw [storeChange, hf] at hx
        split at hx
        · exact absurd (hf.symm.trans hx) (by simp)
        · exact absurd (hf.symm.trans hx) (by simp)
  | begin stage m c resume stack =>
    obtain h | ⟨r', h, -⟩ := snd_beginStep c resume stack ho
    · cases h
    · cases h
  | walk todo next stack =>
    obtain ⟨m, h⟩ := eq_hookBegun_of_walk ho
    cases h
  | unwind p stack => cases ho
  | finished outcome => cases ho

end Thread

/-! ### Runs -/

namespace Pool

variable {v : Vocabulary}

/-- If every step keeps a property of runs unless it does a certain thing, the property holds for
exactly as long as no step does it. -/
theorem forall_prefix_iff {P : List Nat → Prop} {Q : List Nat → Nat → Prop} (h : P [])
    (hstep : ∀ l i, P l → (P (l ++ [i]) ↔ ¬ Q l i)) (schedule : List Nat) :
    (∀ l, l <+: schedule → P l) ↔ ∀ l i, l ++ [i] <+: schedule → ¬ Q l i := by
  constructor
  · intro hall l i hl
    exact (hstep l i (hall l ((List.prefix_append l [i]).trans hl))).mp (hall _ hl)
  · intro hnone l
    induction l using List.reverseRecOn with
    | nil => exact fun _ => h
    | append_singleton l i ih =>
      intro hl
      exact (hstep l i (ih ((List.prefix_append l [i]).trans hl))).mpr (hnone l i hl)

theorem concat_prefix_concat_iff {l schedule : List Nat} {i k : Nat} :
    l ++ [i] <+: schedule ++ [k] ↔ l = schedule ∧ i = k ∨ l ++ [i] <+: schedule := by
  rw [List.prefix_concat_iff, List.append_singleton_inj]

/-- If a property of runs holds after a step exactly if the step brings it about, or it held before
and the step does not undo it, then it holds exactly if some step has brought it about and no later
one has undone it. -/
theorem holds_iff_since {P : List Nat → Prop} {Q R : List Nat → Nat → Prop} (h : ¬ P [])
    (hstep : ∀ l i, P (l ++ [i]) ↔ Q l i ∨ P l ∧ ¬ R l i) (schedule : List Nat) :
    P schedule ↔ ∃ l i, l ++ [i] <+: schedule ∧ Q l i ∧
      ∀ l' j, l ++ [i] <+: l' → l' ++ [j] <+: schedule → ¬ R l' j := by
  induction schedule using List.reverseRecOn with
  | nil => simp [h]
  | append_singleton schedule k ih =>
    rw [hstep, ih]
    constructor
    · rintro (hQ | ⟨⟨l, i, hl, hQ, hnone⟩, hR⟩)
      · -- the last step is followed by none
        refine ⟨schedule, k, List.prefix_rfl, hQ, fun l' j hl hl' => ?_⟩
        have hlength := hl.length_le
        have hlength' := hl'.length_le
        simp only [List.length_append, List.length_singleton] at hlength hlength'
        omega
      · refine ⟨l, i, hl.trans (List.prefix_append ..), hQ, fun l' j hl' hj => ?_⟩
        obtain ⟨rfl, rfl⟩ | hj := concat_prefix_concat_iff.mp hj
        · exact hR
        · exact hnone l' j hl' hj
    · rintro ⟨l, i, hl, hQ, hnone⟩
      obtain ⟨rfl, rfl⟩ | hl := concat_prefix_concat_iff.mp hl
      · exact .inl hQ
      · refine .inr ⟨⟨l, i, hl, hQ, fun l' j hl' hj => ?_⟩, hnone schedule k hl List.prefix_rfl⟩
        exact hnone l' j hl' (hj.trans (List.prefix_append ..))

/-- Over a run that starts with exclusive tiers, they stay exclusive for exactly as long as no late
product is taken up. -/
theorem exclusive_run_iff (app : Application v) {p : Pool v}
    (hp : p.state.registry.store.Exclusive) (schedule : List Nat) :
    (∀ l, l <+: schedule → (p.run app l).state.registry.store.Exclusive) ↔
      ∀ l i t, l ++ [i] <+: schedule → (p.run app l).Takes i t →
        ¬ t.LateProduct (p.run app l).state := by
  have hiff := forall_prefix_iff (P := fun l => (p.run app l).state.registry.store.Exclusive)
    (Q := fun l i => ∃ t, (p.run app l).Takes i t ∧ t.LateProduct (p.run app l).state) hp ?_
    schedule
  · rw [hiff]
    exact ⟨fun h l i t hl ht hlate => h l i hl ⟨t, ht, hlate⟩,
      fun h l i hl ⟨t, ht, hlate⟩ => h l i t hl ht hlate⟩
  · intro l i hl
    rw [run_concat]
    by_cases ht : ∃ t, (p.run app l).Takes i t
    · obtain ⟨t, ht⟩ := ht
      rw [step_of_takes app ht, Thread.exclusive_step_iff app t hl]
      refine not_congr ⟨fun hlate => ⟨t, ht, hlate⟩, fun ⟨u, hu, hlate⟩ => ?_⟩
      obtain rfl : t = u := Option.some.inj (ht.1.symm.trans hu.1)
      exact hlate
    · rw [step_of_not_takes app (not_exists.mp ht)]
      exact iff_of_true hl fun ⟨t, ht', _⟩ => ht ⟨t, ht'⟩

/-- In a pool of one thread, that thread is always informed. -/
theorem informed_of_takes (app : Application v) (s : State v) (main : Code v Unit)
    {schedule : List Nat} {i : Nat} {t : Thread v}
    (ht : ((start s [main]).run app schedule).Takes i t) :
    t.Informed ((start s [main]).run app schedule).state := by
  have hinv : ∃ t', ((start s [main]).run app schedule).threads = [t'] ∧
      t'.Informed ((start s [main]).run app schedule).state := by
    refine run_induction (P := fun p => ∃ t', p.threads = [t'] ∧ t'.Informed p.state) ?_
      ⟨.start main, rfl, trivial⟩ schedule
    rintro p j t₁ ⟨hj, -⟩ ⟨t₂, hp, ht₂⟩
    obtain ⟨rfl, rfl⟩ : j = 0 ∧ t₂ = t₁ := by
      rw [hp] at hj
      cases j <;> simp_all
    exact ⟨_, by rw [hp]; rfl, Thread.informed_step app p.state t₂⟩
  obtain ⟨t', hp, ht'⟩ := hinv
  obtain rfl : t' = t := by
    have h := ht.1
    rw [hp] at h
    cases i <;> simp_all
  exact ht'

/-- Where programs stand that were started on a fresh registry, a thread for each, after the steps
of a schedule. -/
def reached (app : Application v) (o : Options) (w : v.World) (programs : List (Code v Unit))
    (schedule : List Nat) : Pool v :=
  (start (.start o w) programs).run app schedule

theorem reached_concat (app : Application v) (o : Options) (w : v.World)
    (programs : List (Code v Unit)) (schedule : List Nat) (i : Nat) :
    reached app o w programs (schedule ++ [i]) = (reached app o w programs schedule).step app i :=
  run_concat ..

theorem reached_append (app : Application v) (o : Options) (w : v.World)
    (programs : List (Code v Unit)) (l m : List Nat) :
    reached app o w programs (l ++ m) = (reached app o w programs l).run app m :=
  List.foldl_append

/-- **Final and staged names.** Programs are run on a fresh registry, in any order of their steps.

* At every point of the run the final names are disjoint from the staged ones, exactly if up to then
  no producer has returned for a name that was final at that moment.
* A producer that does return for a final name leaves that name final and staged, and its lookup is
  answered with the staged instance.
* A lookup that is answered by any other step, while its name is final, never gets an early
  instance; where there is only one thread, it gets the final one. -/
theorem exclusive_iff_forall_not_lateProduct (app : Application v) (o : Options) (w : v.World)
    (programs : List (Code v Unit)) (schedule : List Nat) :
    ((∀ l, l <+: schedule →
        (reached app o w programs l).state.registry.store.Exclusive) ↔
      ∀ l i t, l ++ [i] <+: schedule → (reached app o w programs l).Takes i t →
        ¬ t.LateProduct (reached app o w programs l).state) ∧
    (∀ l i t, (reached app o w programs l).Takes i t →
      t.LateProduct (reached app o w programs l).state →
      ∃ n x e, t.occurrence (reached app o w programs l).state = some (.found n (some e)) ∧
        (reached app o w programs (l ++ [i])).state.registry.store.final? n = some x ∧
        (reached app o w programs (l ++ [i])).state.registry.store.early? n = some e) ∧
    ∀ l i t n r x, (reached app o w programs l).Takes i t →
      t.occurrence (reached app o w programs l).state = some (.found n r) →
      (reached app o w programs (l ++ [i])).state.registry.store.final? n = some x →
      ¬ t.LateProduct (reached app o w programs l).state →
      (∀ e, r = some e → e = x) ∧ (programs.length = 1 → r = some x) := by
  refine ⟨exclusive_run_iff app Store.exclusive_empty schedule, ?_, ?_⟩
  · intro l i t ht hlate
    rw [reached_concat, step_of_takes app ht]
    exact Thread.found_of_lateProduct app hlate
  · intro l i t n r x ht ho hx hlate
    rw [reached_concat, step_of_takes app ht] at hx
    obtain rfl | ⟨rfl, hi⟩ := Thread.found_of_final app ho hx hlate
    · exact ⟨fun e he => (Option.some.inj he).symm, fun _ => rfl⟩
    · refine ⟨by simp, fun hone => ?_⟩
      obtain ⟨main, rfl⟩ := List.length_eq_one_iff.mp hone
      exact (hi (informed_of_takes app _ main ht)).elim

end Pool

/-! ### A producer that registers its own name -/

/-- An application that publishes a producer for the name that is being built, and looks the name up
before the build is over. The producer registers instance 1 for the name and returns instance 2. -/
def Sample.selfRegistering : Application Sample.vocabulary where
  body {g} _ :=
    match g with
    | .construct => do
      let _ ← .ask (.publish "n" "producer")
      let _ ← .obtain "n"
      return .ok (3 : Nat)
    | .producer => do
      let _ ← .ask (.register "n" (1 : Nat))
      return (2 : Nat)
    | .main => return ()
    | .hook | .block => return .ok ()

/-- A run of that application, after so many steps. -/
def Sample.selfRegisteringRun (k : Nat) : Pool Sample.vocabulary :=
  .reached selfRegistering .default () [do let _ ← .obtainOrCreate "n" "construct"]
    (List.replicate k 0)

/-- A final name is staged, after a lookup of it was answered with instance 2 while the final
instance is 1. -/
theorem Sample.not_exclusive_selfRegistering :
    (∃ t, (selfRegisteringRun 10).Takes 0 t ∧
      t.occurrence (selfRegisteringRun 10).state = some (.found "n" (some (2 : Nat)))) ∧
    (selfRegisteringRun 11).state.registry.store.final? "n" = some (1 : Nat) ∧
    (selfRegisteringRun 11).state.registry.store.isFinal "n" = true ∧
    (selfRegisteringRun 11).state.registry.store.isStaged "n" = true :=
  ⟨⟨_, ⟨rfl, rfl⟩, rfl⟩, rfl, rfl, rfl⟩

end Wiring
