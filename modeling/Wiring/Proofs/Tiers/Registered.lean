import Wiring.Proofs.Builds.Success

/-!
# Registered names are accounted for

With a single thread, every registered name is final, staged or marked. A producer that is being run
has left the tiers, but only a lookup of a marked name runs one; and a build that takes the mark of
its name away makes the name final, or forgets it. (With several threads, a lookup may meet a
producer of a name that has lost its mark while the lookup waited for the lock.)

## Main definitions

* `Wiring.Store.Accounted` — every registered name is final, staged or marked.
* `Wiring.Thread.Attested` — a name that the thread looks up with the lock is marked.

## Main results

* `Wiring.Store.Accounted.apply` — all changes of the tiers keep names accounted for.
* `Wiring.accounted_run` — registered names are accounted for, over all runs of a single thread.
-/

namespace Wiring

/-! ### Changes of the tiers -/

namespace Store

variable {ι φ : Type} {s : Store ι φ} {k : Marks}

/-- Every registered name is final, staged or marked. -/
def Accounted (s : Store ι φ) (k : Marks) : Prop :=
  ∀ m ∈ s.registered, s.final? m ≠ none ∨ s.isStaged m = true ∨ k.isMarked m = true

theorem registered_discard (s : Store ι φ) {n m : String} :
    m ∈ (s.discard n).registered ↔ m ∈ s.registered ∧ (m = n → s.isFinal n = true) := by
  unfold discard
  cases h : s.isFinal n <;> simp

theorem isStaged_fetch (s : Store ι φ) {n m : String} (h : n ≠ m) :
    (s.fetch n).isStaged m = s.isStaged m := by
  simp [fetch, isStaged, Table.contains_erase, h]

/-- Every change keeps names accounted for, if producers are fetched only for marked names. -/
theorem Accounted.apply (h : s.Accounted k) {c : Change ι φ}
    (hc : ∀ n, c = .fetch n → k.isMarked n = true) : (c.apply s).Accounted k := by
  intro m hm
  cases c with
  | keep => exact h m hm
  | put n i =>
    rw [Change.apply, final?_put, isStaged_put]
    by_cases hnm : n = m
    · exact .inl (by simp [hnm])
    · have hm' : m ∈ s.registered := by simpa [Change.apply, put, Ne.symm hnm] using hm
      simpa [hnm] using h m hm'
  | offer n p =>
    rw [Change.apply, final?_offer, isStaged_offer]
    cases hf : s.isFinal n with
    | true =>
      have hm' : m ∈ s.registered := by simpa [Change.apply, offer, hf] using hm
      simpa using h m hm'
    | false =>
      by_cases hnm : n = m
      · exact .inr (.inl (by simp [hnm]))
      · have hm' : m ∈ s.registered := by
          simpa [Change.apply, offer, hf, Ne.symm hnm] using hm
        simpa [hnm] using h m hm'
  | fetch n =>
    by_cases hnm : n = m
    · exact .inr (.inr (hnm ▸ hc n rfl))
    · rw [Change.apply, isStaged_fetch s hnm]
      exact h m hm
  | memoize n i =>
    rw [Change.apply, final?_memoize, isStaged_memoize]
    have hm' : m ∈ s.registered := by
      rw [Change.apply, memoize] at hm
      split at hm <;> exact hm
    obtain hf | hs | hM := h m hm'
    · exact .inl hf
    · exact .inr (.inl (by simp [hs]))
    · exact .inr (.inr hM)
  | remove n =>
    obtain ⟨hm', hne⟩ : m ∈ s.registered ∧ m ≠ n := by simpa [Change.apply, remove] using hm
    rw [Change.apply, final?_remove, isStaged_remove]
    simpa [Ne.symm hne] using h m hm'
  | discard n =>
    obtain ⟨hm', hfinal⟩ := registered_discard s |>.mp hm
    rw [Change.apply, final?_discard, isStaged_discard]
    by_cases hnm : n = m
    · exact .inl (isFinal_iff.mp (hnm ▸ hfinal hnm.symm))
    · simpa [hnm] using h m hm'
  | clear => cases hm

end Store

variable {v : Vocabulary}

/-! ### Lookups -/

namespace Thread

/-- A thread that looks up a name with the lock, or waits for it, has seen that the name is
marked. -/
def Attested (s : State v) : Thread v → Prop
  | .seek .waiting n _ _ _ | .seek .inside n _ _ _ => s.registry.marks.isMarked n = true
  | .seek .reading .. | .exec .. | .begin .. | .walk .. | .unwind .. | .finished _ => True

theorem attested_step (app : Application v) {s : State v} {t : Thread v} (ht : t.Attested s) :
    (t.step app s).2.Attested (t.step app s).1 := by
  cases h : (t.step app s).2 with
  | seek stage n early resume stack =>
    obtain ⟨hs, ⟨rfl, -⟩ | ⟨rfl, hm⟩ | ⟨rfl, rfl⟩⟩ := of_step_eq_seek app h
    · trivial
    · rw [hs]
      exact hm
    · rw [hs]
      exact ht
  | _ => trivial

/-! ### Registered names -/

/-- A build that takes the mark of its name away discards what is staged for the name, or leaves it
final. -/
theorem discards_or_final_of_finish (app : Application v) {s : State v} {t : Thread v} {b : Build}
    (h : t.buildChange s = .finish b) (hm : s.registry.marks.isMarked b.name = true) :
    t.storeChange s = .discard b.name ∨
      (t.step app s).1.registry.store.final? b.name ≠ none := by
  rw [store_step]
  have hcause := t.buildCause_buildChange s
  rw [h] at hcause
  cases hcause with
  | panicked p resume rest => exact .inl rfl
  | @returned g n outermost r resume rest =>
    obtain ⟨m, hfinish⟩ := Marks.finishes_iff.mp (.inr hm)
    rw [storeChange, Registry.settleChange]
    cases ho : s.registry.outcome n outermost r with
    | failed e => exact .inl rfl
    | present i =>
      have hf := Registry.final?_of_outcome_eq_present ho
      exact .inr (by simp [Store.Change.apply, hf])
    | fresh i =>
      simp only [hfinish]
      cases hf : s.registry.store.final? n with
      | none => exact .inr (by simp [Store.Change.apply, Store.final?_put])
      | some y => exact .inr (by simp [Store.Change.apply, hf])

/-- A build that takes the mark of its name away makes the name final, or forgets it. -/
theorem final?_ne_none_of_finish (app : Application v) {s : State v} {t : Thread v} {b : Build}
    (h : t.buildChange s = .finish b) (hm : s.registry.marks.isMarked b.name = true)
    (hr : b.name ∈ (t.step app s).1.registry.store.registered) :
    (t.step app s).1.registry.store.final? b.name ≠ none := by
  refine (discards_or_final_of_finish app h hm).elim (fun hc => ?_) id
  rw [store_step, hc] at hr ⊢
  exact Store.isFinal_iff.mp ((Store.registered_discard _).mp hr |>.2 rfl)

/-- A step of a single thread keeps registered names accounted for. -/
theorem accounted_step (app : Application v) {s : State v} {t : Thread v} (ht : t.Attested s)
    (h : s.registry.store.Accounted s.registry.marks) :
    (t.step app s).1.registry.store.Accounted (t.step app s).1.registry.marks := by
  -- the tiers change first, under the marks as they were
  have hold : (t.step app s).1.registry.store.Accounted s.registry.marks := by
    rw [store_step]
    refine h.apply fun n hn => ?_
    have hcause := t.cause_storeChange s
    rw [hn] at hcause
    cases hcause with
    | fetch resume stack hf => exact ht
  intro m hm
  rw [(t.buildChange_step app s).marks]
  obtain hf | hs | hmarked := hold m hm
  · exact .inl hf
  · exact .inr (.inl hs)
  · cases hc : t.buildChange s with
    | keep => exact .inr (.inr hmarked)
    | exclude n on => exact .inr (.inr hmarked)
    | begin b =>
      rw [Build.Change.isMarked_begin, hmarked]
      exact .inr (.inr rfl)
    | finish b =>
      by_cases hmb : m = b.name
      · subst hmb
        exact .inl (final?_ne_none_of_finish app hc hmarked hm)
      · rw [Build.Change.isMarked_finish, hmarked]
        exact .inr (.inr (by simp [hmb]))

end Thread

/-! ### Runs -/

/-- What every step of a single thread keeps, its runs keep. -/
theorem run_induction {app : Application v} {P : State v → Thread v → Prop}
    (hstep : ∀ s t, P s t → P (t.step app s).1 (t.step app s).2) {s : State v} {t : Thread v}
    (h : P s t) (k : Nat) : P (run app k (s, t)).1 (run app k (s, t)).2 := by
  induction k generalizing s t with
  | zero => exact h
  | succ k ih =>
    rw [run_succ]
    exact ih (hstep s t h)

/-- In a program that is run by a single thread on a fresh registry, every registered name is final,
staged or marked at any time. -/
theorem accounted_run (app : Application v) (o : Options) (w : v.World) (main : Code v Unit)
    (k : Nat) :
    (run app k (.start o w, .start main)).1.registry.store.Accounted
      (run app k (.start o w, .start main)).1.registry.marks := by
  refine (run_induction (P := fun s t => t.Attested s ∧
    s.registry.store.Accounted s.registry.marks) ?_ ?_ k).2
  · exact fun s t h => ⟨Thread.attested_step app h.1, Thread.accounted_step app h.1 h.2⟩
  · exact ⟨trivial, fun m hm => nomatch hm⟩

end Wiring
