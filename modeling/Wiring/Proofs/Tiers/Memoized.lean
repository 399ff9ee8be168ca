import Wiring.Proofs.Builds.Once
import Wiring.Proofs.Builds.Published

/-!
# Early references are memoized

A lookup that needs the early reference of a name runs its producer, and the producer may do
anything: look the same name up again, publish another early reference for it and have that one
produced. So several producers of one name may be running at once, each on behalf of a lookup that
waits for it. The first product that comes back is kept, and every lookup is answered with what is
kept. As long as nobody publishes an early reference of the name anew, purges it, makes it final or
ends a build of it, that is the same instance for all of them.

Producers leave the store when they are run. A producer that is run was therefore published by the
last publication for its name, and no other lookup has run it since.

## Main definitions

* `Wiring.Thread.Renews`, `Wiring.Pool.Unrenewed` — what can replace an early reference.
* `Wiring.Pool.Finds` — a lookup is answered with an instance in a stretch of a run.
* `Wiring.Thread.producerBegun` — the producer that a step begins to run.
* `Wiring.Pool.Origin` — the publication from which a producer comes.

## Main results

* `Wiring.Pool.early?_run_of_unrenewed` — an early instance stays.
* `Wiring.Pool.early?_run_of_finds` — the early instance is what lookups were answered with.
* `Wiring.Pool.exists_origin` — a producer comes from a publication, and was not run since.
* `Wiring.Pool.early_reference_memoized` — both, over all runs.
-/

namespace Wiring

/-! ### The early tier after a change -/

namespace Store

variable {ι φ : Type} {s : Store ι φ} {n : String}

/-- Only few changes can take an early instance away. -/
theorem early?_apply {x : ι} (hx : s.early? n = some x) {c : Change ι φ} (hput : ∀ i, c ≠ .put n i)
    (hoffer : ∀ f, c = .offer n f → s.isFinal n = true) (hremove : c ≠ .remove n)
    (hdiscard : c ≠ .discard n) (hclear : c ≠ .clear) : (c.apply s).early? n = some x := by
  have hfind : s.early.find? n = some x := hx
  cases c with
  | keep | fetch => exact hx
  | put m i =>
    have hmn : m ≠ n := fun h => hput i (h ▸ rfl)
    simp [Change.apply, put, early?, Table.find?_erase, hmn, hfind]
  | offer m f =>
    simp only [Change.apply, offer]
    split
    · exact hx
    · next hfinal =>
      have hmn : m ≠ n := by
        rintro rfl
        exact hfinal (hoffer f rfl)
      simp [early?, Table.find?_erase, hmn, hfind]
  | memoize m i =>
    simp only [Change.apply, memoize]
    split
    · exact hx
    · next hnone =>
      have hmn : m ≠ n := by
        rintro rfl
        cases hnone.symm.trans hx
      simp [early?, Table.find?_insert, hmn, hfind]
  | remove m =>
    have hmn : m ≠ n := fun h => hremove (h ▸ rfl)
    simp [Change.apply, remove, early?, Table.find?_erase, hmn, hfind]
  | discard m =>
    have hmn : m ≠ n := fun h => hdiscard (h ▸ rfl)
    simp [Change.apply, discard, early?, Table.find?_erase, hmn, hfind]
  | clear => exact absurd rfl hclear

/-- A producer is there because it was offered, or because it was there before. -/
theorem producers_apply {f : φ} {c : Change ι φ} (h : (c.apply s).producers.find? n = some f) :
    c = .offer n f ∧ s.final? n = none ∨ s.producers.find? n = some f := by
  have herase {m : String} (h : (s.producers.erase m).find? n = some f) :
      s.producers.find? n = some f := by
    rw [Table.find?_erase] at h
    split at h
    · cases h
    · exact h
  cases c with
  | keep => exact .inr h
  | put | remove | discard | fetch => exact .inr (herase h)
  | clear => cases h
  | memoize m i =>
    have hkeep : (s.memoize m i).2.producers = s.producers := by
      unfold memoize
      split <;> rfl
    rw [Change.apply, hkeep] at h
    exact .inr h
  | offer m f' =>
    simp only [Change.apply, offer] at h
    split at h
    · exact .inr h
    · next hfinal =>
      simp only [Table.find?_insert] at h
      split at h
      · next hmn =>
        cases h
        subst hmn
        exact .inl ⟨rfl, isFinal_eq_false_iff.mp (by simpa using hfinal)⟩
      · exact .inr h

theorem producers_offer {f : φ} (hn : s.final? n = none) :
    (s.offer n f).2.producers.find? n = some f := by
  simp [offer, isFinal_eq_false_iff.mpr hn]

theorem seek_eq_early {x : ι} (h : s.seek n = .early x) : s.early? n = some x := by
  unfold seek at h
  split at h
  · next i hi => exact Sight.early.inj h ▸ hi
  · split at h <;> cases h

end Store

variable {v : Vocabulary}

namespace Thread

variable {s : State v} {t : Thread v} {n : String}

/-! ### What replaces an early reference -/

/-- The next step of a thread publishes an early reference of `n`, purges `n`, or ends a build of
`n`. -/
inductive Renews (s : State v) (n : String) (t : Thread v) : Prop
  | published (f : v.Closure .producer)
      (h : t.occurrence s = some (.answered (.publish n f) true))
  | purged (h : t.Purges n)
  | closed (outermost : Bool) (h : t.buildChange s = .finish ⟨n, outermost⟩)

/-- An early reference is published exactly if it is offered while its name is not final. -/
theorem published_iff {f : v.Closure .producer} :
    t.occurrence s = some (.answered (.publish n f) true) ↔
      t.storeChange s = .offer n f ∧ s.registry.store.final? n = none := by
  constructor
  · intro h
    obtain ⟨g, next, stack, rfl, hr⟩ := calling_of_answered h
    simp only [Request.answer, Registry.publish] at hr
    split at hr
    · cases hr
    · next hc =>
      split at hr
      · cases hr
      · next hm =>
        refine ⟨by simp [storeChange, Request.storeChange, hc, hm], ?_⟩
        rw [← Store.isFinal_eq_false_iff, Bool.eq_false_iff]
        intro hfinal
        simp [Store.offer, hfinal] at hr
  · rintro ⟨hc, hf⟩
    have hcause := t.cause_storeChange s
    rw [hc] at hcause
    cases hcause with
    | offer next stack =>
      simp only [storeChange, Request.storeChange] at hc
      split at hc
      · cases hc
      · next hopen =>
        obtain ⟨hcirc, hm⟩ := not_or.mp hopen
        simp only [occurrence, execOccurrence, Request.answer, Registry.publish, if_neg hcirc,
          if_neg hm, Store.offer, Store.isFinal_eq_false_iff.mpr hf]
        rfl

/-- What is staged for a name is discarded only at the end of a build of that name. -/
theorem Renews.of_discard (h : t.storeChange s = .discard n) : t.Renews s n := by
  cases withdraws_of_discard h with
  | purge hn => exact .purged hn
  | @returned g outermost => exact .closed outermost rfl
  | @abandoned g outermost => exact .closed outermost rfl
  | lost => cases h

/-- An early instance stays unless a step replaces it, or makes its name final. -/
theorem early?_step (app : Application v) {x : v.Inst} (hx : s.registry.store.early? n = some x)
    (hf : s.registry.store.final? n = none) (hr : ¬ t.Renews s n)
    (hnext : (t.step app s).1.registry.store.final? n = none) :
    (t.step app s).1.registry.store.early? n = some x := by
  have hcause := t.cause_storeChange s
  rw [store_step] at hnext ⊢
  refine Store.early?_apply hx (fun i hc => ?put) (fun f hc => ?offer) (fun hc => ?remove)
    (fun hc => hr (.of_discard hc)) (fun hc => ?clear)
  case put =>
    rw [hc, Store.Change.apply, Store.final?_put, if_pos rfl] at hnext
    cases hnext
  case offer => exact absurd (.published f (published_iff.mpr ⟨hc, hf⟩)) hr
  case remove =>
    rw [hc] at hcause
    cases hcause with
    | remove hn => exact absurd (.purged hn) hr
  case clear =>
    rw [hc] at hcause
    cases hcause with
    | clear hn => exact absurd (.purged (hn n)) hr

/-- While a name is not final, lookups of it are answered with the early instance that is kept
then. -/
theorem early?_of_found (app : Application v) {x : v.Inst}
    (ho : t.occurrence s = some (.found n (some x))) (hf : s.registry.store.final? n = none) :
    (t.step app s).1.registry.store.early? n = some x := by
  obtain ⟨g, resume, stack, ht, -⟩ := step_of_found ho
  rw [store_step]
  cases ht with
  | asked early => simp [occurrence, execOccurrence, hf] at ho
  | produced i =>
    obtain rfl : (s.registry.store.memoize n i).1 = x := by
      simpa [occurrence, execOccurrence, Stack.occurrence] using ho
    exact Store.early?_memoize ..
  | begun stage early =>
    cases stage with
    | reading =>
      simp only [occurrence, seekOccurrence] at ho
      split at ho <;> cases ho
    | waiting => cases ho
    | inside =>
      simp only [occurrence, seekOccurrence, hf] at ho
      simp only [storeChange, hf]
      split at ho
      · next he =>
        rw [he]
        split at ho
        · cases ho
        · next i hi =>
          cases ho
          simpa [hi, Store.Change.apply] using Store.seek_eq_early hi
        · cases ho
      · next he =>
        rw [Bool.eq_false_iff.mpr he]
        exact (Occurrence.found.inj (Option.some.inj ho)).2

/-! ### Producers that are run -/

/-- The producer that the next step of a thread begins to run, with the name it was published
for. -/
def producerBegun (s : State v) : Thread v → Option (String × v.Closure .producer)
  | .seek .inside n early _ _ =>
    match s.registry.store.final? n, early && s.registry.options.circular,
      s.registry.store.seek n with
    | none, true, .pending f _ => some (n, f)
    | _, _, _ => none
  | .exec .. | .seek .. | .begin .. | .walk .. | .unwind .. | .finished _ => none

/-- A producer that is run is taken out of the store, and the lookup waits for it. -/
theorem of_producerBegun (app : Application v) {f : v.Closure .producer}
    (h : t.producerBegun s = some (n, f)) :
    t.storeChange s = .fetch n ∧ s.registry.store.producers.find? n = some f ∧
      ∃ (g : Goal) (resume : Option v.Inst → Code v (g.Result v.Inst)) (stack : Stack v g),
        (t.step app s).2 = .exec (app.body f) (.producing n resume stack) ∧
          stack.frames = t.frames := by
  cases t with
  | seek stage m early resume stack =>
    cases stage with
    | inside =>
      simp only [producerBegun] at h
      split at h
      · next f' rest hf he hs =>
        cases h
        refine ⟨by simp only [storeChange, hf, he, hs], (Store.seek_eq_pending hs).2.1, _, resume,
          stack, ?_, rfl⟩
        simp only [step, seekStep, hf, he, if_true, hs]
      · cases h
    | _ => cases h
  | _ => cases h

/-- Whenever a lookup comes to wait for a producer, it is because one begins to run. -/
theorem exists_producerBegun (app : Application v)
    (h : (t.step app s).2.frames = .producing n :: t.frames) :
    ∃ f, t.producerBegun s = some (n, f) := by
  -- no other step adds a frame, except one of another kind
  have hlength := congrArg List.length h
  cases t with
  | exec code stack =>
    cases code with
    | done a =>
      cases stack with
      | top => cases h
      | tearing m todo next rest =>
        cases a <;> simp [step, execStep, Stack.leave, frames, Stack.frames] at hlength <;> omega
      | _ =>
        simp only [step, execStep, Stack.leave, frames, Stack.frames, List.length_cons] at hlength
        omega
    | lookup m early next =>
      cases hf : s.registry.store.final? m <;> simp [step, execStep, hf, frames] at hlength
    | create m c next =>
      cases hn : checkName m <;> simp [step, execStep, hn, frames] at hlength
    | hold | guard => cases h
    | _ => simp [step, execStep, frames] at hlength
  | seek stage m early resume stack =>
    cases stage with
    | reading =>
      cases hm : s.registry.marks.isMarked m <;> simp [step, seekStep, hm, frames] at hlength
    | waiting => simp [step, seekStep, frames] at hlength
    | inside =>
      simp only [step, seekStep] at h hlength
      simp only [producerBegun]
      split at hlength
      · simp [frames] at hlength
      · next hf =>
        split at hlength
        · next he =>
          split at hlength
          · simp [frames] at hlength
          · simp [frames] at hlength
          · next f rest hs =>
            simp only [hf, he, hs, if_true, frames, Stack.frames] at h
            cases h
            exact ⟨f, by simp [hf, he, hs]⟩
        · split at hlength <;> simp [frames] at hlength
  | begin stage m c resume stack =>
    cases stage with
    | reading =>
      cases hf : s.registry.store.final? m <;> simp [step, beginStep, hf, frames] at hlength
    | waiting => simp [step, beginStep, frames] at hlength
    | inside =>
      simp only [step, beginStep] at h
      split at h
      · simp [frames] at h
      · split at h
        · simp [frames] at h
        · split at h
          · simp [frames] at h
          · cases h
  | walk todo next stack =>
    cases todo with
    | nil => simp [step, walkStep, frames] at hlength
    | cons task rest =>
      cases task with
      | hook m k => cases h
      | _ => simp [step, walkStep, frames] at hlength
  | unwind q stack =>
    cases stack with
    | top => cases h
    | _ =>
      simp only [step, Stack.unwind, frames, Stack.frames, List.length_cons] at hlength
      omega
  | finished outcome => cases h

end Thread

namespace Pool

/-! ### Stretches without a renewal -/

/-- All over a schedule `n` is not final, and no step renews its early reference. -/
def Unrenewed (app : Application v) (n : String) : Pool v → List Nat → Prop
  | p, [] => p.store.final? n = none
  | p, i :: rest =>
    p.store.final? n = none ∧ (∀ t, p.Takes i t → ¬ t.Renews p.state n) ∧
      Unrenewed app n (p.step app i) rest

/-- The next step, if it is thread `i`'s turn, answers a lookup of `n` with `x`. -/
def Finds (p : Pool v) (i : Nat) (n : String) (x : v.Inst) : Prop :=
  ∃ t, p.Takes i t ∧ t.occurrence p.state = some (.found n (some x))

section Stretch

variable {app : Application v} {p : Pool v} {n : String} {l m : List Nat} {i : Nat} {x : v.Inst}

theorem Unrenewed.final?_eq_none (h : Unrenewed app n p m) : p.store.final? n = none := by
  cases m with
  | nil => exact h
  | cons i rest => exact h.1

theorem Unrenewed.of_append (h : Unrenewed app n p (l ++ m)) : Unrenewed app n (p.run app l) m := by
  induction l generalizing p with
  | nil => exact h
  | cons i l ih => exact ih h.2.2

/-- An early instance stays over a stretch without a renewal. -/
theorem early?_run_of_unrenewed (hx : p.store.early? n = some x) (h : Unrenewed app n p m) :
    (p.run app m).store.early? n = some x := by
  induction m generalizing p with
  | nil => exact hx
  | cons i rest ih =>
    obtain ⟨hf, hr, hrest⟩ := h
    refine ih ?_ hrest
    have hnext := hrest.final?_eq_none
    by_cases ht : ∃ t, p.Takes i t
    · obtain ⟨t, ht⟩ := ht
      rw [step_of_takes app ht] at hnext ⊢
      exact Thread.early?_step app hx hf (hr t ht) hnext
    · rw [step_of_not_takes app (not_exists.mp ht)]
      exact hx

/-- Whatever a lookup is answered with in a stretch without a renewal is the early instance at its
end. -/
theorem early?_run_of_finds (h : Unrenewed app n p m) (hl : l ++ [i] <+: m)
    (hfinds : (p.run app l).Finds i n x) : (p.run app m).store.early? n = some x := by
  obtain ⟨rest, rfl⟩ := hl
  obtain ⟨t, ht, ho⟩ := hfinds
  have hafter : (p.run app (l ++ [i])).store.early? n = some x := by
    have hf : (p.run app l).store.final? n = none :=
      (Unrenewed.of_append (by rwa [List.append_assoc] at h)).final?_eq_none
    rw [run_concat, step_of_takes app ht]
    exact Thread.early?_of_found app ho hf
  have hrun := early?_run_of_unrenewed hafter h.of_append
  rwa [run, run, ← List.foldl_append] at hrun

/-- Nobody is handed a final instance in a stretch without a renewal. -/
theorem not_created_of_unrenewed (h : Unrenewed app n p m) (hl : l ++ [i] <+: m) {t : Thread v}
    (ht : (p.run app l).Takes i t) :
    t.occurrence (p.run app l).state ≠ some (.created n (.ok x)) := by
  obtain ⟨rest, rfl⟩ := hl
  intro ho
  have hx := final?_step_of_handsOut app ht (.created ho)
  rw [← run_concat, h.of_append.final?_eq_none] at hx
  cases hx

end Stretch

/-! ### Where a producer comes from -/

/-- The next step, if it is thread `i`'s turn, publishes the producer `f` for `n`. -/
def Publishes (p : Pool v) (i : Nat) (n : String) (f : v.Closure .producer) : Prop :=
  ∃ t, p.Takes i t ∧ t.occurrence p.state = some (.answered (.publish n f) true)

/-- The next step, if it is thread `i`'s turn, begins to run the producer `f` of `n`. -/
def Invokes (p : Pool v) (i : Nat) (n : String) (f : v.Closure .producer) : Prop :=
  ∃ t, p.Takes i t ∧ t.producerBegun p.state = some (n, f)

/-- A producer waits in the store if it was just published, or if it was there before, no step has
published another one for its name or run one, and it is still there. -/
theorem find?_producers_step_iff (app : Application v) {p : Pool v} {i : Nat} {n : String}
    {f : v.Closure .producer} :
    (p.step app i).store.producers.find? n = some f ↔
      p.Publishes i n f ∨ p.store.producers.find? n = some f ∧
        ¬ ((∃ f', p.Publishes i n f') ∨ (∃ f', p.Invokes i n f') ∨
          (p.step app i).store.producers.find? n ≠ some f) := by
  by_cases ht : ∃ t, p.Takes i t
  · obtain ⟨t, ht⟩ := ht
    have hthread {u : Thread v} (hu : p.Takes i u) : u = t := Option.some.inj (hu.1.symm.trans ht.1)
    have hoffered {f' : v.Closure .producer} (h : p.Publishes i n f') :
        (p.step app i).store.producers.find? n = some f' := by
      obtain ⟨u, hu, ho⟩ := h
      obtain ⟨hc, hf⟩ := Thread.published_iff.mp ho
      rw [step_of_takes app hu, Pool.store, Thread.store_step, hc]
      exact Store.producers_offer hf
    constructor
    · intro h
      by_cases hpublished : p.Publishes i n f
      · exact .inl hpublished
      have hchange := h
      rw [step_of_takes app ht, Pool.store, Thread.store_step] at hchange
      obtain ⟨hc, hf⟩ | hbefore := Store.producers_apply hchange
      · exact absurd ⟨t, ht, Thread.published_iff.mpr ⟨hc, hf⟩⟩ hpublished
      refine .inr ⟨hbefore, ?_⟩
      rintro (⟨f', h'⟩ | ⟨f', u, hu, hbegun⟩ | hne)
      · obtain rfl : f = f' := Option.some.inj (h.symm.trans (hoffered h'))
        exact hpublished h'
      · obtain rfl := hthread hu
        rw [(Thread.of_producerBegun app hbegun).1, Store.Change.apply, Store.fetch,
          Table.find?_erase_self] at hchange
        cases hchange
      · exact hne h
    · rintro (hpublished | ⟨-, hkept⟩)
      · exact hoffered hpublished
      · by_contra hne
        exact hkept (.inr (.inr hne))
  · rw [step_of_not_takes app (not_exists.mp ht)]
    have hpublishes : ∀ f', ¬ p.Publishes i n f' := by
      rintro f' ⟨u, hu, -⟩
      exact ht ⟨u, hu⟩
    have hinvokes : ∀ f', ¬ p.Invokes i n f' := by
      rintro f' ⟨u, hu, -⟩
      exact ht ⟨u, hu⟩
    simp [hpublishes, hinvokes]

section Reached

variable (app : Application v) (o : Options) (w : v.World) (programs : List (Code v Unit))

/-- The last publication for `n` in the course of the steps `l` is that of `f`, by the step that
thread `j` takes after the steps `l₀`. -/
structure Origin (l₀ : List Nat) (j : Nat) (l : List Nat) (n : String) (f : v.Closure .producer) :
    Prop where
  published : (reached app o w programs l₀).Publishes j n f
  before : l₀ ++ [j] <+: l
  last : ∀ l' k f', l₀ ++ [j] <+: l' → l' ++ [k] <+: l →
    ¬ (reached app o w programs l').Publishes k n f'

variable {app o w programs}

/-- There is only one last publication. -/
theorem Origin.eq {l₀ l₁ l : List Nat} {j k : Nat} {n : String} {f f' : v.Closure .producer}
    (h : Origin app o w programs l₀ j l n f) (h' : Origin app o w programs l₁ k l n f') :
    l₀ = l₁ ∧ j = k := by
  obtain hlt | hlt | heq := concat_prefix_or_eq h.before h'.before
  · exact absurd h'.published (h.last l₁ k f' hlt h'.before)
  · exact absurd h.published (h'.last l₀ j f hlt h.before)
  · exact heq

/-- A producer that waits in the store comes from the last publication for its name, and no producer
of that name was run since. -/
theorem exists_origin {l : List Nat} {n : String} {f : v.Closure .producer}
    (h : (reached app o w programs l).store.producers.find? n = some f) :
    ∃ l₀ j, Origin app o w programs l₀ j l n f ∧
      ∀ l' k f', l₀ ++ [j] <+: l' → l' ++ [k] <+: l →
        ¬ (reached app o w programs l').Invokes k n f' := by
  have hstep (l : List Nat) (i : Nat) := find?_producers_step_iff app
    (p := reached app o w programs l) (i := i) (n := n) (f := f)
  simp only [← reached_concat] at hstep
  obtain ⟨l₀, j, hbefore, hpublished, hsince⟩ := (holds_iff_since
    (P := fun l => (reached app o w programs l).store.producers.find? n = some f)
    (fun hnone => by cases hnone) hstep l).mp h
  exact ⟨l₀, j,
    ⟨hpublished, hbefore, fun l' k f' hl' hk hf' => hsince l' k hl' hk (.inl ⟨f', hf'⟩)⟩,
    fun l' k f' hl' hk hf' => hsince l' k hl' hk (.inr (.inl ⟨f', hf'⟩))⟩

theorem Invokes.find?_producers {l : List Nat} {i : Nat} {n : String} {f : v.Closure .producer}
    (h : (reached app o w programs l).Invokes i n f) :
    (reached app o w programs l).store.producers.find? n = some f := by
  obtain ⟨t, -, hbegun⟩ := h
  exact (Thread.of_producerBegun app hbegun).2.1

/-- Of two producers that are run one after the other, the second one was not yet published when the
first one was run. -/
theorem Invokes.not_origin {l l' l₀ : List Nat} {i i' j : Nat} {n : String}
    {f f' : v.Closure .producer} (h : (reached app o w programs l).Invokes i n f)
    (h' : (reached app o w programs l').Invokes i' n f') (hlt : l ++ [i] <+: l')
    (hbefore : l₀ ++ [j] <+: l) : ¬ Origin app o w programs l₀ j l' n f' := by
  intro horigin
  obtain ⟨l₁, k, horigin', hsince⟩ := exists_origin h'.find?_producers
  obtain ⟨rfl, rfl⟩ := horigin.eq horigin'
  exact hsince l i f hbefore hlt h

end Reached

/-- **Memoized early references.** In any pool of threads, wherever it stands, and over any stretch
of its run in which `n` is never final, no early reference of `n` is published, and `n` is neither
purged nor a build of it ended:

* all lookups of `n` that are answered with an instance are answered with the same one, whatever
  producers were running before, and it is the early instance of `n` from then on;
* no request for the final instance of `n` is answered with an instance, so a request to resolve `n`
  that is answered with one has it from a lookup.

Programs are run on a fresh registry, in any order of their steps:

* a lookup of `n` comes to wait for a producer exactly by a step that begins to run one;
* that step goes on with the code of the producer;
* the producer comes from the last publication for `n` up to then, and no other step of the run
  begins to run a producer that comes from the same publication. -/
theorem early_reference_memoized (app : Application v) (n : String) :
    (∀ (p : Pool v) (m : List Nat), Unrenewed app n p m →
      (∀ l i x, l ++ [i] <+: m → (p.run app l).Finds i n x →
        (p.run app m).store.early? n = some x ∧
        ∀ l' i' x', l' ++ [i'] <+: m → (p.run app l').Finds i' n x' → x' = x) ∧
      ∀ l i t x, l ++ [i] <+: m → (p.run app l).Takes i t →
        t.occurrence (p.run app l).state ≠ some (.created n (.ok x))) ∧
    ∀ (o : Options) (w : v.World) (programs : List (Code v Unit)) (schedule : List Nat),
      let run := reached app o w programs
      (∀ l i t, (run l).Takes i t →
        ((t.step app (run l).state).2.frames = .producing n :: t.frames ↔
          ∃ f, (run l).Invokes i n f)) ∧
      ∀ l i f, l ++ [i] <+: schedule → (run l).Invokes i n f →
        (∃ (g : Goal) (resume : Option v.Inst → Code v (g.Result v.Inst)) (stack : Stack v g),
          (run (l ++ [i])).threads[i]? = some (.exec (app.body f) (.producing n resume stack))) ∧
        ∃ l₀ j, Origin app o w programs l₀ j l n f ∧
          ∀ l' i' f', l' ++ [i'] <+: schedule → (run l').Invokes i' n f' →
            Origin app o w programs l₀ j l' n f' → l' = l ∧ i' = i := by
  refine ⟨fun p m hm => ⟨fun l i x hl hx => ⟨early?_run_of_finds hm hl hx, ?same⟩,
    fun l i t x hl => not_created_of_unrenewed hm hl⟩, fun o w programs schedule => ?_⟩
  case same =>
    intro l' i' x' hl' hx'
    exact Option.some.inj ((early?_run_of_finds hm hl' hx').symm.trans
      (early?_run_of_finds hm hl hx))
  intro run
  refine ⟨fun l i t ht => ⟨fun h => ?_, fun ⟨f, u, hu, hf⟩ => ?_⟩, fun l i f hl hf => ⟨?_, ?_⟩⟩
  · obtain ⟨f, hf⟩ := Thread.exists_producerBegun app h
    exact ⟨f, t, ht, hf⟩
  · obtain rfl : u = t := Option.some.inj (hu.1.symm.trans ht.1)
    obtain ⟨-, -, g, resume, stack, hstep, hstack⟩ := Thread.of_producerBegun app hf
    rw [hstep, ← hstack]
    rfl
  · obtain ⟨t, ht, hbegun⟩ := hf
    obtain ⟨-, -, g, resume, stack, hstep, -⟩ := Thread.of_producerBegun app hbegun
    refine ⟨g, resume, stack, ?_⟩
    rw [← hstep]
    change (reached ..).threads[i]? = _
    rw [reached_concat]
    exact getElem?_step_self app ht
  · obtain ⟨l₀, j, horigin, -⟩ := exists_origin hf.find?_producers
    refine ⟨l₀, j, horigin, fun l' i' f' hl' hf' horigin' => ?_⟩
    obtain hlt | hlt | ⟨rfl, rfl⟩ := concat_prefix_or_eq hl hl'
    · exact absurd horigin' (hf.not_origin hf' hlt horigin.before)
    · exact absurd horigin (hf'.not_origin hf hlt horigin'.before)
    · exact ⟨rfl, rfl⟩

end Pool

/-! ### Two producers of one name at once -/

namespace Sample

/-- An application whose construct publishes the early reference "first" of "n" and looks "n" up
twice. The producer "first" gives 1, but before it does it publishes the early reference "second" of
"n" and looks "n" up itself; the producer "second" gives 2. -/
def relaying : Application vocabulary where
  body {g} (c : String) :=
    match g with
    | .construct => do
      let _ ← .ask (.publish "n" "first")
      let _ ← .obtain "n"
      let _ ← .obtain "n"
      return .ok (5 : Nat)
    | .producer =>
      if c = "first" then do
        let _ ← .ask (.publish "n" "second")
        let _ ← .obtain "n"
        return (1 : Nat)
      else return (2 : Nat)
    | .main => return ()
    | .hook | .block => return .ok ()

/-- A program that asks for "n". -/
def relayingMain : Code vocabulary Unit := do
  let _ ← .obtainOrCreate "n" "n"

/-- A run of that program, after so many steps. -/
def relayingRun (k : Nat) : Pool vocabulary :=
  .reached relaying .default () [relayingMain] (List.replicate k 0)

/-- The producer "first" is running when "second" is published, and returns 1 after "second" has
returned 2. All lookups from then on are answered with 2, the one that waits for "first" too, and
each of the two is run once. -/
theorem early_reference_memoized_relaying :
    (∃ t, (relayingRun 10).threads[0]? = some t ∧ .producing "n" ∈ t.frames) ∧
    Pool.Unrenewed relaying "n" (relayingRun 10) (List.replicate 10 0) ∧
    (relayingRun 15).Finds 0 "n" (2 : Nat) ∧
    (∀ l i x, l ++ [i] <+: List.replicate 10 0 →
      ((relayingRun 10).run relaying l).Finds i "n" x → x = (2 : Nat)) ∧
    (relayingRun 13).Invokes 0 "n" "second" ∧
    ∃ l j, Pool.Origin relaying .default () [relayingMain] l j (List.replicate 13 0) "n" "second" ∧
      ¬ Pool.Origin relaying .default () [relayingMain] l j (List.replicate 8 0) "n" "first" := by
  have hstretch : Pool.Unrenewed relaying "n" (relayingRun 10) (List.replicate 10 0) := by
    refine ⟨rfl, ?_, rfl, ?_, rfl, ?_, rfl, ?_, rfl, ?_, rfl, ?_, rfl, ?_, rfl, ?_, rfl, ?_,
      rfl, ?_, rfl⟩ <;>
      · rintro t ⟨ht, -⟩ hrenews
        obtain rfl := Option.some.inj ht
        cases hrenews with
        | published f h => cases h
        | purged h => cases h
        | closed outermost h => cases h
  obtain ⟨hmemoized, hruns⟩ := Pool.early_reference_memoized relaying "n"
  obtain ⟨-, hinvoked⟩ := hruns .default () [relayingMain] (List.replicate 14 0)
  obtain ⟨-, l, j, horigin, honce⟩ :=
    hinvoked (List.replicate 13 0) 0 "second" ⟨[], rfl⟩ ⟨_, ⟨rfl, rfl⟩, rfl⟩
  refine ⟨⟨_, rfl, List.mem_cons_self⟩, hstretch, ⟨_, ⟨rfl, rfl⟩, rfl⟩, ?_, ⟨_, ⟨rfl, rfl⟩, rfl⟩,
    l, j, horigin, fun hfirst => ?_⟩
  · exact ((hmemoized _ _ hstretch).1 (List.replicate 4 0) 0 (2 : Nat) ⟨_, rfl⟩
      ⟨_, ⟨rfl, rfl⟩, rfl⟩).2
  · obtain ⟨h, -⟩ := honce (List.replicate 8 0) 0 "first" ⟨List.replicate 5 0, rfl⟩
      ⟨_, ⟨rfl, rfl⟩, rfl⟩ hfirst
    cases h

end Sample

end Wiring
