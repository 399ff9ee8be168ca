import Wiring.Proofs.Builds.Published
import Wiring.Proofs.Builds.Tracked
import Wiring.Proofs.Tiers.Registered

/-!
# Early references stay within a thread

A lookup asks whether a name is marked before it waits for the lock, and does not ask again when it
has the lock. So a thread may look into the early tier although the build that it has seen is over,
and was a build of another thread. It finds nothing there. What is staged for a name is gone when
the mark of the name is, however the build ended, provided that the name is not excluded from
tracking; and while the mark is there, only the thread that builds has the lock.

## Main definitions

* `Wiring.Store.Present` — a name is registered or staged.
* `Wiring.Frame.Sheltered` — producers of a name are run inside builds of the name.
* `Wiring.Pool.Sheltered` — what is present of a name is final or being built, and producers of the
  name are run inside builds of it.

## Main results

* `Wiring.Pool.sheltered_reached` — a name that is never excluded is sheltered, over all runs.
* `Wiring.Pool.Sheltered.build_of_found` — who finds an early instance has a build open.
* `Wiring.Pool.early_found_in_own_build` — this, and what a lookup comes to that has to wait.
-/

namespace Wiring

variable {v : Vocabulary}

/-! ### Present names -/

namespace Store

variable {ι φ : Type} {s : Store ι φ} {n : String} {c : Change ι φ}

/-- `n` is registered, or something is staged for it. -/
def Present (s : Store ι φ) (n : String) : Prop := n ∈ s.registered ∨ s.isStaged n = true

theorem not_present_empty : ¬ (empty : Store ι φ).Present n := fun h => h.elim nofun nofun

theorem isStaged_of_isStaged_fetch {m : String} (h : (s.fetch m).isStaged n = true) :
    s.isStaged n = true := by
  rw [isStaged, Bool.or_eq_true_iff] at h ⊢
  refine h.imp_right fun hp => ?_
  rw [fetch, Table.contains_erase] at hp
  exact (Bool.and_eq_true_iff.mp hp).2

/-- A name becomes present by an instance, by a producer, or by a product. -/
theorem present_apply (h : (c.apply s).Present n) :
    s.Present n ∨ (∃ i, c = .put n i) ∨ (∃ p, c = .offer n p) ∨ ∃ i, c = .memoize n i := by
  unfold Present at h ⊢
  cases c with
  | keep => exact .inl h
  | put m i =>
    rw [Change.apply, isStaged_put] at h
    by_cases hm : m = n
    · exact .inr (.inl ⟨i, by rw [hm]⟩)
    · simpa [put, hm, Ne.symm hm] using h
  | offer m p =>
    rw [Change.apply, isStaged_offer] at h
    by_cases hm : m = n
    · exact .inr (.inr (.inl ⟨p, by rw [hm]⟩))
    · unfold offer at h
      split at h <;> simp_all [Ne.symm hm]
  | fetch m => exact .inl (h.imp_right isStaged_of_isStaged_fetch)
  | memoize m i =>
    rw [Change.apply, isStaged_memoize] at h
    by_cases hm : m = n
    · exact .inr (.inr (.inr ⟨i, by rw [hm]⟩))
    · unfold memoize at h
      split at h <;> simpa [hm] using h
  | remove m =>
    rw [Change.apply, isStaged_remove] at h
    refine .inl (h.imp (fun hr => (Names.mem_erase.mp hr).1) fun hs => ?_)
    exact (Bool.and_eq_true_iff.mp hs).2
  | discard m =>
    rw [Change.apply, isStaged_discard, registered_discard] at h
    exact .inl (h.imp And.left fun hs => (Bool.and_eq_true_iff.mp hs).2)
  | clear => exact absurd h not_present_empty

/-- A final name that is still present after a change is still final. -/
theorem final?_apply_of_present (hf : s.final? n ≠ none) (h : (c.apply s).Present n) :
    (c.apply s).final? n ≠ none := by
  cases c with
  | keep | fetch => exact hf
  | put m i =>
    rw [Change.apply, final?_put]
    split
    · exact Option.some_ne_none i
    · exact hf
  | offer m p => rwa [Change.apply, final?_offer]
  | memoize m i => rwa [Change.apply, final?_memoize]
  | discard m => rwa [Change.apply, final?_discard]
  | remove m =>
    rw [Change.apply, Present, isStaged_remove] at h
    rw [Change.apply, final?_remove]
    have hm : m ≠ n := by
      rintro rfl
      simp [remove] at h
    rwa [if_neg hm]
  | clear => exact absurd h not_present_empty

/-- A name that is discarded stays present only if it is final. -/
theorem final?_of_present_discard (h : (s.discard n).Present n) :
    (s.discard n).final? n ≠ none := by
  rw [Present, isStaged_discard, registered_discard] at h
  have hfinal : n ∈ s.registered ∧ s.isFinal n = true := by simpa using h
  exact isFinal_iff.mp hfinal.2

end Store

/-! ### Producers are run inside builds -/

/-- In a list of frames, every producer of `n` is run inside a build of `n`. -/
def Frame.Sheltered (n : String) : List Frame → Prop
  | [] => True
  | f :: rest => (f = .producing n → .building n ∈ rest) ∧ Sheltered n rest

theorem Frame.Sheltered.building_mem {n : String} {l : List Frame} (h : Sheltered n l)
    (hp : .producing n ∈ l) : .building n ∈ l := by
  induction l with
  | nil => cases hp
  | cons f rest ih =>
    obtain rfl | hp := List.mem_cons.mp hp
    · exact List.mem_cons_of_mem _ (h.1 rfl)
    · exact List.mem_cons_of_mem _ (ih h.2 hp)

theorem Stack.building_of_builds {g : Goal} {stack : Stack v g} {b : Build}
    (h : b ∈ stack.builds) : .building b.name ∈ stack.frames := by
  induction stack with
  | top => cases h
  | building m outermost resume rest ih =>
    obtain rfl | h := List.mem_cons.mp h
    · exact List.mem_cons_self
    · exact List.mem_cons_of_mem _ (ih h)
  | _ =>
    rename_i ih
    exact List.mem_cons_of_mem _ (ih h)

namespace Thread

theorem building_of_builds {t : Thread v} {b : Build} (h : b ∈ t.builds) :
    .building b.name ∈ t.frames := by
  cases t with
  | finished outcome => cases h
  | exec | seek | begin | walk | unwind => exact Stack.building_of_builds h

/-- A producer is run only after it has been taken out of the tiers. -/
theorem producing_or_fetch (app : Application v) {s : State v} {t : Thread v} {n : String}
    (h : .producing n ∈ (t.step app s).2.frames) :
    .producing n ∈ t.frames ∨ t.storeChange s = .fetch n := by
  cases t with
  | exec code stack =>
    cases code with
    | done a =>
      cases stack with
      | tearing m todo next rest => cases a <;> exact .inl (List.mem_cons_of_mem _ h)
      | top => cases h
      | building | producing | holding | guarding => exact .inl (List.mem_cons_of_mem _ h)
    | lookup m early next =>
      simp only [step, execStep] at h
      split at h <;> exact .inl h
    | create m c next =>
      simp only [step, execStep] at h
      split at h <;> exact .inl h
    | hold | guard => exact .inl ((List.mem_cons.mp h).resolve_left Frame.noConfusion)
    | _ => exact .inl h
  | seek stage m early resume stack =>
    cases stage with
    | reading =>
      simp only [step, seekStep] at h
      split at h <;> exact .inl h
    | waiting => exact .inl h
    | inside =>
      simp only [step, seekStep] at h
      simp only [storeChange]
      split at h
      · exact .inl h
      · next hf =>
        split at h
        · next he =>
          split at h
          · exact .inl h
          · exact .inl h
          · next f rest hs =>
            refine (List.mem_cons.mp h).symm.imp_right fun hn => ?_
            cases hn
            simp only [hf, he, hs]
        · split at h <;> exact .inl h
  | begin stage m c resume stack =>
    cases stage with
    | reading =>
      simp only [step, beginStep] at h
      split at h <;> exact .inl h
    | waiting => exact .inl h
    | inside =>
      simp only [step, beginStep] at h
      split at h
      · exact .inl h
      · split at h
        · exact .inl h
        · split at h
          · exact .inl h
          · exact .inl ((List.mem_cons.mp h).resolve_left Frame.noConfusion)
  | walk todo next stack =>
    cases todo with
    | nil => exact .inl h
    | cons task todo =>
      cases task with
      | hook => exact .inl ((List.mem_cons.mp h).resolve_left Frame.noConfusion)
      | _ => exact .inl h
  | unwind p stack =>
    cases stack with
    | top => cases h
    | building | producing | tearing | holding | guarding => exact .inl (List.mem_cons_of_mem _ h)
  | finished outcome => cases h

/-- A producer is taken out with the lock, for a name that is staged and not final. -/
theorem seeking_of_fetch {s : State v} {t : Thread v} {n : String}
    (h : t.storeChange s = .fetch n) :
    t.holdsLock = true ∧ s.registry.store.final? n = none ∧
      s.registry.store.isStaged n = true := by
  have hcause := t.cause_storeChange s
  rw [h] at hcause
  cases hcause with
  | @fetch _ _ early resume stack hf =>
    simp only [storeChange, hf] at h
    split at h
    · next f rest _ _ hs =>
      obtain ⟨-, hfind, -⟩ := Store.seek_eq_pending hs
      exact ⟨rfl, hf, by simp [Store.isStaged, Table.contains, hfind]⟩
    · cases h

/-- The mark of a name stays unless a build of it ends. -/
theorem isMarked_step_or (app : Application v) {s : State v} {t : Thread v} {n : String}
    (h : s.registry.marks.isMarked n = true) :
    (t.step app s).1.registry.marks.isMarked n = true ∨
      ∃ b, t.buildChange s = .finish b ∧ b.name = n := by
  rw [(t.buildChange_step app s).marks]
  cases t.buildChange s with
  | keep => exact .inl h
  | exclude k on => exact .inl h
  | begin b => exact .inl (by rw [Build.Change.isMarked_begin, h, Bool.true_or])
  | finish b =>
    by_cases hb : b.name = n
    · exact .inr ⟨b, rfl, hb⟩
    · exact .inl (by simp [Build.Change.isMarked_finish, h, Ne.symm hb])

/-- A lookup that has the lock is answered with what is final, unless its name is staged and not
final. -/
theorem seekOccurrence_inside (s : State v) (n : String) (early : Bool) :
    seekOccurrence s n early .inside = some (.found n (s.registry.store.final? n)) ∨
      s.registry.store.final? n = none ∧ s.registry.store.isStaged n = true := by
  cases hf : s.registry.store.final? n with
  | some x => exact .inl (by simp [seekOccurrence, hf])
  | none =>
    cases hs : s.registry.store.isStaged n with
    | true => exact .inr ⟨rfl, rfl⟩
    | false =>
      obtain ⟨he, hp⟩ := Store.isStaged_eq_false_iff.mp hs
      exact .inl (by simp [seekOccurrence, Store.seek, hf, he, hp])

end Thread

/-! ### Sheltered names -/

namespace Pool

/-- If `n` is present, it is final or being built; and producers of `n` are run inside builds of
`n`. -/
structure Sheltered (p : Pool v) (n : String) : Prop where
  bound : p.store.Present n →
    p.store.final? n ≠ none ∨ p.state.registry.marks.isMarked n = true
  frames : ∀ t ∈ p.threads, Frame.Sheltered n t.frames

namespace Sheltered

variable {p : Pool v} {n : String} {i : Nat} {t : Thread v}

theorem start (s : State v) (programs : List (Code v Unit)) (hs : s.registry.store = .empty) :
    (start s programs).Sheltered n := by
  refine ⟨fun h => ?_, fun t ht => ?_⟩
  · change s.registry.store.Present n at h
    rw [hs] at h
    exact absurd h Store.not_present_empty
  · obtain ⟨main, -, rfl⟩ := List.mem_map.mp ht
    trivial

/-- A thread that has the lock while `n` is staged, but not final, has a build of `n` open. -/
theorem build_of_isStaged (h : p.Sheltered n) (hp : p.Serial) (htracked : p.Tracked n)
    (ht : p.threads[i]? = some t) (hlock : t.holdsLock = true) (hf : p.store.final? n = none)
    (hs : p.store.isStaged n = true) : ∃ b ∈ t.builds, b.name = n := by
  have hm := (h.bound (.inr hs)).resolve_left fun hne => hne hf
  rw [← builds_eq_of_holdsLock hp ht hlock]
  exact htracked.marked_iff.mp hm

/-- The steps of a thread keep the producers of `n` inside builds of `n`. -/
theorem frames_step (app : Application v) (h : p.Sheltered n) (hp : p.Serial)
    (htracked : p.Tracked n) (ht : p.threads[i]? = some t) :
    Frame.Sheltered n (t.step app p.state).2.frames := by
  have hold : Frame.Sheltered n t.frames := h.frames t (List.mem_of_getElem? ht)
  have hproducing := t.producing_or_fetch app (s := p.state) (n := n)
  have hreframes := t.reframes_step app p.state
  generalize (t.step app p.state).2.frames = l at hreframes hproducing ⊢
  cases hreframes with
  | keep hl => exact hl ▸ hold
  | push _ f =>
    refine ⟨?_, hold⟩
    rintro rfl
    obtain hmem | hfetch := hproducing List.mem_cons_self
    · exact hold.building_mem hmem
    · obtain ⟨hlock, hf, hs⟩ := Thread.seeking_of_fetch hfetch
      obtain ⟨b, hb, rfl⟩ := h.build_of_isStaged hp htracked ht hlock hf hs
      exact Thread.building_of_builds hb
  | returned a hl =>
    rw [Thread.frames, hl] at hold
    exact hold.2
  | panicked q hl =>
    rw [Thread.frames, hl] at hold
    exact hold.2

/-- What becomes or stays present is final, or was final or being built before. -/
theorem bound_or_final (app : Application v) (h : p.Sheltered n) (htracked : p.Tracked n)
    (ht : p.threads[i]? = some t) (hpresent : (t.step app p.state).1.registry.store.Present n) :
    (t.step app p.state).1.registry.store.final? n ≠ none ∨
      p.store.final? n ≠ none ∨ p.state.registry.marks.isMarked n = true := by
  rw [t.store_step] at hpresent ⊢
  have hcause := t.cause_storeChange p.state
  obtain hbefore | ⟨x, hc⟩ | ⟨f, hc⟩ | ⟨x, hc⟩ := Store.present_apply hpresent
  · exact .inr (h.bound hbefore)
  · exact .inl (by simp [hc, Store.Change.apply, Store.final?_put])
  · -- a producer is taken only for a marked name
    refine .inr (.inr ?_)
    rw [hc] at hcause
    cases hcause with
    | offer next stack =>
      simp only [Thread.storeChange, Request.storeChange, htracked.included] at hc
      split at hc
      · cases hc
      · next hm => simpa using (not_or.mp hm).2
  · -- a product comes back to a lookup inside a build
    refine .inr (.inr (htracked.marked_iff.mpr ?_))
    rw [hc] at hcause
    cases hcause with
    | memoize resume rest =>
      have hframes := h.frames _ (List.mem_of_getElem? ht)
      exact exists_builds_of_building ht (List.mem_cons_of_mem _ (hframes.1 rfl))

theorem step (app : Application v) (h : p.Sheltered n) (hp : p.Serial) (htracked : p.Tracked n)
    (ht : p.Takes i t) : (p.step app i).Sheltered n := by
  rw [step_of_takes app ht]
  refine ⟨fun hpresent => ?_, fun u hu => ?_⟩
  · obtain hf | hf | hm := h.bound_or_final app htracked ht.1 hpresent
    · exact .inl hf
    · rw [store, t.store_step] at hpresent ⊢
      exact .inl (Store.final?_apply_of_present hf hpresent)
    · obtain hm' | ⟨b, hb, rfl⟩ := t.isMarked_step_or app hm
      · exact .inr hm'
      · -- the end of the build leaves the name final, or takes it away
        left
        refine (Thread.discards_or_final_of_finish app hb hm).elim (fun hc => ?_) id
        rw [store, t.store_step, hc] at hpresent ⊢
        exact Store.final?_of_present_discard hpresent
  · obtain hu | rfl := List.mem_or_eq_of_mem_set hu
    · exact h.frames u hu
    · exact h.frames_step app hp htracked ht.1

/-- A lookup that is answered with an instance that is not final is made in a build of its name. -/
theorem build_of_found (h : p.Sheltered n) (hp : p.Serial) (htracked : p.Tracked n)
    (ht : p.threads[i]? = some t) {x : v.Inst}
    (ho : t.occurrence p.state = some (.found n (some x))) (hx : p.store.final? n ≠ some x) :
    ∃ b ∈ t.builds, b.name = n := by
  obtain ⟨g, resume, stack, hseeking, -⟩ := Thread.step_of_found ho
  cases hseeking with
  | asked early =>
    have hf : p.store.final? n = some x := by
      simpa [Thread.occurrence, execOccurrence] using ho
    exact absurd hf hx
  | begun stage early =>
    cases stage with
    | reading =>
      simp only [Thread.occurrence, seekOccurrence] at ho
      split at ho <;> cases ho
    | waiting => cases ho
    | inside =>
      obtain hfound | ⟨hf, hs⟩ := Thread.seekOccurrence_inside p.state n early
      · have heq := Option.some.inj (hfound.symm.trans ho)
        simp only [Occurrence.found.injEq, true_and] at heq
        exact absurd heq hx
      · exact h.build_of_isStaged hp htracked ht rfl hf hs
  | produced y =>
    have hframes := h.frames _ (List.mem_of_getElem? ht)
    exact Stack.exists_builds_of_building (List.mem_cons_of_mem _ (hframes.1 rfl))

/-- A step of a lookup that is made outside every build and block goes on with the lookup, or
answers it with the final instance or with nothing. -/
theorem seek_step (app : Application v) (h : p.Sheltered n) (hp : p.Serial)
    (htracked : p.Tracked n) {g : Goal} {stage : Stage} {early : Bool}
    {resume : Option v.Inst → Code v (g.Result v.Inst)} {stack : Stack v g}
    (ht : p.threads[i]? = some (.seek stage n early resume stack))
    (hstack : stack.holdsLock = false) :
    (∃ stage', ((Thread.seek stage n early resume stack).step app p.state).2 =
      .seek stage' n early resume stack) ∨
    ∃ r, (Thread.seek stage n early resume stack).occurrence p.state = some (.found n r) ∧
      ((Thread.seek stage n early resume stack).step app p.state).2 = .exec (resume r) stack ∧
      ∀ x, r = some x → p.store.final? n = some x := by
  have hanswered {r : Option v.Inst}
      (ho : seekOccurrence p.state n early stage = some (.found n r)) :
      ((Thread.seek stage n early resume stack).step app p.state).2 = .exec (resume r) stack := by
    obtain ⟨r', hr, hstep⟩ := Thread.snd_seekStep resume stack ho
    cases hr
    exact hstep app
  cases stage with
  | reading =>
    cases hm : p.state.registry.marks.isMarked n with
    | true => exact .inl ⟨.waiting, by simp [Thread.step, seekStep, hm]⟩
    | false =>
      have ho : seekOccurrence p.state n early .reading = some (.found n none) := by
        simp [seekOccurrence, hm]
      exact .inr ⟨none, ho, hanswered ho, fun _ hx => by cases hx⟩
  | waiting => exact .inl ⟨.inside, rfl⟩
  | inside =>
    obtain ho | ⟨hf, hs⟩ := Thread.seekOccurrence_inside p.state n early
    · exact .inr ⟨_, ho, hanswered ho, fun _ hx => hx⟩
    · -- it would have to be in a build of `n`
      obtain ⟨b, hb, -⟩ := h.build_of_isStaged hp htracked ht rfl hf hs
      have hlock := Stack.holdsLock_of_builds (List.ne_nil_of_mem hb)
      exact absurd (hstack.symm.trans hlock) Bool.false_ne_true

end Sheltered

/-! ### Runs -/

section Reached

variable (app : Application v) (o : Options) (w : v.World) (programs : List (Code v Unit))
  {n : String}

/-- A name that is never excluded is sheltered. -/
theorem sheltered_reached {schedule : List Nat}
    (h : NeverExcludes app n (start (.start o w) programs) schedule) :
    (reached app o w programs schedule).Sheltered n :=
  tracked_induction (P := fun p => p.Sheltered n) app o w programs (.start _ programs rfl)
    (fun _ _ _ hp htracked ht hs => hs.step app hp.serial htracked ht) h

/-- The lookup `seek _ n early resume stack` of thread `i` in the course of the steps `m`, which are
taken after the steps `l`: it is still under way in the end, or the thread has taken the step that
answers it, with what was final at that moment or with nothing, and went on with the answer. -/
def LookupSettles (l m : List Nat) (i : Nat) {g : Goal} (n : String) (early : Bool)
    (resume : Option v.Inst → Code v (g.Result v.Inst)) (stack : Stack v g) : Prop :=
  (∃ stage, (reached app o w programs (l ++ m)).threads[i]? =
    some (.seek stage n early resume stack)) ∨
  ∃ m₁ m₂ stage r, m = m₁ ++ [i] ++ m₂ ∧
    (reached app o w programs (l ++ m₁)).Takes i (.seek stage n early resume stack) ∧
    (Thread.seek stage n early resume stack).occurrence
      (reached app o w programs (l ++ m₁)).state = some (.found n r) ∧
    (reached app o w programs (l ++ m₁ ++ [i])).threads[i]? = some (.exec (resume r) stack) ∧
    ∀ x, r = some x → (reached app o w programs (l ++ m₁)).store.final? n = some x

/-- A lookup that is made outside every build and block comes to the final instance or to nothing,
whatever the other threads do while it waits. -/
theorem lookup_settles {l m : List Nat} {i : Nat} {g : Goal} {stage : Stage} {early : Bool}
    {resume : Option v.Inst → Code v (g.Result v.Inst)} {stack : Stack v g}
    (h : NeverExcludes app n (start (.start o w) programs) (l ++ m))
    (hi : (reached app o w programs l).threads[i]? = some (.seek stage n early resume stack))
    (hstack : stack.holdsLock = false) :
    LookupSettles app o w programs l m i n early resume stack := by
  induction m using List.reverseRecOn with
  | nil => exact .inl ⟨stage, by rwa [List.append_nil]⟩
  | append_singleton m k ih =>
    rw [← List.append_assoc] at h
    have hbefore := h.of_append.1
    obtain ⟨stage', hi'⟩ | ⟨m₁, m₂, stage', r, rfl, hr⟩ := ih hbefore
    · set p := reached app o w programs (l ++ m)
      have hnext : reached app o w programs (l ++ m ++ [k]) = p.step app k := reached_concat ..
      obtain ⟨rfl, ht⟩ | hstays := takes_or_getElem?_step app hi' k
      · have hgoes := getElem?_step_self app ht
        obtain ⟨stage'', hstep⟩ | ⟨r, ho, hstep, hx⟩ :=
          (sheltered_reached app o w programs hbefore).seek_step app
            (serial_reached app o w programs _)
            (tracked_reached app o w programs hbefore) ht.1 hstack
        · exact .inl ⟨stage'', by rw [← List.append_assoc, hnext, hgoes, hstep]⟩
        · exact .inr ⟨m, [], stage', r, by simp, ht, ho, by rw [hnext, hgoes, hstep], hx⟩
      · exact .inl ⟨stage', by rw [← List.append_assoc, hnext, hstays]⟩
    · exact .inr ⟨m₁, m₂ ++ [k], stage', r, by simp, hr⟩

/-- **Early references and threads.** Programs are run on a fresh registry, in any order of their
steps, and `n` is never excluded from tracking.

* A lookup of `n` that is answered with an instance which is not the final one is made by a thread
  that has a build of `n` open itself.
* A thread that looks up `n` while another thread has a build of `n` open has to wait. As soon as
  the lookup is answered, it is answered with the instance that is final at that moment, or with
  nothing, however the build came to its end. -/
theorem early_found_in_own_build (schedule : List Nat)
    (h : NeverExcludes app n (start (.start o w) programs) schedule) :
    (∀ i t x, (reached app o w programs schedule).Takes i t →
      t.occurrence (reached app o w programs schedule).state = some (.found n (some x)) →
      (reached app o w programs schedule).store.final? n ≠ some x →
      ∃ b ∈ t.builds, b.name = n) ∧
    ∀ (l m : List Nat) (i j : Nat) (u : Thread v) (g : Goal) (stage : Stage) (early : Bool)
      (resume : Option v.Inst → Code v (g.Result v.Inst)) (stack : Stack v g),
      schedule = l ++ m →
      (reached app o w programs l).threads[i]? = some (.seek stage n early resume stack) →
      (reached app o w programs l).threads[j]? = some u → j ≠ i →
      (∃ b ∈ u.builds, b.name = n) →
      stage ≠ .inside ∧ LookupSettles app o w programs l m i n early resume stack := by
  refine ⟨fun i t x ht ho hx => ?_, ?_⟩
  · exact (sheltered_reached app o w programs h).build_of_found
      (serial_reached app o w programs _) (tracked_reached app o w programs h) ht.1 ho hx
  · rintro l m i j u g stage early resume stack rfl hi hj hji ⟨b, hb, -⟩
    -- the other thread has the lock
    have hfree : (Thread.seek stage n early resume stack).holdsLock = false := by
      refine Bool.eq_false_iff.mpr fun hlock => hji ?_
      exact eq_of_holdsLock (serial_reached app o w programs l) hi hlock hj
        (Thread.holdsLock_of_builds (List.ne_nil_of_mem hb))
    obtain ⟨hstage, hstack⟩ : stage ≠ .inside ∧ stack.holdsLock = false := by
      simpa [Thread.holdsLock] using hfree
    exact ⟨hstage, lookup_settles app o w programs h hi hstack⟩

end Reached

end Pool

/-! ### A lookup that waits for a build that fails -/

namespace Sample

/-- An application whose construct publishes an early reference of "n", looks it up, and fails. -/
def failing : Application vocabulary where
  body {g} _ :=
    match g with
    | .construct => do
      let _ ← .ask (.publish "n" "producer")
      let _ ← .obtain "n"
      return .error (.creationFailed "n" "no luck" [])
    | .producer => return (7 : Nat)
    | .main => return ()
    | .hook | .block => return .ok ()

/-- One program asks for "n", another one looks it up. -/
def failingMains : List (Code vocabulary Unit) :=
  [do let _ ← .obtainOrCreate "n" "construct", do let _ ← .obtain "n"]

/-- Thread 0 begins to build "n", and thread 1 to look it up. -/
def failingStart : List Nat := [0, 0, 0, 0, 0, 1, 1]

/-- In the build of "n", thread 0 finds the early instance 7. Then the build fails. Thread 1, which
has been waiting for the lock, is answered that there is nothing. -/
theorem early_found_in_own_build_failing :
    let p := Pool.reached failing .default () failingMains (failingStart ++ [0, 0, 0, 0])
    let q := Pool.reached failing .default () failingMains (failingStart ++ [0, 0, 0, 0, 0, 0, 1])
    (∃ t, p.Takes 0 t ∧ t.occurrence p.state = some (.found "n" (some (7 : Nat))) ∧
      ∃ b ∈ t.builds, b.name = "n") ∧
    Pool.LookupSettles failing .default () failingMains failingStart [0, 0, 0, 0, 0, 0, 1, 1] 1 "n"
      true (fun _ => .done ()) .top ∧
    ∃ t, q.Takes 1 t ∧ t.occurrence q.state = some (.found "n" none) := by
  refine ⟨⟨_, ⟨rfl, rfl⟩, rfl, ?_⟩, ?_, ⟨_, ⟨rfl, rfl⟩, rfl⟩⟩
  · exact (Pool.early_found_in_own_build failing .default () failingMains
      (failingStart ++ [0, 0, 0, 0]) (by decide)).1 0 _ (7 : Nat) ⟨rfl, rfl⟩ rfl (by decide)
  · exact ((Pool.early_found_in_own_build failing .default () failingMains
      (failingStart ++ [0, 0, 0, 0, 0, 0, 1, 1]) (by decide)).2 failingStart _ 1 0 _ .main .waiting
      true _ .top rfl rfl rfl (by decide) ⟨⟨"n", true⟩, List.mem_cons_self, rfl⟩).2

end Sample

end Wiring
