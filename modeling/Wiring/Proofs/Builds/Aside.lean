import Wiring.Proofs.Builds.Marks

/-!
# Errors set aside

While a build is open, errors can be set aside, to be attached to the failure of the outermost
build. The list of them is kept by the registry that all threads share, but it is the list of one
thread: setting an error aside takes the lock, which the thread with the open builds holds. So what
the list holds while a build is open is what that thread has set aside since it began its outermost
build.

## Main definitions

* `Wiring.Thread.setsAside` — the errors that a step sets aside.
* `Wiring.Pool.asides` — the errors that the steps of a schedule set aside, with their threads.
* `Wiring.Pool.BuildsSince` — a thread has begun a build, and builds have been open ever since.

## Main results

* `Wiring.Thread.suppressed_step` — what a step does to the list.
* `Wiring.Pool.BuildsSince.own`, `Wiring.Pool.BuildsSince.suppressed_eq` — the list holds the errors
  that the thread has set aside since then.
* `Wiring.Pool.exists_buildsSince_of_builds` — a thread with an open build has begun to build.
-/

namespace Wiring

variable {v : Vocabulary}

/-! ### The list after a step -/

/-- The list after a change of the open builds, in a step that sets the errors `l` aside. -/
def Build.Change.suppressed (before : Option (List Error)) (l : List Error) :
    Change → Option (List Error)
  | .begin _ => some (before.getD [])
  | .finish b => if b.outermost then none else before
  | .keep | .exclude .. => before.map (· ++ l)

/-- What a request that runs no code sets aside. -/
def Request.setsAside : Request v → List Error
  | .suppress e => [e]
  | .register .. | .publish .. | .get _ | .remove _ | .names | .count | .isFinal _
  | .isInCreation _ | .isMarked _ | .setExcluded .. | .depend .. | .contain .. | .isDependent ..
  | .hasDependents _ | .dependents _ | .dependencies _ | .parts _ | .storeHook .. | .hasHook _
  | .isTearingDown | .clearAll | .options | .summary | .survey _ => []

/-- A step that leaves the list alone. -/
theorem Build.Change.suppressed_keep {before after : Option (List Error)} (h : after = before) :
    after = keep.suppressed before [] := by
  simp [h, suppressed]

theorem Request.suppressed_answer (r : v.Registry) (q : Request v) :
    (q.answer r).registry.suppressed = q.buildChange.suppressed r.suppressed q.setsAside := by
  have hkeep {r' : v.Registry} (h : r'.suppressed = r.suppressed) :
      r'.suppressed = Build.Change.keep.suppressed r.suppressed [] :=
    Build.Change.suppressed_keep h
  cases q with
  | register n i =>
    obtain ⟨store, h⟩ := r.registry_register n i
    exact hkeep (by rw [answer, h])
  | publish n p =>
    obtain ⟨store, h⟩ := r.registry_publish n p
    exact hkeep (by rw [answer, h])
  | depend a b =>
    obtain ⟨links, h⟩ := r.registry_depend a b
    exact hkeep (by rw [answer, h])
  | contain a b =>
    obtain ⟨links, h⟩ := r.registry_contain a b
    exact hkeep (by rw [answer, h])
  | setExcluded n on => exact hkeep rfl
  | suppress e => rfl
  | _ => exact hkeep rfl

namespace Thread

/-- The errors that the next step of a thread sets aside. -/
def setsAside : Thread v → List Error
  | .exec (.call q _) _ => q.setsAside
  | .exec .. | .seek .. | .begin .. | .walk .. | .unwind .. | .finished _ => []

/-- Only a request to do so sets an error aside. -/
theorem eq_suppress_of_setsAside {t : Thread v} (h : t.setsAside ≠ []) :
    ∃ (g : Goal) (e : Error) (next : Unit → Code v (g.Result v.Inst)) (stack : Stack v g),
      t = .exec (.call (.suppress e) next) stack := by
  cases t with
  | exec code stack =>
    cases code with
    | call q next =>
      cases q with
      | suppress e => exact ⟨_, e, next, stack, rfl⟩
      | _ => exact absurd rfl h
    | _ => exact absurd rfl h
  | seek | begin | walk | unwind | finished => exact absurd rfl h

/-- An error is set aside under the lock. -/
theorem wantsLock_of_setsAside {t : Thread v} {o : Options} (h : t.setsAside ≠ []) :
    t.wantsLock o = true := by
  obtain ⟨g, e, next, stack, rfl⟩ := eq_suppress_of_setsAside h
  rfl

/-- A step that sets an error aside does nothing to the open builds. -/
theorem buildChange_of_setsAside {s : State v} {t : Thread v} (h : t.setsAside ≠ []) :
    t.buildChange s = .keep := by
  obtain ⟨g, e, next, stack, rfl⟩ := eq_suppress_of_setsAside h
  rfl

theorem suppressed_leave (s : State v) {g : Goal} (stack : Stack v g) (a : g.Result v.Inst) :
    (stack.leave s a).1.registry.suppressed =
      ((Thread.exec (.done a) stack).buildChange s).suppressed s.registry.suppressed [] := by
  cases stack with
  | building n outermost resume rest =>
    obtain ⟨store, h⟩ := s.registry.registry_settle n outermost a
    simp only [Stack.leave, State.registry_after, h]
    rfl
  | tearing n todo next rest => cases a <;> exact Build.Change.suppressed_keep rfl
  | _ => exact Build.Change.suppressed_keep rfl

theorem suppressed_beginStep (app : Application v) (s : State v) {g : Goal} (n : String)
    (c : v.Closure .construct) (resume : Except Error v.Inst → Code v (g.Result v.Inst))
    (stack : Stack v g) (stage : Stage) :
    (beginStep app s n c resume stack stage).1.registry.suppressed =
      ((Thread.begin stage n c resume stack).buildChange s).suppressed
        s.registry.suppressed [] := by
  cases stage with
  | reading =>
    simp only [beginStep]
    split <;> exact Build.Change.suppressed_keep rfl
  | waiting => exact Build.Change.suppressed_keep rfl
  | inside =>
    simp only [beginStep, buildChange]
    cases s.registry.store.final? n with
    | some i => exact Build.Change.suppressed_keep rfl
    | none =>
      cases s.registry.tearingDown with
      | true => exact Build.Change.suppressed_keep rfl
      | false =>
        cases ho : s.registry.openBuild n with
        | error e =>
          simp only [Registry.openBuild_eq_error ho]
          exact Build.Change.suppressed_keep rfl
        | ok r =>
          obtain ⟨m, hm, rfl⟩ := Registry.openBuild_eq_ok ho
          simp only [hm]
          rfl

/-- A step does to the list what its change says. -/
theorem suppressed_step (app : Application v) (s : State v) (t : Thread v) :
    (t.step app s).1.registry.suppressed =
      (t.buildChange s).suppressed s.registry.suppressed t.setsAside := by
  cases t with
  | exec code stack =>
    cases code with
    | done a => exact suppressed_leave s stack a
    | call q next =>
      have hr : ((Thread.exec (.call q next) stack).step app s).1.registry =
        (q.answer s.registry).registry := s.registry_after ..
      rw [hr]
      exact q.suppressed_answer s.registry
    | lookup n early next =>
      simp only [step, execStep]
      split <;> exact Build.Change.suppressed_keep rfl
    | create n c next =>
      simp only [step, execStep]
      split <;> exact Build.Change.suppressed_keep rfl
    | _ => exact Build.Change.suppressed_keep rfl
  | seek stage n early resume stack =>
    refine Build.Change.suppressed_keep ?_
    cases stage with
    | reading =>
      simp only [step, seekStep]
      split <;> rfl
    | waiting => rfl
    | inside =>
      simp only [step, seekStep]
      split
      · rfl
      · split <;> split <;> rfl
  | begin stage n c resume stack => exact suppressed_beginStep app s n c resume stack stage
  | walk todo next stack =>
    refine Build.Change.suppressed_keep ?_
    cases todo with
    | nil => rfl
    | cons task todo =>
      cases task with
      | destroy n =>
        simp only [step, walkStep]
        split <;> rfl
      | _ => rfl
  | unwind p stack =>
    cases stack with
    | building n outermost resume rest => rfl
    | _ => exact Build.Change.suppressed_keep rfl
  | finished outcome => exact Build.Change.suppressed_keep rfl

end Thread

/-! ### Errors set aside by the threads of a pool -/

namespace Pool

/-- The errors that the next step of a pool sets aside, if it is the turn of thread `i`. -/
def asideOf (p : Pool v) (i : Nat) : List Error :=
  match p.threads[i]? with
  | some t => if p.mayStep i t then t.setsAside else []
  | none => []

theorem asideOf_of_takes {p : Pool v} {i : Nat} {t : Thread v} (h : p.Takes i t) :
    p.asideOf i = t.setsAside := by
  simp [asideOf, h.1, h.2]

theorem asideOf_of_not_takes {p : Pool v} {i : Nat} (h : ∀ t, ¬ p.Takes i t) :
    p.asideOf i = [] := by
  unfold asideOf
  split
  · next t ht =>
    have hmay : ¬ p.mayStep i t = true := fun hm => h t ⟨ht, hm⟩
    simp [hmay]
  · rfl

theorem buildChange_of_asideOf {p : Pool v} {i : Nat} (h : p.asideOf i ≠ []) :
    p.buildChange i = .keep := by
  by_cases ht : ∃ t, p.Takes i t
  · obtain ⟨t, ht⟩ := ht
    rw [asideOf_of_takes ht] at h
    rw [buildChange_of_takes ht, Thread.buildChange_of_setsAside h]
  · exact buildChange_of_not_takes (not_exists.mp ht)

theorem suppressed_step (app : Application v) (p : Pool v) (i : Nat) :
    (p.step app i).state.registry.suppressed =
      (p.buildChange i).suppressed p.state.registry.suppressed (p.asideOf i) := by
  by_cases ht : ∃ t, p.Takes i t
  · obtain ⟨t, ht⟩ := ht
    rw [buildChange_of_takes ht, asideOf_of_takes ht, step_of_takes app ht]
    exact t.suppressed_step app p.state
  · rw [buildChange_of_not_takes (not_exists.mp ht), asideOf_of_not_takes (not_exists.mp ht),
      step_of_not_takes app (not_exists.mp ht)]
    exact Build.Change.suppressed_keep rfl

/-- As long as a build is open, the list only grows. -/
theorem suppressed_step_of_builds (app : Application v) {p : Pool v} (hp : p.Collecting) {k : Nat}
    {l : List Error} (hl : p.state.registry.suppressed = some l)
    (hnext : (p.step app k).builds ≠ []) :
    (p.step app k).state.registry.suppressed = some (l ++ p.asideOf k) := by
  rw [suppressed_step, hl]
  rw [(buildChange_step app hp.serial k).builds] at hnext
  by_cases hk : p.asideOf k = []
  · rw [hk, List.append_nil]
    cases hc : p.buildChange k with
    | keep | exclude => exact congrArg some (List.append_nil l)
    | begin b => rfl
    | finish b =>
      -- the build that ends is not the outermost one
      have hbuilds := builds_of_finish hp.serial hc
      have hnested : Build.Nested (b :: p.builds.tail) := hbuilds ▸ hp.nested
      rw [hc] at hnext
      have houtermost : b.outermost = false :=
        hnested.1.trans (List.isEmpty_eq_false_iff.mpr hnext)
      simp [Build.Change.suppressed, houtermost]
  · rw [buildChange_of_asideOf hk]
    rfl

/-- The errors that the steps of a schedule set aside, the earliest first, each with the thread that
took the step. -/
def asides (app : Application v) : Pool v → List Nat → List (Nat × Error)
  | _, [] => []
  | p, i :: rest => (p.asideOf i).map (i, ·) ++ asides app (p.step app i) rest

theorem asides_concat (app : Application v) (p : Pool v) (m : List Nat) (k : Nat) :
    asides app p (m ++ [k]) = asides app p m ++ ((p.run app m).asideOf k).map (k, ·) := by
  induction m generalizing p with
  | nil => simp [asides, run]
  | cons i m ih =>
    rw [List.cons_append, asides, ih, asides, List.append_assoc]
    rfl

/-- While a thread has an open build, only that thread sets errors aside. -/
theorem eq_of_asideOf {p : Pool v} (hp : p.Serial) {i k : Nat} {t : Thread v}
    (ht : p.threads[i]? = some t) (hbuilds : t.builds ≠ []) (hk : p.asideOf k ≠ []) : k = i := by
  by_cases hu : ∃ u, p.Takes k u
  · obtain ⟨u, hu⟩ := hu
    rw [asideOf_of_takes hu] at hk
    by_contra hki
    obtain ⟨-, hwants⟩ := lockless_of_others hp ht (Thread.holdsLock_of_builds hbuilds) hu hki
    exact Bool.false_ne_true (hwants.symm.trans (Thread.wantsLock_of_setsAside hk))
  · exact absurd (asideOf_of_not_takes (not_exists.mp hu)) hk

/-- A thread with an open build keeps one open as long as the pool does. -/
theorem exists_builds_step (app : Application v) {p : Pool v} (hp : p.Serial) {i : Nat}
    {t : Thread v} (ht : p.threads[i]? = some t) (hbuilds : t.builds ≠ []) (k : Nat)
    (hnext : (p.step app k).builds ≠ []) :
    ∃ t', (p.step app k).threads[i]? = some t' ∧ t'.builds ≠ [] := by
  obtain ⟨rfl, htakes⟩ | hstays := takes_or_getElem?_step app ht k
  · refine ⟨_, getElem?_step_self app htakes, ?_⟩
    rw [(buildChange_step app hp k).builds, buildChange_of_takes htakes,
      builds_eq_of_holdsLock hp ht (Thread.holdsLock_of_builds hbuilds)] at hnext
    rwa [(t.buildChange_step app p.state).builds]
  · exact ⟨t, hstays, hbuilds⟩

/-! ### Since the outermost build began -/

section Reached

variable (app : Application v) (o : Options) (w : v.World) (programs : List (Code v Unit))

/-- Thread `i` begins a build by the step after the steps `l`, outside every other build, and has
had a build open ever since, over the steps `m`. The list of errors set aside holds those that the
thread has set aside over these steps, and no other thread has set any aside. -/
structure BuildsSince (l : List Nat) (i : Nat) (m : List Nat) : Prop where
  before : (reached app o w programs l).builds = []
  since : ∀ m', m' <+: m → ∃ t, (reached app o w programs (l ++ [i] ++ m')).threads[i]? = some t ∧
    t.builds ≠ []
  own : ∀ a ∈ asides app (reached app o w programs (l ++ [i])) m, a.1 = i
  suppressed_eq : (reached app o w programs (l ++ [i] ++ m)).state.registry.suppressed =
    some ((asides app (reached app o w programs (l ++ [i])) m).map Prod.snd)

namespace BuildsSince

variable {app o w programs} {l m : List Nat} {i : Nat}

theorem start (hbefore : (reached app o w programs l).builds = [])
    (hafter : (reached app o w programs (l ++ [i])).builds ≠ []) :
    BuildsSince app o w programs l i [] := by
  have hcollecting := collecting_reached app o w programs l
  set p := reached app o w programs l
  have hnone : p.state.registry.suppressed = none := by
    simpa [hbefore] using hcollecting.isSome_suppressed
  rw [reached_concat, (buildChange_step app hcollecting.serial i).builds, hbefore] at hafter
  obtain ⟨b, hc⟩ : ∃ b, p.buildChange i = .begin b := by
    cases hc : p.buildChange i with
    | begin b => exact ⟨b, rfl⟩
    | keep | finish | exclude =>
      rw [hc] at hafter
      exact absurd rfl hafter
  obtain ⟨t, ht, -⟩ := exists_buildCause (p := p) (i := i) (by simp [hc])
  refine ⟨hbefore, fun m' hm' => ?_, fun a ha => absurd ha List.not_mem_nil, ?_⟩
  · obtain rfl := List.prefix_nil.mp hm'
    rw [List.append_nil, reached_concat]
    refine ⟨_, getElem?_step_self app ht, ?_⟩
    rw [(t.buildChange_step app p.state).builds, ← buildChange_of_takes ht, hc]
    exact List.cons_ne_nil _ _
  · rw [List.append_nil, reached_concat, suppressed_step app p i, hc, hnone]
    rfl

theorem step (h : BuildsSince app o w programs l i m) {k : Nat}
    (hnext : (reached app o w programs (l ++ [i] ++ m ++ [k])).builds ≠ []) :
    BuildsSince app o w programs l i (m ++ [k]) := by
  have hcollecting := collecting_reached app o w programs (l ++ [i] ++ m)
  obtain ⟨t, ht, hbuilds⟩ := h.since m List.prefix_rfl
  have hsuppressed := h.suppressed_eq
  have hasides := asides_concat app (reached app o w programs (l ++ [i])) m k
  rw [← reached_append] at hasides
  set p := reached app o w programs (l ++ [i] ++ m)
  rw [reached_concat] at hnext
  refine ⟨h.before, fun m' hm' => ?_, fun a ha => ?_, ?_⟩
  · obtain rfl | hm' := List.prefix_concat_iff.mp hm'
    · rw [← List.append_assoc, reached_concat]
      exact exists_builds_step app hcollecting.serial ht hbuilds k hnext
    · exact h.since m' hm'
  · rw [hasides, List.mem_append] at ha
    refine ha.elim (h.own a) fun ha => ?_
    obtain ⟨e, he, rfl⟩ := List.mem_map.mp ha
    exact eq_of_asideOf hcollecting.serial ht hbuilds (List.ne_nil_of_mem he)
  · rw [← List.append_assoc, reached_concat,
      suppressed_step_of_builds app hcollecting hsuppressed hnext, hasides]
    simp [Function.comp_def]

end BuildsSince

variable {app o w programs}

/-- Whenever a build is open, some thread has begun to build and has not come to an end yet. -/
theorem exists_buildsSince {schedule : List Nat}
    (h : (reached app o w programs schedule).builds ≠ []) :
    ∃ l i m, schedule = l ++ [i] ++ m ∧ BuildsSince app o w programs l i m := by
  induction schedule using List.reverseRecOn with
  | nil => exact absurd (builds_start ..) h
  | append_singleton schedule k ih =>
    by_cases hbefore : (reached app o w programs schedule).builds = []
    · exact ⟨schedule, k, [], by simp, .start hbefore h⟩
    · obtain ⟨l, i, m, rfl, hsince⟩ := ih hbefore
      exact ⟨l, i, m ++ [k], by simp, hsince.step h⟩

/-- A thread with an open build is the one that has begun to build. -/
theorem exists_buildsSince_of_builds {schedule : List Nat} {i : Nat} {t : Thread v}
    (ht : (reached app o w programs schedule).threads[i]? = some t) (hbuilds : t.builds ≠ []) :
    ∃ l m, schedule = l ++ [i] ++ m ∧ BuildsSince app o w programs l i m := by
  have hserial := serial_reached app o w programs schedule
  have hlock := Thread.holdsLock_of_builds hbuilds
  have hopen : (reached app o w programs schedule).builds ≠ [] := by
    rwa [builds_eq_of_holdsLock hserial ht hlock]
  obtain ⟨l, j, m, rfl, hsince⟩ := exists_buildsSince hopen
  obtain ⟨u, hu, hubuilds⟩ := hsince.since m List.prefix_rfl
  obtain rfl : j = i :=
    eq_of_holdsLock hserial ht hlock hu (Thread.holdsLock_of_builds hubuilds)
  exact ⟨l, m, rfl, hsince⟩

end Reached

end Pool

end Wiring
