import Wiring.Proofs.Builds.Change
import Wiring.Proofs.Occurrence
import Wiring.Proofs.Tiers.Change

/-!
# One thread builds at a time

A build holds the lock of the registry until it ends, so all builds that are open at a moment are
builds of one thread, and they are begun and ended in the order of a single stack, whatever the
other threads of the pool do.

## Main definitions

* `Wiring.Pool.Serial` — at most one thread holds the lock.
* `Wiring.Pool.builds` — the open builds of a pool, innermost first.

## Main results

* `Wiring.Pool.serial_run` — a pool that is serial stays so.
* `Wiring.Pool.buildChange_step` — a step does to the open builds of a pool what its change says.
* `Wiring.Pool.collecting_run` — errors are set aside exactly while a build is open.
* `Wiring.Pool.builds_eq_of_holdsLock` — they are the builds of the thread that holds the lock.
* `Wiring.Pool.storeChange_of_others` — while a thread holds the lock, no other changes the tiers.
-/

namespace Wiring

variable {v : Vocabulary}

/-! ### Who holds the lock -/

theorem Stack.holdsLock_of_builds {g : Goal} {stack : Stack v g} (h : stack.builds ≠ []) :
    stack.holdsLock = true := by
  induction stack with
  | top => exact absurd rfl h
  | building | producing | holding => rfl
  | tearing n todo next rest ih => exact ih h
  | guarding resume rest ih => exact ih h

namespace Thread

/-- A thread with an open build holds the lock. -/
theorem holdsLock_of_builds {t : Thread v} (h : t.builds ≠ []) : t.holdsLock = true := by
  cases t with
  | finished outcome => exact absurd rfl h
  | seek stage n early resume stack =>
    simpa [holdsLock] using .inr (Stack.holdsLock_of_builds h)
  | begin stage n c resume stack =>
    simpa [holdsLock] using .inr (Stack.holdsLock_of_builds h)
  | _ => exact Stack.holdsLock_of_builds h

theorem holdsLock_leave (s : State v) {g : Goal} (stack : Stack v g) (a : g.Result v.Inst)
    (h : (stack.leave s a).2.holdsLock = true) : stack.holdsLock = true := by
  cases stack with
  | top => cases h
  | building | producing | holding => rfl
  | tearing n todo next rest => cases a <;> exact h
  | guarding resume rest => exact h

theorem holdsLock_unwind (s : State v) (p : Panic) {g : Goal} (stack : Stack v g)
    (h : (stack.unwind s p).2.holdsLock = true) : stack.holdsLock = true := by
  cases stack with
  | top => cases h
  | building | producing | holding => rfl
  | tearing | guarding => exact h

theorem holdsLock_seekStep (app : Application v) (s : State v) {g : Goal} (n : String)
    (early : Bool) (resume : Option v.Inst → Code v (g.Result v.Inst)) (stack : Stack v g)
    (stage : Stage) (h : (seekStep app s n early resume stack stage).2.holdsLock = true) :
    stage = .waiting ∨ stage = .inside ∨ stack.holdsLock = true := by
  cases stage with
  | reading =>
    simp only [seekStep] at h
    split at h
    · exact .inr (.inr (by simpa [holdsLock] using h))
    · exact .inr (.inr h)
  | waiting => exact .inl rfl
  | inside => exact .inr (.inl rfl)

theorem holdsLock_beginStep (app : Application v) (s : State v) {g : Goal} (n : String)
    (c : v.Closure .construct) (resume : Except Error v.Inst → Code v (g.Result v.Inst))
    (stack : Stack v g) (stage : Stage)
    (h : (beginStep app s n c resume stack stage).2.holdsLock = true) :
    stage = .waiting ∨ stage = .inside ∨ stack.holdsLock = true := by
  cases stage with
  | reading =>
    simp only [beginStep] at h
    split at h
    · exact .inr (.inr h)
    · exact .inr (.inr (by simpa [holdsLock] using h))
  | waiting => exact .inl rfl
  | inside => exact .inr (.inl rfl)

/-- A step that leads to holding the lock was taken with the lock, or needed it. -/
theorem holdsLock_step (app : Application v) (s : State v) (t : Thread v)
    (h : (t.step app s).2.holdsLock = true) :
    t.holdsLock = true ∨ t.wantsLock s.registry.options = true := by
  cases t with
  | exec code stack =>
    cases code with
    | done a => exact .inl (holdsLock_leave s stack a h)
    | lookup n early next =>
      simp only [step, execStep] at h
      split at h
      · exact .inl h
      · exact .inl (by simpa [holdsLock] using h)
    | create n c next =>
      simp only [step, execStep] at h
      split at h
      · exact .inl h
      · exact .inl (by simpa [holdsLock] using h)
    | hold b next => exact .inr rfl
    | _ => exact .inl h
  | seek stage n early resume stack =>
    obtain rfl | rfl | hs := holdsLock_seekStep app s n early resume stack stage h
    · exact .inr rfl
    · exact .inl rfl
    · exact .inl (by simp [holdsLock, hs])
  | begin stage n c resume stack =>
    obtain rfl | rfl | hs := holdsLock_beginStep app s n c resume stack stage h
    · exact .inr rfl
    · exact .inl rfl
    · exact .inl (by simp [holdsLock, hs])
  | walk todo next stack =>
    cases todo with
    | nil => exact .inl h
    | cons task todo => cases task <;> exact .inl h
  | unwind p stack => exact .inl (holdsLock_unwind s p stack h)
  | finished outcome => cases h

end Thread

/-! ### Pools -/

namespace Pool

/-- At most one thread holds the lock. -/
def Serial (p : Pool v) : Prop := p.threads.countP (·.holdsLock) ≤ 1

/-- The builds that are open in a pool, innermost first. -/
def builds (p : Pool v) : List Build := p.threads.flatMap Thread.builds

/-- The other threads stand before or after a thread, and stay when it takes a step. -/
theorem exists_threads_eq {p : Pool v} {i : Nat} {t : Thread v} (h : p.threads[i]? = some t) :
    ∃ before after, p.threads = before ++ t :: after ∧
      p.threads.eraseIdx i = before ++ after ∧
      ∀ t', p.threads.set i t' = before ++ t' :: after := by
  obtain ⟨hi, rfl⟩ := List.getElem?_eq_some_iff.mp h
  refine ⟨p.threads.take i, p.threads.drop (i + 1), ?_, List.eraseIdx_eq_take_drop_succ .., ?_⟩
  · rw [← List.drop_eq_getElem_cons, List.take_append_drop]
  · intro t'
    rw [List.set_eq_take_append_cons_drop, if_pos hi]

/-- A thread that goes on alone, while nobody else holds the lock, goes on as if there were no other
thread. -/
theorem run_replicate (app : Application v) {p : Pool v} {i : Nat} {t : Thread v}
    (ht : p.threads[i]? = some t) (hlock : p.lockedByOther i = false) (k : Nat) :
    p.run app (List.replicate k i) =
      ⟨(Wiring.run app k (p.state, t)).1, p.threads.set i (Wiring.run app k (p.state, t)).2⟩ := by
  obtain ⟨hi, hget⟩ := List.getElem?_eq_some_iff.mp ht
  induction k generalizing p t with
  | zero =>
    obtain ⟨s, threads⟩ := p
    subst hget
    simp [run, Wiring.run]
  | succ k ih =>
    have hstep : p.step app i = _ := step_of_takes app ⟨ht, by simp [mayStep, hlock]⟩
    rw [List.replicate_succ, run, List.foldl_cons, hstep, run_succ]
    refine (ih (List.getElem?_set_self hi) ?_ (by simpa using hi) (by simp)).trans ?_
    · rw [lockedByOther, List.eraseIdx_set_eq]
      exact hlock
    · rw [List.set_set]

/-- What a thread comes to by itself, it comes to in a pool where nobody else holds the lock. -/
theorem run_of_leads (app : Application v) {p : Pool v} {i : Nat} {t t' : Thread v} {s' : State v}
    {l : List (Occurrence v)} (ht : p.threads[i]? = some t) (hlock : p.lockedByOther i = false)
    (h : Leads app (p.state, t) l (s', t')) :
    ∃ k, p.run app (List.replicate k i) = ⟨s', p.threads.set i t'⟩ ∧
      happened app k (p.state, t) = l := by
  obtain ⟨k, hrun, hshown⟩ := h
  exact ⟨k, by rw [run_replicate app ht hlock, hrun], hshown⟩

theorem serial_start (s : State v) (programs : List (Code v Unit)) : (start s programs).Serial := by
  have hnone : ∀ t ∈ programs.map Thread.start, ¬ t.holdsLock = true := by
    simp [Thread.start, Thread.holdsLock, Stack.holdsLock]
  rw [Serial, start, List.countP_eq_zero.mpr hnone]
  exact Nat.zero_le 1

theorem serial_set (app : Application v) {p : Pool v} {i : Nat} {t : Thread v}
    (ht : p.Takes i t) (hp : p.Serial) :
    Serial ⟨(t.step app p.state).1, p.threads.set i (t.step app p.state).2⟩ := by
  obtain ⟨before, after, hthreads, herase, hset⟩ := exists_threads_eq ht.1
  rw [Serial, hthreads, List.countP_append, List.countP_cons] at hp
  rw [Serial, hset, List.countP_append, List.countP_cons]
  by_cases hstep : (t.step app p.state).2.holdsLock = true
  · obtain hhold | hwant := t.holdsLock_step app p.state hstep
    · simpa only [hhold, hstep] using hp
    · -- the lock was free for the thread to take
      have hfree : ∀ u ∈ before ++ after, ¬ u.holdsLock = true := by
        have hmay := ht.2
        rw [mayStep, hwant, lockedByOther, herase] at hmay
        simpa [or_imp, forall_and] using hmay
      have hzero : (before ++ after).countP (·.holdsLock) = 0 := List.countP_eq_zero.mpr hfree
      rw [List.countP_append] at hzero
      simp only [hstep, if_true]
      omega
  · rw [if_neg hstep]
    omega

theorem serial_run (app : Application v) {p : Pool v} (hp : p.Serial) (schedule : List Nat) :
    (p.run app schedule).Serial :=
  run_induction (fun _ _ _ ht hp => serial_set app ht hp) hp schedule

theorem serial_step (app : Application v) {p : Pool v} (hp : p.Serial) (i : Nat) :
    (p.step app i).Serial :=
  serial_run app hp [i]

/-- While a thread holds the lock, the others have no open build. -/
theorem builds_of_others {p : Pool v} (hp : p.Serial) {before after : List (Thread v)}
    {t : Thread v} (hthreads : p.threads = before ++ t :: after) (ht : t.holdsLock = true) :
    before.flatMap Thread.builds = [] ∧ after.flatMap Thread.builds = [] := by
  rw [Serial, hthreads, List.countP_append, List.countP_cons, if_pos ht] at hp
  have hnone (l : List (Thread v)) (hl : l.countP (·.holdsLock) = 0) :
      l.flatMap Thread.builds = [] := by
    refine List.flatMap_eq_nil_iff.mpr fun u hu => ?_
    exact Decidable.byContradiction fun hb =>
      List.countP_eq_zero.mp hl u hu (Thread.holdsLock_of_builds hb)
  exact ⟨hnone before (by omega), hnone after (by omega)⟩

/-- All open builds are builds of the thread that holds the lock. -/
theorem builds_eq_of_holdsLock {p : Pool v} (hp : p.Serial) {i : Nat} {t : Thread v}
    (ht : p.threads[i]? = some t) (hlock : t.holdsLock = true) : p.builds = t.builds := by
  obtain ⟨before, after, hthreads, -⟩ := exists_threads_eq ht
  obtain ⟨hbefore, hafter⟩ := builds_of_others hp hthreads hlock
  rw [builds, hthreads, List.flatMap_append, List.flatMap_cons, hbefore, hafter,
    List.nil_append, List.append_nil]

theorem builds_set (app : Application v) {p : Pool v} (hp : p.Serial) {i : Nat} {t : Thread v}
    (ht : p.threads[i]? = some t) :
    builds ⟨(t.step app p.state).1, p.threads.set i (t.step app p.state).2⟩ =
      (t.buildChange p.state).builds p.builds := by
  obtain ⟨before, after, hthreads, -, hset⟩ := exists_threads_eq ht
  rw [builds, hset, builds, hthreads]
  simp only [List.flatMap_append, List.flatMap_cons, (t.buildChange_step app p.state).builds]
  have hcause := t.buildCause_buildChange p.state
  generalize t.buildChange p.state = c at hcause ⊢
  cases hcause with
  | keep | exclude => rfl
  | begin c resume stack =>
    obtain ⟨hbefore, hafter⟩ := builds_of_others hp hthreads rfl
    simp [hbefore, hafter, Build.Change.builds]
  | returned r resume rest =>
    obtain ⟨hbefore, hafter⟩ := builds_of_others hp hthreads rfl
    simp [hbefore, hafter, Build.Change.builds]
  | panicked q resume rest =>
    obtain ⟨hbefore, hafter⟩ := builds_of_others hp hthreads rfl
    simp [hbefore, hafter, Build.Change.builds]

/-! ### The open builds of a pool over its steps -/

/-- What the next step of a pool does to the open builds, if it is the turn of thread `i`. -/
def buildChange (p : Pool v) (i : Nat) : Build.Change :=
  match p.threads[i]? with
  | some t => if p.mayStep i t then t.buildChange p.state else .keep
  | none => .keep

theorem buildChange_of_takes {p : Pool v} {i : Nat} {t : Thread v} (h : p.Takes i t) :
    p.buildChange i = t.buildChange p.state := by
  simp [buildChange, h.1, h.2]

theorem buildChange_of_not_takes {p : Pool v} {i : Nat} (h : ∀ t, ¬ p.Takes i t) :
    p.buildChange i = .keep := by
  unfold buildChange
  split
  · next t ht =>
    have hmay : ¬ p.mayStep i t = true := fun hm => h t ⟨ht, hm⟩
    simp [hmay]
  · rfl

/-- A change that is not trivial is that of a thread that takes a step. -/
theorem exists_buildCause {p : Pool v} {i : Nat} (h : p.buildChange i ≠ .keep) :
    ∃ t, p.Takes i t ∧ t.BuildCause p.state (p.buildChange i) := by
  by_cases ht : ∃ t, p.Takes i t
  · obtain ⟨t, ht⟩ := ht
    rw [buildChange_of_takes ht]
    exact ⟨t, ht, t.buildCause_buildChange p.state⟩
  · exact absurd (buildChange_of_not_takes (not_exists.mp ht)) h

/-- A step does to the open builds of a pool, to the marks and to the errors set aside what its
change says. -/
theorem buildChange_step (app : Application v) {p : Pool v} (hp : p.Serial) (i : Nat) :
    Thread.Follows (p.buildChange i) p.builds p.state.registry (p.step app i).builds
      (p.step app i).state.registry := by
  by_cases ht : ∃ t, p.Takes i t
  · obtain ⟨t, ht⟩ := ht
    have hstep := t.buildChange_step app p.state
    rw [buildChange_of_takes ht, step_of_takes app ht]
    exact ⟨builds_set app hp ht.1, hstep.marks, hstep.collects⟩
  · rw [buildChange_of_not_takes (not_exists.mp ht), step_of_not_takes app (not_exists.mp ht)]
    exact .keep rfl rfl

/-- Only the innermost build of a pool ends. -/
theorem builds_of_finish {p : Pool v} (hp : p.Serial) {i : Nat} {b : Build}
    (h : p.buildChange i = .finish b) : p.builds = b :: p.builds.tail := by
  obtain ⟨t, ht, hcause⟩ := exists_buildCause (p := p) (i := i) (by simp [h])
  rw [buildChange_of_takes ht] at h
  have hbuilds := Thread.builds_of_finish h
  have hlock : t.holdsLock = true := by
    refine Thread.holdsLock_of_builds ?_
    rw [hbuilds]
    exact List.cons_ne_nil _ _
  rw [builds_eq_of_holdsLock hp ht.1 hlock]
  exact hbuilds

end Pool

/-! ### Only the thread that holds the lock changes the tiers -/

theorem Request.locks_of_storeChange {r : v.Registry} {q : Request v}
    (h : q.storeChange r ≠ .keep) : q.locks r.options = true := by
  cases q with
  | publish n p =>
    cases hc : r.options.circular with
    | true => exact hc
    | false => exact absurd (by simp [storeChange, hc]) h
  | register | remove | clearAll => rfl
  | _ => exact absurd rfl h

/-- A step that changes the tiers is taken with the lock, or needs it. -/
theorem Thread.lock_of_storeChange {s : State v} {t : Thread v} (h : t.storeChange s ≠ .keep) :
    t.holdsLock = true ∨ t.wantsLock s.registry.options = true := by
  cases t with
  | exec code stack =>
    cases code with
    | done a =>
      cases stack with
      | building | producing => exact .inl rfl
      | _ => exact absurd rfl h
    | call q next => exact .inr (Request.locks_of_storeChange h)
    | _ => exact absurd rfl h
  | seek stage n early resume stack =>
    cases stage with
    | inside => exact .inl rfl
    | _ => exact absurd rfl h
  | walk todo next stack =>
    cases todo with
    | nil => exact absurd rfl h
    | cons task todo =>
      cases task with
      | destroy | reset => exact .inr rfl
      | _ => exact absurd rfl h
  | unwind p stack =>
    cases stack with
    | building => exact .inl rfl
    | _ => exact absurd rfl h
  | begin | finished => exact absurd rfl h

namespace Pool

variable {p : Pool v} {i j : Nat} {t u : Thread v}

/-- The thread that holds the lock does not have to wait for it. -/
theorem lockedByOther_of_holdsLock (hp : p.Serial) (ht : p.threads[i]? = some t)
    (hlock : t.holdsLock = true) : p.lockedByOther i = false := by
  obtain ⟨before, after, hthreads, herase, -⟩ := exists_threads_eq ht
  rw [Serial, hthreads, List.countP_append, List.countP_cons, if_pos hlock] at hp
  have hzero : (before ++ after).countP (·.holdsLock) = 0 := by
    rw [List.countP_append]
    omega
  rw [lockedByOther, herase]
  simpa [or_imp, forall_and] using List.countP_eq_zero.mp hzero

/-- Two threads that hold the lock are the same. -/
theorem eq_of_holdsLock (hp : p.Serial) (ht : p.threads[i]? = some t) (htlock : t.holdsLock = true)
    (hu : p.threads[j]? = some u) (hulock : u.holdsLock = true) : j = i := by
  refine Classical.byContradiction fun hji => ?_
  have hmem : u ∈ p.threads.eraseIdx i := List.mem_eraseIdx_iff_getElem?.mpr ⟨j, hji, hu⟩
  have hother : p.lockedByOther i = true := List.any_eq_true.mpr ⟨u, hmem, hulock⟩
  exact Bool.false_ne_true ((lockedByOther_of_holdsLock hp ht htlock).symm.trans hother)

/-- While a thread holds the lock, the others neither hold it nor take a step that needs it. -/
theorem lockless_of_others (hp : p.Serial) (ht : p.threads[i]? = some t)
    (hlock : t.holdsLock = true) (hu : p.Takes j u) (hji : j ≠ i) :
    u.holdsLock = false ∧ u.wantsLock p.state.registry.options = false := by
  have hmem : t ∈ p.threads.eraseIdx j :=
    List.mem_eraseIdx_iff_getElem?.mpr ⟨i, hji.symm, ht⟩
  have hother : p.lockedByOther j = true := List.any_eq_true.mpr ⟨t, hmem, hlock⟩
  constructor
  · exact Bool.eq_false_iff.mpr fun hholds => hji (eq_of_holdsLock hp ht hlock hu.1 hholds)
  · have hmay := hu.2
    rw [mayStep, hother, Bool.and_true] at hmay
    simpa using hmay

/-- While a thread holds the lock, no other thread changes the tiers. -/
theorem storeChange_of_others (hp : p.Serial) (ht : p.threads[i]? = some t)
    (hlock : t.holdsLock = true) (hu : p.Takes j u) (hji : j ≠ i) :
    u.storeChange p.state = .keep := by
  obtain ⟨hholds, hwants⟩ := lockless_of_others hp ht hlock hu hji
  refine Classical.byContradiction fun hc => ?_
  rcases Thread.lock_of_storeChange hc with h | h
  · exact Bool.false_ne_true (hholds.symm.trans h)
  · exact Bool.false_ne_true (hwants.symm.trans h)

end Pool

/-! ### Errors are set aside while a build is open -/

/-- Of the open builds, the last one was begun outside every other one, and no other was. -/
def Build.Nested : List Build → Prop
  | [] => True
  | b :: rest => b.outermost = rest.isEmpty ∧ Nested rest

namespace Pool

/-- The open builds are nested, and errors are set aside exactly while there is one. -/
structure Collecting (p : Pool v) : Prop where
  serial : p.Serial
  nested : Build.Nested p.builds
  isSome_suppressed : p.state.registry.suppressed.isSome = !p.builds.isEmpty

theorem builds_start (s : State v) (programs : List (Code v Unit)) :
    (start s programs).builds = [] := by
  simp [builds, start, Thread.start, Thread.builds, Stack.builds]

theorem collecting_start (o : Options) (w : v.World) (programs : List (Code v Unit)) :
    (start (.start o w) programs).Collecting := by
  refine ⟨serial_start .., ?_, ?_⟩
  · rw [builds_start]
    trivial
  · rw [builds_start]
    rfl

theorem collecting_step (app : Application v) {p : Pool v} (h : p.Collecting) (i : Nat) :
    (p.step app i).Collecting := by
  have hserial := serial_step app h.serial i
  obtain ⟨hbuilds, -, hcollects⟩ := buildChange_step app h.serial i
  cases hc : p.buildChange i with
  | keep | exclude =>
    rw [hc] at hbuilds hcollects
    refine ⟨hserial, hbuilds ▸ h.nested, ?_⟩
    rw [hcollects, hbuilds]
    exact h.isSome_suppressed
  | begin b =>
    obtain ⟨t, -, hcause⟩ := exists_buildCause (p := p) (i := i) (by simp [hc])
    rw [hc] at hbuilds hcollects hcause
    have hb : b.outermost = p.builds.isEmpty := by
      have hs := h.isSome_suppressed
      cases hcause
      cases hnone : p.state.registry.suppressed <;> simp_all
    refine ⟨hserial, ?_, ?_⟩
    · rw [hbuilds]
      exact ⟨hb, h.nested⟩
    · rw [hcollects, hbuilds]
      rfl
  | finish b =>
    have hb := builds_of_finish h.serial hc
    rw [hc] at hbuilds hcollects
    have hnested : Build.Nested (b :: p.builds.tail) := hb ▸ h.nested
    refine ⟨hserial, ?_, ?_⟩
    · rw [hbuilds]
      exact hnested.2
    · have hs : p.state.registry.suppressed.isSome = true := by rw [h.isSome_suppressed, hb]; rfl
      rw [hcollects, hbuilds, hs]
      simp [Build.Change.collects, Build.Change.builds, hnested.1]

theorem collecting_run (app : Application v) {p : Pool v} (h : p.Collecting)
    (schedule : List Nat) : (p.run app schedule).Collecting := by
  induction schedule generalizing p with
  | nil => exact h
  | cons i schedule ih => exact ih (collecting_step app h i)

end Pool

end Wiring
