import Wiring.Pool

/-!
# What a step does to the tiers

A step of a thread does one thing to the tiers of instances, and which one can be told from the
state and the thread before the step (`Wiring.Thread.store_step`). Everything about the tiers over
runs is proved change by change, without looking at the machine again.

## Main definitions

* `Wiring.Store.Change`, `Wiring.Store.Change.apply` — what can be done to the tiers.
* `Wiring.Thread.storeChange` — what the next step of a thread does to them.
* `Wiring.Thread.Purges` — whether the next step of a thread purges a name.
* `Wiring.Thread.Cause` — what must be so for a step to change the tiers in a certain way.
* `Wiring.Pool.Takes` — which thread of a pool takes the next step.

## Main results

* `Wiring.Thread.store_step` — a step does to the tiers what its change says.
* `Wiring.Thread.cause_storeChange` — a step changes the tiers only for a cause: an instance is put
  only for a name that is not final, a product comes back only from a producer, and only what purges
  a name removes it.
* `Wiring.Pool.step_of_takes`, `Wiring.Pool.step_of_not_takes` — a step of a pool is a step of one
  thread.
-/

namespace Wiring

namespace Store

variable {ι φ : Type}

/-- What can be done to the tiers. -/
inductive Change (ι φ : Type) where
  | keep
  /-- An instance becomes final. -/
  | put (n : String) (i : ι)
  /-- A producer is offered. -/
  | offer (n : String) (p : φ)
  /-- The producer of a name leaves the store to be run. -/
  | fetch (n : String)
  /-- The product of a producer comes back. -/
  | memoize (n : String) (i : ι)
  | remove (n : String)
  | discard (n : String)
  | clear

/-- The tiers without the producer of `n`. -/
def fetch (s : Store ι φ) (n : String) : Store ι φ := { s with producers := s.producers.erase n }

/-- The tiers after a change. -/
def Change.apply (s : Store ι φ) : Change ι φ → Store ι φ
  | .keep => s
  | .put n i => s.put n i
  | .offer n p => (s.offer n p).2
  | .fetch n => s.fetch n
  | .memoize n i => (s.memoize n i).2
  | .remove n => (s.remove n).2
  | .discard n => s.discard n
  | .clear => s.clear

theorem seek_eq_pending {s rest : Store ι φ} {n : String} {p : φ} (h : s.seek n = .pending p rest) :
    s.early? n = none ∧ s.producers.find? n = some p ∧ rest = s.fetch n := by
  unfold seek at h
  split at h
  · cases h
  · next he =>
    split at h
    · next q hq =>
      cases h
      exact ⟨he, hq, rfl⟩
    · cases h

end Store

variable {v : Vocabulary}

/-- The changes to the tiers of an application's registry. -/
abbrev Vocabulary.Change (v : Vocabulary) : Type := Store.Change v.Inst (v.Closure .producer)

/-! ### The change of a step -/

/-- What a request that runs no code does to the tiers. -/
def Request.storeChange (r : v.Registry) : Request v → v.Change
  | .register n i =>
    match checkName n, r.store.final? n with
    | .ok (), none => .put n i
    | .ok (), some _ | .error _, _ => .keep
  | .publish n p =>
    if r.options.circular = false ∨ r.marks.isMarked n = false ∧ r.marks.isExcluded n = false then
      .keep
    else .offer n p
  | .remove n => .remove n
  | .clearAll => .clear
  | .get _ | .names | .count | .isFinal _ | .isInCreation _ | .isMarked _ | .setExcluded ..
  | .suppress _ | .depend .. | .contain .. | .isDependent .. | .hasDependents _ | .dependents _
  | .dependencies _ | .parts _ | .storeHook .. | .hasHook _ | .isTearingDown | .options | .summary
  | .survey _ => .keep

/-- What the regular end of a build does to the tiers. -/
def Registry.settleChange (r : v.Registry) (n : String) (outermost : Bool)
    (result : Except Error v.Inst) : v.Change :=
  match r.outcome n outermost result, r.marks.finish n, r.store.final? n with
  | .failed _, _, _ => .discard n
  | .fresh i, .ok _, none => .put n i
  | .fresh _, .ok _, some _ | .fresh _, .error _, _ | .present _, _, _ => .keep

namespace Thread

/-- What the next step of a thread does to the tiers. -/
def storeChange (s : State v) : Thread v → v.Change
  | .exec (.call q _) _ => q.storeChange s.registry
  | .exec (.done r) (.building n outermost _ _) => s.registry.settleChange n outermost r
  | .exec (.done i) (.producing n _ _) => .memoize n i
  | .exec .. => .keep
  | .seek .inside n early _ _ =>
    match s.registry.store.final? n, early && s.registry.options.circular,
      s.registry.store.seek n with
    | none, true, .pending .. => .fetch n
    | _, _, _ => .keep
  | .unwind _ (.building n ..) => .discard n
  | .walk (.destroy n :: _) .. => .remove n
  | .walk (.reset :: _) .. => .clear
  | .seek .. | .begin .. | .walk .. | .unwind .. | .finished _ => .keep

/-- Whether the next step of a thread purges `n`: a removal, the destruction of a component, or the
end of a teardown or of the registry's contents as a whole. -/
def Purges (n : String) : Thread v → Prop
  | .exec (.call (.remove m) _) _ => m = n
  | .exec (.call .clearAll _) _ => True
  | .walk (.destroy m :: _) .. => m = n
  | .walk (.reset :: _) .. => True
  | .exec .. | .seek .. | .begin .. | .walk .. | .unwind .. | .finished _ => False

end Thread

/-! ### A step does what its change says -/

namespace Request

theorem store_answer (r : v.Registry) (q : Request v) :
    (q.answer r).registry.store = (q.storeChange r).apply r.store := by
  cases q with
  | register n i =>
    simp only [answer, storeChange, Registry.register]
    cases checkName n with
    | error e => rfl
    | ok u => cases r.store.final? n <;> rfl
  | publish n p =>
    simp only [answer, storeChange, Registry.publish]
    by_cases hc : r.options.circular = false
    · simp [hc, Store.Change.apply]
    · by_cases hm : r.marks.isMarked n = false ∧ r.marks.isExcluded n = false <;>
        simp [hc, hm, Store.Change.apply]
  | depend a b =>
    simp only [answer, storeChange, Registry.depend]
    cases checkName a <;> cases checkName b <;> rfl
  | contain a b =>
    simp only [answer, storeChange, Registry.contain]
    cases checkName a <;> cases checkName b <;> rfl
  | _ => rfl

end Request

namespace Registry

@[simp] theorem store_closeBuild (r : v.Registry) (n : String) (outermost : Bool) :
    (r.closeBuild n outermost).store = r.store := rfl

theorem store_openBuild {r r' : v.Registry} {n : String} (h : r.openBuild n = .ok r') :
    r'.store = r.store := by
  unfold openBuild at h
  split at h
  · cases h
  · cases h
    rfl

theorem store_settle (r : v.Registry) (n : String) (outermost : Bool)
    (result : Except Error v.Inst) :
    (r.settle n outermost result).registry.store =
      (r.settleChange n outermost result).apply r.store := by
  unfold settle settleChange
  cases r.outcome n outermost result with
  | failed e => cases r.marks.finish n <;> rfl
  | present i => cases r.marks.finish n <;> rfl
  | fresh i =>
    cases r.marks.finish n with
    | error e => rfl
    | ok m =>
      simp only [install, closed, store_closeBuild]
      cases r.store.final? n <;> rfl

end Registry

namespace Stack

theorem store_leave (s : State v) {g : Goal} (stack : Stack v g) (a : g.Result v.Inst) :
    (stack.leave s a).1.registry.store =
      ((Thread.exec (.done a) stack).storeChange s).apply s.registry.store := by
  cases stack with
  | building n outermost resume rest =>
    simpa [leave, Thread.storeChange] using s.registry.store_settle n outermost a
  | tearing n todo next rest =>
    simp only [leave, Thread.storeChange]
    cases a <;> rfl
  | _ => rfl

end Stack

namespace Thread

/-- A step does to the tiers what its change says. -/
theorem store_step (app : Application v) (s : State v) (t : Thread v) :
    (t.step app s).1.registry.store = (t.storeChange s).apply s.registry.store := by
  cases t with
  | exec code stack =>
    cases code with
    | done a => exact stack.store_leave s a
    | call q next => simpa [step, execStep, storeChange] using q.store_answer s.registry
    | lookup n early next =>
      simp only [step, execStep, storeChange]
      cases s.registry.store.final? n <;> rfl
    | create n c next =>
      simp only [step, execStep, storeChange]
      cases checkName n <;> rfl
    | _ => rfl
  | seek stage n early resume stack =>
    cases stage with
    | reading =>
      simp only [step, seekStep, storeChange]
      cases s.registry.marks.isMarked n <;> rfl
    | waiting => rfl
    | inside =>
      simp only [step, seekStep, storeChange]
      cases s.registry.store.final? n with
      | some i => rfl
      | none =>
        cases early && s.registry.options.circular with
        | false => cases s.registry.store.early? n <;> rfl
        | true =>
          cases hs : s.registry.store.seek n with
          | pending p rest => exact (Store.seek_eq_pending hs).2.2
          | _ => rfl
  | begin stage n c resume stack =>
    cases stage with
    | reading =>
      simp only [step, beginStep, storeChange]
      cases s.registry.store.final? n <;> rfl
    | waiting => rfl
    | inside =>
      simp only [step, beginStep, storeChange]
      cases s.registry.store.final? n with
      | some i => rfl
      | none =>
        cases s.registry.tearingDown with
        | true => rfl
        | false =>
          cases ho : s.registry.openBuild n with
          | error e => rfl
          | ok r => exact Registry.store_openBuild ho
  | walk todo next stack =>
    cases todo with
    | nil => rfl
    | cons task todo =>
      cases task with
      | destroy n =>
        simp only [step, walkStep, storeChange]
        split <;> rfl
      | _ => rfl
  | unwind p stack => cases stack <;> rfl
  | finished outcome => rfl

/-- Why the next step of a thread changes the tiers: what must be so for each kind of change. -/
inductive Cause (s : State v) : Thread v → v.Change → Prop
  | keep {t : Thread v} : Cause s t .keep
  | put {t : Thread v} {n : String} {i : v.Inst} (hn : s.registry.store.final? n = none) :
      Cause s t (.put n i)
  | offer {g : Goal} {n : String} {p : v.Closure .producer}
      (next : Bool → Code v (g.Result v.Inst)) (stack : Stack v g) :
      Cause s (.exec (.call (.publish n p) next) stack) (.offer n p)
  | fetch {g : Goal} {n : String} {early : Bool} (resume : Option v.Inst → Code v (g.Result v.Inst))
      (stack : Stack v g) (hn : s.registry.store.final? n = none) :
      Cause s (.seek .inside n early resume stack) (.fetch n)
  | memoize {g : Goal} {n : String} {i : v.Inst}
      (resume : Option v.Inst → Code v (g.Result v.Inst)) (rest : Stack v g) :
      Cause s (.exec (g := .producer) (.done i) (.producing n resume rest)) (.memoize n i)
  | remove {t : Thread v} {n : String} (hn : t.Purges n) : Cause s t (.remove n)
  | discard {t : Thread v} {n : String} : Cause s t (.discard n)
  | clear {t : Thread v} (hn : ∀ n, t.Purges n) : Cause s t .clear

theorem cause_leave (s : State v) {g : Goal} (stack : Stack v g) (a : g.Result v.Inst) :
    Cause s (.exec (.done a) stack) ((Thread.exec (.done a) stack).storeChange s) := by
  cases stack with
  | building n outermost resume rest =>
    simp only [storeChange, Registry.settleChange]
    split
    · exact .discard
    · exact .put ‹_›
    all_goals exact .keep
  | producing n resume rest => exact .memoize resume rest
  | _ => exact .keep

theorem cause_call (s : State v) {g : Goal} (stack : Stack v g) (q : Request v)
    (next : q.Reply → Code v (g.Result v.Inst)) :
    Cause s (.exec (.call q next) stack) (q.storeChange s.registry) := by
  cases q with
  | register n i =>
    simp only [Request.storeChange]
    split
    · exact .put ‹_›
    all_goals exact .keep
  | publish n p =>
    simp only [Request.storeChange]
    split
    · exact .keep
    · exact .offer next stack
  | remove n => exact .remove rfl
  | clearAll => exact .clear fun _ => trivial
  | _ => exact .keep

/-- Every step that changes the tiers has its cause. -/
theorem cause_storeChange (s : State v) (t : Thread v) : t.Cause s (t.storeChange s) := by
  cases t with
  | exec code stack =>
    cases code with
    | done a => exact cause_leave s stack a
    | call q next => exact cause_call s stack q next
    | _ => exact .keep
  | seek stage n early resume stack =>
    cases stage with
    | inside =>
      simp only [storeChange]
      split
      · exact .fetch resume stack ‹_›
      · exact .keep
    | _ => exact .keep
  | walk todo next stack =>
    cases todo with
    | nil => exact .keep
    | cons task todo =>
      cases task with
      | destroy n => exact .remove rfl
      | reset => exact .clear fun _ => trivial
      | _ => exact .keep
  | unwind p stack =>
    cases stack with
    | building n outermost resume rest => exact .discard
    | _ => exact .keep
  | begin stage n c resume stack => exact .keep
  | finished outcome => exact .keep

end Thread

/-! ### Steps of a pool -/

namespace Pool

/-- The tiers of the registry that the threads share. -/
abbrev store (p : Pool v) : Store v.Inst (v.Closure .producer) := p.state.registry.store

/-- The next step of the pool, if it is thread `i`'s turn, is a step of the thread `t`. -/
def Takes (p : Pool v) (i : Nat) (t : Thread v) : Prop :=
  p.threads[i]? = some t ∧ p.mayStep i t = true

theorem step_of_takes (app : Application v) {p : Pool v} {i : Nat} {t : Thread v}
    (h : p.Takes i t) :
    p.step app i = ⟨(t.step app p.state).1, p.threads.set i (t.step app p.state).2⟩ := by
  simp [step, h.1, h.2]

theorem step_of_not_takes (app : Application v) {p : Pool v} {i : Nat} (h : ∀ t, ¬ p.Takes i t) :
    p.step app i = p := by
  unfold step
  split
  · rfl
  · next t ht =>
    have hmay : ¬ p.mayStep i t = true := fun hm => h t ⟨ht, hm⟩
    simp [hmay]

theorem getElem?_step_self (app : Application v) {p : Pool v} {i : Nat} {t : Thread v}
    (h : p.Takes i t) : (p.step app i).threads[i]? = some (t.step app p.state).2 := by
  rw [step_of_takes app h]
  exact List.getElem?_set_self (List.getElem?_eq_some_iff.mp h.1).1

theorem getElem?_step_of_ne (app : Application v) (p : Pool v) {i j : Nat} (h : i ≠ j) :
    (p.step app i).threads[j]? = p.threads[j]? := by
  by_cases ht : ∃ t, p.Takes i t
  · obtain ⟨t, ht⟩ := ht
    rw [step_of_takes app ht]
    exact List.getElem?_set_ne h
  · rw [step_of_not_takes app (not_exists.mp ht)]

/-- A thread stays where it is unless it is the one that takes the step. -/
theorem takes_or_getElem?_step (app : Application v) {p : Pool v} {i : Nat} {t : Thread v}
    (ht : p.threads[i]? = some t) (k : Nat) :
    (k = i ∧ p.Takes i t) ∨ (p.step app k).threads[i]? = some t := by
  by_cases hk : k = i ∧ p.Takes i t
  · exact .inl hk
  right
  by_cases hki : k = i
  · subst hki
    rw [step_of_not_takes app fun u hu => hk ⟨rfl, ?_⟩, ht]
    rwa [← Option.some.inj (hu.1.symm.trans ht)]
  · rw [getElem?_step_of_ne app p hki, ht]

theorem run_concat (app : Application v) (p : Pool v) (schedule : List Nat) (i : Nat) :
    p.run app (schedule ++ [i]) = (p.run app schedule).step app i := by
  simp [run, List.foldl_append]

/-- What each step of a pool keeps, every run keeps. -/
theorem run_induction {app : Application v} {P : Pool v → Prop}
    (hstep : ∀ p i t, p.Takes i t → P p →
      P ⟨(t.step app p.state).1, p.threads.set i (t.step app p.state).2⟩)
    {p : Pool v} (hp : P p) (schedule : List Nat) : P (p.run app schedule) := by
  induction schedule generalizing p with
  | nil => exact hp
  | cons i schedule ih =>
    refine ih (p := p.step app i) ?_
    by_cases h : ∃ t, p.Takes i t
    · obtain ⟨t, ht⟩ := h
      rw [step_of_takes app ht]
      exact hstep p i t ht hp
    · rw [step_of_not_takes app (not_exists.mp h)]
      exact hp

end Pool

end Wiring
