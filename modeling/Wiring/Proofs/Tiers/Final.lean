import Mathlib.Tactic.Set
import Wiring.Proofs.Occurrence
import Wiring.Proofs.Sample
import Wiring.Proofs.Tiers.Change

/-!
# Final instances

Once a name has a final instance, that instance stays until the name is purged, whatever the
threads of a pool do in the meantime; whoever is handed an instance as the final one is handed the
one that is final at that moment. So all who are handed an instance between two purges are handed
the same one, and a build that is too late leaves no trace in the tiers.

## Main definitions

* `Wiring.Thread.HandsOut` — the next step hands an instance to somebody as the final one.
* `Wiring.Pool.Spares` — a stretch of a run in which a name is not purged.

## Main results

* `Wiring.Thread.final?_step` — a step that does not purge a name keeps its final instance.
* `Wiring.Thread.final?_of_handsOut` — what is handed out is final at that moment.
* `Wiring.Registry.settle_of_final` — the end of a build that is too late.
* `Wiring.Pool.final_instance_unique` — all of it over the runs of a pool.
-/

namespace Wiring

variable {v : Vocabulary}

/-! ### A final instance stays -/

/-- A step that does not purge a name keeps its final instance. -/
theorem Thread.final?_step (app : Application v) {s : State v} {t : Thread v} {n : String}
    {x : v.Inst} (hx : s.registry.store.final? n = some x) (hn : ¬ t.Purges n) :
    (t.step app s).1.registry.store.final? n = some x := by
  rw [store_step]
  have hcause := t.cause_storeChange s
  generalize t.storeChange s = c at hcause ⊢
  cases hcause with
  | put hm =>
    rw [Store.Change.apply, Store.final?_put, if_neg, hx]
    rintro rfl
    exact absurd hx (by simp [hm])
  | remove hm =>
    rw [Store.Change.apply, Store.final?_remove, if_neg, hx]
    rintro rfl
    exact hn hm
  | clear hm => exact absurd (hm n) hn
  | offer next stack => rw [Store.Change.apply, Store.final?_offer, hx]
  | memoize resume rest => rw [Store.Change.apply, Store.final?_memoize, hx]
  | discard => rw [Store.Change.apply, Store.final?_discard, hx]
  | fetch resume stack hm => exact hx
  | keep => exact hx

/-! ### Builds that are too late -/

namespace Registry

/-- The end of a build whose name has become final in the meantime: a failed one discards what is
staged, any other leaves the tiers as they are; the answer is the final instance or an error. -/
theorem settle_of_final {r : v.Registry} {n : String} {x : v.Inst} (hx : r.store.final? n = some x)
    (outermost : Bool) (result : Except Error v.Inst) :
    ((r.settle n outermost result).registry.store = r.store ∨
      (∃ e, result = .error e) ∧ (r.settle n outermost result).registry.store = r.store.discard n) ∧
    ∀ y, (r.settle n outermost result).reply = .ok y → y = x := by
  rw [store_settle]
  unfold settle settleChange
  cases ho : r.outcome n outermost result with
  | failed e =>
    have hr : ∃ e', result = .error e' := by
      cases result with
      | error e' => exact ⟨e', rfl⟩
      | ok i => cases ho
    refine ⟨.inr ⟨hr, rfl⟩, fun y hy => ?_⟩
    cases hf : r.marks.finish n <;> simp [hf] at hy
  | present i =>
    obtain rfl : i = x := by
      cases result with
      | ok j => cases ho
      | error e =>
        simp only [outcome, hx] at ho
        split at ho <;> cases ho
        rfl
    refine ⟨.inl rfl, fun y hy => ?_⟩
    cases hf : r.marks.finish n <;> simp_all
  | fresh i =>
    cases hf : r.marks.finish n with
    | error e => exact ⟨.inl rfl, by simp⟩
    | ok m =>
      refine ⟨.inl (by rw [hx]; rfl), fun y hy => ?_⟩
      simp only [install, closed, store_closeBuild, hx, Except.ok.injEq] at hy
      exact hy.symm

/-- A build that is settled makes nothing final but what its construct returned. -/
theorem final?_settle_or {r : v.Registry} {n m : String} {outermost : Bool}
    {result : Except Error v.Inst} {x : v.Inst}
    (h : (r.settle n outermost result).registry.store.final? m = some x) :
    r.store.final? m = some x ∨ result = .ok x := by
  rw [store_settle] at h
  unfold settleChange at h
  split at h
  · exact .inl h
  · next i m' ho hm hf =>
    rw [Store.Change.apply, Store.final?_put] at h
    split at h
    · cases h
      cases result with
      | ok y =>
        cases ho
        exact .inr rfl
      | error e =>
        simp only [outcome] at ho
        split at ho
        · split at ho <;> cases ho
        · cases ho
    · exact .inl h
  all_goals exact .inl h

/-- The instance that a build is answered with is final when it ends. -/
theorem final?_settle {r : v.Registry} {n : String} {outermost : Bool}
    {result : Except Error v.Inst} {x : v.Inst}
    (h : (r.settle n outermost result).reply = .ok x) :
    (r.settle n outermost result).registry.store.final? n = some x := by
  cases hx : r.store.final? n with
  | some y =>
    obtain ⟨hstore, hy⟩ := settle_of_final hx outermost result
    obtain rfl := hy x h
    obtain hs | ⟨-, hs⟩ := hstore <;> simp [hs, hx]
  | none =>
    unfold settle at h ⊢
    cases ho : r.outcome n outermost result with
    | failed e => cases hf : r.marks.finish n <;> simp [ho, hf] at h
    | present i =>
      -- a build is answered with a final instance only if there is one
      cases result with
      | ok j => cases ho
      | error e =>
        simp only [outcome, hx] at ho
        split at ho <;> cases ho
    | fresh i =>
      cases hf : r.marks.finish n with
      | error e => simp [ho, hf] at h
      | ok m =>
        obtain rfl : i = x := by simpa [ho, hf, install, closed, hx] using h
        simp [install, closed, hx, Store.final?_put]

end Registry

/-! ### What is handed out -/

namespace Thread

/-- The next step hands `x` to somebody as the instance of `n`: as the answer to a request for the
final instance, because `x` was registered or asked for, or as the answer to a lookup that is begun
with this very step. A lookup that is begun while `n` is final is answered so. -/
inductive HandsOut (s : State v) (n : String) (x : v.Inst) (t : Thread v) : Prop
  | created (h : t.occurrence s = some (.created n (.ok x)))
  | registered (h : t.occurrence s = some (.answered (.register n x) (.ok ())))
  | got (h : t.occurrence s = some (.answered (.get n) (.ok x)))
  | found {g : Goal} (early : Bool) (next : Option v.Inst → Code v (g.Result v.Inst))
      (stack : Stack v g) (ht : t = .exec (.lookup n early next) stack)
      (h : t.occurrence s = some (.found n (some x)))

theorem HandsOut.not_purges {s : State v} {t : Thread v} {n : String} {x : v.Inst}
    (h : t.HandsOut s n x) (m : String) : ¬ t.Purges m := by
  cases h with
  | created h =>
    obtain ⟨g, resume, stack, ht, -⟩ := step_of_created h
    cases ht <;> exact id
  | registered h =>
    obtain ⟨g, next, stack, rfl, -⟩ := calling_of_answered h
    exact id
  | got h =>
    obtain ⟨g, next, stack, rfl, -⟩ := calling_of_answered h
    exact id
  | found early next stack ht h =>
    subst ht
    exact id

/-- What is handed out is final at that moment. -/
theorem final?_of_handsOut (app : Application v) {s : State v} {t : Thread v} {n : String}
    {x : v.Inst} (h : t.HandsOut s n x) : (t.step app s).1.registry.store.final? n = some x := by
  cases h with
  | created h =>
    obtain ⟨g, resume, stack, ht, -⟩ := step_of_created h
    cases ht with
    | asked c =>
      cases hn : checkName n <;> simp [occurrence, execOccurrence, hn] at h
    | begun stage c =>
      rw [store_step]
      have hb : beginOccurrence s n stage = some (.created n (.ok x)) := h
      change s.registry.store.final? n = some x
      cases hf : s.registry.store.final? n with
      | some i => cases stage <;> simp_all [beginOccurrence]
      | none =>
        -- without a final instance, no step of a build request is answered with one
        cases stage <;> simp only [beginOccurrence, hf] at hb
        · cases hb
        · cases hb
        · split at hb
          · cases hb
          · split at hb <;> cases hb
    | built outermost r =>
      obtain ⟨-, hr⟩ : True ∧ (s.registry.settle n outermost r).reply = .ok x := by
        simpa [occurrence, execOccurrence, Stack.occurrence] using h
      simpa [step, execStep, Stack.leave] using Registry.final?_settle hr
  | registered h =>
    obtain ⟨g, next, stack, rfl, hr⟩ := calling_of_answered h
    simp only [step, execStep, State.registry_after]
    simp only [Request.answer, Registry.register] at hr ⊢
    split at hr
    · cases hr
    · cases hf : s.registry.store.final? n with
      | none => simp [Store.final?_put]
      | some i =>
        simp only [hf] at hr ⊢
        split at hr
        · next hi => rw [← hi]
        · cases hr
  | got h =>
    obtain ⟨g, next, stack, rfl, hr⟩ := calling_of_answered h
    simp only [step, execStep, State.registry_after]
    simp only [Request.answer] at hr ⊢
    cases hf : s.registry.store.final? n with
    | none => simp [hf] at hr
    | some i =>
      rw [hf] at hr
      cases hr
      rfl
  | found early next stack ht h =>
    subst ht
    rw [store_step]
    change s.registry.store.final? n = some x
    cases hf : s.registry.store.final? n with
    | none => simp [occurrence, execOccurrence, hf] at h
    | some i => simpa [occurrence, execOccurrence, hf] using h

end Thread

/-! ### Runs -/

namespace Pool

/-- Whether no step of a schedule purges `n`. -/
def Spares (app : Application v) (n : String) : Pool v → List Nat → Prop
  | _, [] => True
  | p, i :: l => (∀ t, p.Takes i t → ¬ t.Purges n) ∧ Spares app n (p.step app i) l

theorem Spares.of_append {app : Application v} {n : String} {p : Pool v} {l m : List Nat}
    (h : Spares app n p (l ++ m)) : Spares app n p l ∧ Spares app n (p.run app l) m := by
  induction l generalizing p with
  | nil => exact ⟨trivial, h⟩
  | cons i l ih => exact ⟨⟨h.1, (ih h.2).1⟩, (ih h.2).2⟩

theorem final?_step_of_not_purges (app : Application v) {p : Pool v} {i : Nat} {n : String}
    {x : v.Inst} (hx : p.store.final? n = some x) (hn : ∀ t, p.Takes i t → ¬ t.Purges n) :
    (p.step app i).store.final? n = some x := by
  by_cases ht : ∃ t, p.Takes i t
  · obtain ⟨t, ht⟩ := ht
    rw [step_of_takes app ht]
    exact Thread.final?_step app hx (hn t ht)
  · rw [step_of_not_takes app (not_exists.mp ht)]
    exact hx

/-- A final instance stays over a stretch of a run in which its name is not purged. -/
theorem final?_run_of_spares {app : Application v} {p : Pool v} {l : List Nat} {n : String}
    {x : v.Inst} (hx : p.store.final? n = some x) (hl : Spares app n p l) :
    (p.run app l).store.final? n = some x := by
  induction l generalizing p with
  | nil => exact hx
  | cons i l ih => exact ih (final?_step_of_not_purges app hx hl.1) hl.2

theorem final?_step_of_handsOut (app : Application v) {p : Pool v} {i : Nat} {t : Thread v}
    {n : String} {x : v.Inst} (ht : p.Takes i t) (hx : t.HandsOut p.state n x) :
    (p.step app i).store.final? n = some x := by
  rw [step_of_takes app ht]
  exact Thread.final?_of_handsOut app hx

/-- **Final instances.** In any pool of threads, wherever it stands:

* a final instance stays until its name is purged;
* an instance that is handed out as that of `n` is final at that moment;
* instances of `n` that are handed out at two moments between which `n` is not purged are the same;
* a lookup or a request to resolve `n` that is begun while `n` is final is answered with the final
  instance at once, and so takes part in that;
* a build of `n` whose construct returns or panics while `n` is final leaves the final tier as it
  is, and all tiers if the construct returned an instance; it is answered with the final instance or
  with an error. -/
theorem final_instance_unique (app : Application v) (p : Pool v) (n : String) :
    (∀ x l, p.store.final? n = some x → Spares app n p l →
      (p.run app l).store.final? n = some x) ∧
    (∀ i t x, p.Takes i t → t.HandsOut p.state n x → (p.step app i).store.final? n = some x) ∧
    (∀ i t x l j u y, p.Takes i t → t.HandsOut p.state n x → Spares app n (p.step app i) l →
      ((p.step app i).run app l).Takes j u →
      u.HandsOut ((p.step app i).run app l).state n y → y = x) ∧
    (∀ x, p.store.final? n = some x →
      (∀ (g : Goal) early next (stack : Stack v g),
        (Thread.exec (.lookup n early next) stack).HandsOut p.state n x) ∧
      ∀ (g : Goal) c (next : Except Error v.Inst → Code v (g.Result v.Inst)) (stack : Stack v g) i,
        p.Takes i (.exec ((Code.resolve n c).bind next) stack) →
        p.step app i = ⟨p.state, p.threads.set i (.exec (next (.ok x)) stack)⟩) ∧
    ∀ x, p.store.final? n = some x →
      ∀ (g : Goal) outermost (resume : Except Error v.Inst → Code v (g.Result v.Inst))
        (rest : Stack v g) i,
        (∀ r, p.Takes i (.exec (g := .construct) (.done r) (.building n outermost resume rest)) →
          (p.step app i).store.finals = p.store.finals ∧
          (∀ b, r = .ok b → (p.step app i).store = p.store) ∧
          ∃ a, (p.step app i).threads = p.threads.set i (.exec (resume a) rest) ∧
            ∀ y, a = .ok y → y = x) ∧
        ∀ q, p.Takes i (.unwind q (.building n outermost resume rest)) →
          (p.step app i).store.finals = p.store.finals := by
  refine ⟨fun x l => final?_run_of_spares, fun i t x => final?_step_of_handsOut app, ?_, ?_, ?_⟩
  · intro i t x l j u y ht hx hl hu hy
    set p' := (p.step app i).run app l
    have hx' : p'.store.final? n = some x :=
      final?_run_of_spares (final?_step_of_handsOut app ht hx) hl
    have hy' : (p'.step app j).store.final? n = some y := final?_step_of_handsOut app hu hy
    -- what hands an instance out purges nothing
    have hkeep : (p'.step app j).store.final? n = some x := by
      refine final?_step_of_not_purges app hx' fun w hw => ?_
      obtain rfl : u = w := Option.some.inj (hu.1.symm.trans hw.1)
      exact hy.not_purges n
    exact Option.some.inj (hy'.symm.trans hkeep)
  · intro x hx
    have hf : p.state.registry.store.final? n = some x := hx
    refine ⟨fun g early next stack => .found early next stack rfl ?_, ?_⟩
    · simp [Thread.occurrence, execOccurrence, hf]
    · intro g c next stack i ht
      rw [step_of_takes app ht]
      have hs : (Thread.exec ((Code.resolve n c).bind next) stack).step app p.state =
          (p.state, .exec (next (.ok x)) stack) := by
        simp only [Code.resolve_bind, Thread.step, execStep, hf]
      rw [hs]
  · intro x hx g outermost resume rest i
    refine ⟨fun r ht => ?_, fun q ht => ?_⟩
    · obtain ⟨hstore, ha⟩ := Registry.settle_of_final hx outermost r
      rw [step_of_takes app ht]
      have hs : ((Thread.exec (g := .construct) (.done r)
          (.building n outermost resume rest)).step app p.state).1.registry.store =
            (p.state.registry.settle n outermost r).registry.store := by
        simp [Thread.step, execStep, Stack.leave]
      refine ⟨?_, fun b hb => ?_, _, rfl, ha⟩
      · obtain h | ⟨-, h⟩ := hstore
        · exact congrArg Store.finals (hs.trans h)
        · exact (congrArg Store.finals (hs.trans h)).trans rfl
      · obtain h | ⟨⟨e, he⟩, -⟩ := hstore
        · exact hs.trans h
        · rw [hb] at he
          cases he
    · rw [step_of_takes app ht]
      rfl

end Pool

end Wiring
