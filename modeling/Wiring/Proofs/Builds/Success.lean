import Wiring.Proofs.Builds.Marks

/-!
# What becomes of a successful construct

A construct that returns an instance has its build closed and the instance installed. The build is
closed in good order if its name is excluded from tracking or marked at that moment. A name that was
excluded when its build began is not marked; if the construct includes it again, the build cannot be
closed in good order, and the instance is lost.

## Main definitions

* `Wiring.Marks.Finishes` — a build of a name can be closed in good order.

## Main results

* `Wiring.Registry.settle_ok_of_final?_eq_none`, `Wiring.Registry.settle_ok_of_final`,
  `Wiring.Registry.settle_ok_of_not_finishes` — how an instance is settled.
* `Wiring.Registry.settle_of_finishes` — a build is completed, or fails.
* `Wiring.Thread.created_notInCreation` — when a request fails because its build was not marked.
* `Wiring.Pool.construct_ok_settled` — what becomes of a successful construct, over all runs.
* `Wiring.Sample.not_created_including` — an instance is lost.
-/

namespace Wiring

variable {v : Vocabulary}

/-! ### Settling an instance -/

/-- A build of `n` can be closed in good order. -/
def Marks.Finishes (m : Marks) (n : String) : Prop :=
  m.isExcluded n = true ∨ m.isMarked n = true

theorem Marks.finishes_iff {m : Marks} {n : String} : m.Finishes n ↔ ∃ m', m.finish n = .ok m' := by
  cases h : m.finish n with
  | ok m' =>
    refine iff_of_true ?_ ⟨m', rfl⟩
    by_contra hn
    obtain ⟨hx, hm⟩ : m.isExcluded n = false ∧ m.isMarked n = false := by
      simpa [Finishes] using hn
    cases h.symm.trans (finish_eq_error_iff.mpr ⟨hm, hx, rfl⟩)
  | error e =>
    obtain ⟨hm, hx, -⟩ := finish_eq_error_iff.mp h
    exact iff_of_false (by simp [Finishes, hm, hx]) (by simp)

/-- Errors that were set aside change no error but that of a failed build. -/
theorem Error.eq_of_withRelated_eq_notInCreation {e : Error} {l : List Error} {m : String}
    (h : e.withRelated l = .notInCreation m) : e = .notInCreation m := by
  cases e with
  | creationFailed => cases h
  | _ => exact h

namespace Registry

variable {r : v.Registry} {n : String} (outermost : Bool) {x : v.Inst}

/-- An instance is installed if its build can be closed and its name is not final. -/
theorem settle_ok_of_final?_eq_none (h : r.marks.Finishes n) (hf : r.store.final? n = none) :
    (r.settle n outermost (.ok x)).reply = .ok x ∧
      (r.settle n outermost (.ok x)).registry.store = r.store.put n x := by
  obtain ⟨m, hm⟩ := Marks.finishes_iff.mp h
  constructor
  · simp only [settle, outcome, hm, closed, install, store_closeBuild, hf]
  · rw [store_settle, settleChange]
    simp only [outcome, hm, hf]
    rfl

/-- An instance gives way to the final one, if there is one. -/
theorem settle_ok_of_final (h : r.marks.Finishes n) {y : v.Inst} (hf : r.store.final? n = some y) :
    (r.settle n outermost (.ok x)).reply = .ok y ∧
      (r.settle n outermost (.ok x)).registry.store = r.store := by
  obtain ⟨m, hm⟩ := Marks.finishes_iff.mp h
  constructor
  · simp only [settle, outcome, hm, closed, install, store_closeBuild, hf]
  · rw [store_settle, settleChange]
    simp only [outcome, hm, hf]
    rfl

/-- An instance is answered with what is final from then on; what was staged is dropped with the
installation. -/
theorem settle_ok (h : r.marks.Finishes n) :
    (r.settle n outermost (.ok x)).reply = .ok ((r.store.final? n).getD x) ∧
      (r.settle n outermost (.ok x)).registry.store.final? n = some ((r.store.final? n).getD x) ∧
      (r.settle n outermost (.ok x)).registry.store.isStaged n =
        (r.store.isFinal n && r.store.isStaged n) := by
  cases hf : r.store.final? n with
  | none =>
    obtain ⟨hreply, hstore⟩ := settle_ok_of_final?_eq_none outermost (x := x) h hf
    have hnot : r.store.isFinal n = false := Store.isFinal_eq_false_iff.mpr hf
    refine ⟨hreply, ?_, ?_⟩
    · simp [hstore, Store.final?_put]
    · simp [hstore, Store.isStaged_put, hnot]
  | some y =>
    obtain ⟨hreply, hstore⟩ := settle_ok_of_final outermost (x := x) h hf
    have hfinal : r.store.isFinal n = true := Store.isFinal_iff.mpr (by simp [hf])
    refine ⟨hreply, ?_, ?_⟩
    · rw [hstore, hf]
      rfl
    · rw [hstore, hfinal, Bool.true_and]

/-- A result stands for a final instance only if there is one. -/
theorem final?_of_outcome_eq_present {outermost : Bool} {result : Except Error v.Inst} {i : v.Inst}
    (h : r.outcome n outermost result = .present i) : r.store.final? n = some i := by
  cases result with
  | ok x => cases h
  | error e =>
    rw [outcome] at h
    split at h
    · split at h
      · next hf =>
        cases h
        exact hf
      · cases h
    · cases h

/-- An open build whose construct has returned is completed with what it returned, or fails and
forgets what was staged. -/
theorem settle_of_finishes (result : Except Error v.Inst) (h : r.marks.Finishes n)
    (hf : r.store.final? n = none) :
    (∃ x, (r.settle n outermost result).reply = .ok x ∧
      (r.settle n outermost result).registry.store = r.store.put n x) ∨
    ∃ e, (r.settle n outermost result).reply = .error e ∧
      (r.settle n outermost result).registry.store = r.store.discard n := by
  obtain ⟨m, hm⟩ := Marks.finishes_iff.mp h
  cases ho : r.outcome n outermost result with
  | fresh x =>
    cases result with
    | ok y => exact .inl ⟨y, settle_ok_of_final?_eq_none outermost h hf⟩
    | error e =>
      rw [outcome] at ho
      split at ho
      · split at ho <;> cases ho
      · cases ho
  | present x => cases hf.symm.trans (final?_of_outcome_eq_present ho)
  | failed e =>
    refine .inr ⟨e, ?_, ?_⟩
    · simp only [settle, hm, ho]
    · rw [store_settle, settleChange]
      simp only [ho]
      rfl

/-- Without a mark that could be taken away, the end of a build fails. -/
theorem finish_of_not_finishes (h : ¬ r.marks.Finishes n) :
    r.marks.finish n = .error (.notInCreation n) := by
  obtain ⟨hx, hm⟩ : r.marks.isExcluded n = false ∧ r.marks.isMarked n = false := by
    simpa [Marks.Finishes] using h
  exact Marks.finish_eq_error_iff.mpr ⟨hm, hx, rfl⟩

/-- An instance is lost if its build cannot be closed in good order. -/
theorem settle_ok_of_not_finishes (h : ¬ r.marks.Finishes n) :
    (r.settle n outermost (.ok x)).reply = .error (.notInCreation n) ∧
      (r.settle n outermost (.ok x)).registry.store = r.store := by
  have hfinish := finish_of_not_finishes h
  constructor
  · simp only [settle, hfinish]
  · rw [store_settle, settleChange]
    simp only [outcome, hfinish]
    rfl

/-- A build fails because it was not marked only if it was not, or if its construct said so. -/
theorem of_settle_eq_notInCreation {result : Except Error v.Inst} {m : String}
    (h : (r.settle n outermost result).reply = .error (.notInCreation m)) :
    m = n ∧ ¬ r.marks.Finishes n ∨ result = .error (.notInCreation m) := by
  by_cases hfin : r.marks.Finishes n
  · right
    obtain ⟨marks, hm⟩ := Marks.finishes_iff.mp hfin
    cases ho : r.outcome n outermost result with
    | fresh x =>
      simp only [settle, hm, ho, install] at h
      split at h <;> cases h
    | present y => simp [settle, hm, ho] at h
    | failed e' =>
      obtain rfl : e' = .notInCreation m := by simpa [settle, hm, ho] using h
      cases result with
      | ok x => cases ho
      | error e =>
        rw [outcome] at ho
        split at ho
        · split at ho
          · cases ho
          · cases ho
            rfl
        · rw [Error.eq_of_withRelated_eq_notInCreation (Outcome.failed.inj ho)]
  · left
    simp only [settle, finish_of_not_finishes hfin, Except.error.injEq,
      Error.notInCreation.injEq] at h
    exact ⟨h.symm, hfin⟩

end Registry

/-! ### The error of an unmarked build -/

namespace Thread

/-- A build request that is refused was made in a teardown or inside a build of its name. -/
theorem error_of_beginOccurrence {s : State v} {n : String} {stage : Stage} {e : Error}
    (h : beginOccurrence s n stage = some (.created n (.error e))) :
    e = .tearingDown n ∨ e = .cycle n := by
  cases stage with
  | reading => cases hf : s.registry.store.final? n <;> simp [beginOccurrence, hf] at h
  | waiting => cases h
  | inside =>
    cases hf : s.registry.store.final? n with
    | some y => simp [beginOccurrence, hf] at h
    | none =>
      cases ht : s.registry.tearingDown with
      | true =>
        left
        simpa [beginOccurrence, hf, ht, eq_comm] using h
      | false =>
        right
        cases ho : s.registry.openBuild n with
        | ok r => simp [beginOccurrence, hf, ht, ho] at h
        | error e' =>
          obtain rfl : e' = e := by simpa [beginOccurrence, hf, ht, ho] using h
          exact (Marks.begin_eq_error_iff.mp (Registry.openBuild_eq_error ho)).2.2

/-- A request is answered that its name is not in creation only by the end of a build, which was not
marked, unless the construct returned this error itself. -/
theorem created_notInCreation {s : State v} {t : Thread v} {n m : String}
    (h : t.occurrence s = some (.created n (.error (.notInCreation m)))) :
    ∃ (g : Goal) (outermost : Bool) (resume : Except Error v.Inst → Code v (g.Result v.Inst))
      (rest : Stack v g) (result : Except Error v.Inst),
      t = .exec (g := .construct) (.done result) (.building n outermost resume rest) ∧
        (m = n ∧ ¬ s.registry.marks.Finishes n ∨ result = .error (.notInCreation m)) := by
  obtain ⟨g, resume, stack, hcreating, -⟩ := step_of_created h
  cases hcreating with
  | asked c =>
    by_cases hn : n = "" <;> simp [occurrence, execOccurrence, checkName, hn] at h
  | begun stage c => obtain h | h := error_of_beginOccurrence h <;> cases h
  | built outermost result =>
    have hreply : (s.registry.settle n outermost result).reply = .error (.notInCreation m) := by
      simpa [occurrence, execOccurrence, Stack.occurrence] using h
    exact ⟨g, outermost, resume, stack, result, rfl,
      s.registry.of_settle_eq_notInCreation outermost hreply⟩

end Thread

/-! ### Runs -/

/-- While the mark of a name mirrors its open builds, they can be closed in good order. -/
theorem Mirrors.finishes {n : String} {m : Marks} {l : List Episode} (h : Mirrors n m l)
    {e : Episode} (he : e ∈ l) (hn : e.name = n) : m.Finishes n := by
  cases hx : m.isExcluded n with
  | true => exact .inl hx
  | false =>
    have htracked := h.tracked_eq e he hn
    obtain ⟨k, tracked⟩ := e
    obtain ⟨rfl, rfl⟩ : k = n ∧ tracked = true := ⟨hn, by simpa [hx] using htracked⟩
    exact .inr (h.marked_iff.mpr he)

namespace Pool

variable {p : Pool v} {i : Nat} {g : Goal} {n : String} {outermost : Bool}
  {result : Except Error v.Inst} {resume : Except Error v.Inst → Code v (g.Result v.Inst)}
  {rest : Stack v g}

/-- A construct that returns is not kept waiting. -/
theorem step_of_construct_done (app : Application v)
    (h : p.threads[i]? =
      some (.exec (g := .construct) (.done result) (.building n outermost resume rest))) :
    p.step app i = ⟨p.state.after rest.depth (p.state.registry.settle n outermost result),
      p.threads.set i
        (.exec (resume (p.state.registry.settle n outermost result).reply) rest)⟩ :=
  step_of_takes app ⟨h, by simp [mayStep, Thread.wantsLock]⟩

/-- The build of a construct that returns is open. -/
theorem exists_build_of_construct_done
    (h : p.threads[i]? =
      some (.exec (g := .construct) (.done result) (.building n outermost resume rest))) :
    ⟨n, outermost⟩ ∈ p.builds :=
  List.mem_flatMap.mpr ⟨_, List.mem_of_getElem? h, List.mem_cons_self⟩

/-- **Successful constructs.** Programs are run on a fresh registry, in any order of their steps. At
every point of the run where the construct of `n` has returned an instance `x`:

* if `n` is excluded from tracking or marked, the request is answered with the instance of `n` that
  is final from then on, which is `x` unless `n` was final already; nothing stays staged for `n`
  unless it was final and staged before, which takes a producer that returned for a final name;
* otherwise the request fails, because the build was not marked, and the tiers stay as they were:
  the instance is lost;
* the latter does not happen if nobody changed the exclusion of `n` while a build of it was open.

No other request fails for such a reason, unless its construct returned that error itself. -/
theorem construct_ok_settled (app : Application v) (o : Options) (w : v.World)
    (programs : List (Code v Unit)) (schedule : List Nat) :
    let p := reached app o w programs schedule
    (∀ (i : Nat) (g : Goal) (n : String) (outermost : Bool) (x : v.Inst)
      (resume : Except Error v.Inst → Code v (g.Result v.Inst)) (rest : Stack v g),
      p.threads[i]? =
        some (.exec (g := .construct) (.done (.ok x)) (.building n outermost resume rest)) →
      (p.state.registry.marks.Finishes n →
        let y := (p.store.final? n).getD x
        (p.step app i).threads[i]? = some (.exec (resume (.ok y)) rest) ∧
        (p.step app i).store.final? n = some y ∧
        (p.step app i).store.isStaged n = (p.store.isFinal n && p.store.isStaged n) ∧
        ((∀ l j t, l ++ [j] <+: schedule → (reached app o w programs l).Takes j t →
            ¬ t.LateProduct (reached app o w programs l).state) →
          (p.step app i).store.isStaged n = false)) ∧
      (¬ p.state.registry.marks.Finishes n →
        (p.step app i).threads[i]? = some (.exec (resume (.error (.notInCreation n))) rest) ∧
        (p.step app i).store = p.store) ∧
      (Steady app n (start (.start o w) programs) schedule → p.state.registry.marks.Finishes n)) ∧
    ∀ i t n m, p.Takes i t →
      t.occurrence p.state = some (.created n (.error (.notInCreation m))) →
      ∃ (g : Goal) (outermost : Bool) (resume : Except Error v.Inst → Code v (g.Result v.Inst))
        (rest : Stack v g) (result : Except Error v.Inst),
        t = .exec (g := .construct) (.done result) (.building n outermost resume rest) ∧
          (m = n ∧ ¬ p.state.registry.marks.Finishes n ∨ result = .error (.notInCreation m)) := by
  intro p
  refine ⟨fun i g n outermost x resume rest hi => ?_, fun i t n m _ h => t.created_notInCreation h⟩
  have hlt : i < p.threads.length := (List.getElem?_eq_some_iff.mp hi).1
  have hstep := step_of_construct_done app hi
  have hthread : (p.step app i).threads[i]? =
      some (.exec (resume (p.state.registry.settle n outermost (.ok x)).reply) rest) := by
    rw [hstep]
    exact List.getElem?_set_self hlt
  have hstore : (p.step app i).store =
      (p.state.registry.settle n outermost (.ok x)).registry.store := by
    rw [hstep]
    exact congrArg Registry.store (p.state.registry_after ..)
  refine ⟨fun hfin => ?_, fun hfin => ?_, fun hsteady => ?_⟩
  · obtain ⟨hreply, hfinal, hstaged⟩ :=
      Registry.settle_ok outermost (x := x) (r := p.state.registry) hfin
    rw [hthread, hstore, hreply]
    refine ⟨rfl, hfinal, hstaged, fun hlate => ?_⟩
    have hexclusive : p.store.Exclusive :=
      (exclusive_run_iff app Store.exclusive_empty schedule).mpr hlate schedule List.prefix_rfl
    rw [hstaged]
    cases hf : p.store.isFinal n with
    | true => exact hexclusive n hf
    | false => rfl
  · obtain ⟨hreply, hkept⟩ := Registry.settle_ok_of_not_finishes outermost (x := x) hfin
    rw [hthread, hstore, hreply, hkept]
    exact ⟨rfl, rfl⟩
  · have hmem : n ∈ p.builds.map Build.name :=
      List.mem_map.mpr ⟨_, exists_build_of_construct_done hi, rfl⟩
    rw [← map_name_episodes] at hmem
    obtain ⟨e, he, hname⟩ := List.mem_map.mp hmem
    exact (mirrors_reached app o w programs hsteady).finishes he hname

end Pool

/-! ### Excluded names -/

namespace Sample

/-- A program that excludes "n" from tracking and then asks for it. -/
def excludingMain : Code vocabulary Unit := do
  let _ ← .ask (.setExcluded "n" true)
  let _ ← .obtainOrCreate "n" "construct"

/-- An untracked build is as good as any, if its name stays excluded. -/
theorem construct_ok_settled_excluding :
    let p := Pool.reached idle .default () [excludingMain] (List.replicate 5 0)
    p.state.registry.marks.isMarked "n" = false ∧
      (p.step idle 0).store.final? "n" = some (0 : Nat) ∧
      (p.step idle 0).store.isStaged "n" = false := by
  obtain ⟨hsettled, -, -⟩ := (Pool.construct_ok_settled idle .default () [excludingMain]
    (List.replicate 5 0)).1 0 .main "n" true (0 : Nat) (fun _ => .done ()) .top rfl
  obtain ⟨-, hfinal, hstaged, -⟩ := hsettled (.inl rfl)
  exact ⟨rfl, hfinal, hstaged⟩

/-- An application in which the construct of "n" includes "n" in tracking before it returns an
instance. -/
def including : Application vocabulary where
  body {g} _ :=
    match g with
    | .construct => do
      let _ ← .ask (.setExcluded "n" false)
      return .ok (3 : Nat)
    | .main => .done ()
    | .producer => .done (0 : Nat)
    | .hook | .block => .done (.ok ())

/-- A run of that application, after so many steps. -/
def includingRun (k : Nat) : Pool vocabulary :=
  .reached including .default () [excludingMain] (List.replicate k 0)

/-- The construct of "n" has returned instance 3, but the request is answered that "n" is not in
creation, and "n" is not final. -/
theorem not_created_including :
    (∃ resume, (includingRun 6).threads[0]? = some (.exec (g := .construct)
      (.done (.ok (3 : Nat))) (.building (g := .main) "n" true resume .top))) ∧
    (∃ t, (includingRun 6).Takes 0 t ∧ t.occurrence (includingRun 6).state =
      some (.created "n" (.error (.notInCreation "n")))) ∧
    (includingRun 7).store.final? "n" = none :=
  ⟨⟨_, rfl⟩, ⟨_, ⟨rfl, rfl⟩, rfl⟩, rfl⟩

end Sample

end Wiring
