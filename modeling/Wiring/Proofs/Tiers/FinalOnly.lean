import Wiring.Proofs.Builds.Midway
import Wiring.Proofs.Teardown.Barring
import Wiring.Proofs.Tiers.Final
import Wiring.Proofs.Tiers.Index

/-!
# Registries without early references

Where circular references are not allowed, only the final tier is in use. No producer is taken, so
none is run and nothing is ever staged; the registered names are the final ones, at any moment and
whatever is excluded from tracking; and a request for a name that is being built has nothing to fall
back on. The option is asked at two places, where a producer is offered and where one would be run,
and either of them would do, but the lookup that is answered without running a producer does not ask
it. That the early tier is empty then is a matter of the whole run.

## Main definitions

* `Wiring.Store.FinalOnly` — nothing is staged, and the registered names are the final ones.
* `Wiring.Registry.refusal` — why a request for a marked name is refused.

## Main results

* `Wiring.Store.FinalOnly.apply` — the changes that keep the tiers so.
* `Wiring.Pool.finalOnly_run` — they stay so, over all runs without circular references.
* `Wiring.Pool.no_early_exposure` — what lookups and requests come to, over all runs.
-/

namespace Wiring

/-! ### Tiers in which only final instances are bound -/

namespace Store

variable {ι φ : Type} {s : Store ι φ}

/-- Nothing is staged, and the registered names are the final ones. -/
structure FinalOnly (s : Store ι φ) : Prop where
  unstaged : ∀ n, s.isStaged n = false
  registered_iff : ∀ n, n ∈ s.registered ↔ s.final? n ≠ none

theorem finalOnly_empty : (empty : Store ι φ).FinalOnly where
  unstaged _ := rfl
  registered_iff _ := iff_of_false List.not_mem_nil (absurd rfl)

/-- Every change keeps the tiers so, unless a producer is offered or a product comes back. -/
theorem FinalOnly.apply (h : s.FinalOnly) {c : Change ι φ} (hoffer : ∀ n p, c ≠ .offer n p)
    (hmemoize : ∀ n i, c ≠ .memoize n i) : (c.apply s).FinalOnly := by
  obtain ⟨hunstaged, hregistered⟩ := h
  cases c with
  | keep => exact ⟨hunstaged, hregistered⟩
  | put n i =>
    refine ⟨fun m => by rw [Change.apply, isStaged_put, hunstaged, Bool.and_false], fun m => ?_⟩
    rw [Change.apply, final?_put]
    refine Names.mem_insert.trans ?_
    by_cases hmn : m = n
    · simp [hmn]
    · simp [hmn, Ne.symm hmn, hregistered]
  | offer n p => exact absurd rfl (hoffer n p)
  | fetch n =>
    refine ⟨fun m => Bool.eq_false_iff.mpr fun hs => ?_, hregistered⟩
    exact Bool.false_ne_true ((hunstaged m).symm.trans (isStaged_of_isStaged_fetch hs))
  | memoize n i => exact absurd rfl (hmemoize n i)
  | remove n =>
    refine ⟨fun m => by rw [Change.apply, isStaged_remove, hunstaged, Bool.and_false], fun m => ?_⟩
    rw [Change.apply, final?_remove]
    refine Names.mem_erase.trans ?_
    by_cases hmn : m = n
    · simp [hmn]
    · simp [hmn, Ne.symm hmn, hregistered]
  | discard n =>
    refine ⟨fun m => by rw [Change.apply, isStaged_discard, hunstaged, Bool.and_false], fun m => ?_⟩
    rw [Change.apply, final?_discard, registered_discard, hregistered]
    refine and_iff_left_of_imp fun hf hmn => ?_
    exact isFinal_iff.mpr (hmn ▸ hf)
  | clear => exact finalOnly_empty

end Store

variable {v : Vocabulary}

/-- Why a request for a name that is marked, and not excluded, is refused. -/
def Registry.refusal (r : v.Registry) (n : String) : Error :=
  if r.tearingDown then .tearingDown n else .cycle n

/-! ### Steps where circular references are not allowed -/

namespace Thread

variable {s : State v} {t : Thread v}

/-- No producer is taken. -/
theorem not_offer (hc : s.registry.options.circular = false) (n : String)
    (p : v.Closure .producer) : t.storeChange s ≠ .offer n p := by
  intro h
  have hcause := t.cause_storeChange s
  rw [h] at hcause
  cases hcause with
  | offer next stack => simp [storeChange, Request.storeChange, hc] at h

/-- No producer is run. -/
theorem not_fetch (hc : s.registry.options.circular = false) (n : String) :
    t.storeChange s ≠ .fetch n := by
  intro h
  have hcause := t.cause_storeChange s
  rw [h] at hcause
  cases hcause with
  | fetch resume stack hf => simp [storeChange, hc] at h

/-- Only a producer that is run returns a product. -/
theorem not_memoize (hnone : ∀ n, .producing n ∉ t.frames) (n : String) (i : v.Inst) :
    t.storeChange s ≠ .memoize n i := by
  intro h
  have hcause := t.cause_storeChange s
  rw [h] at hcause
  cases hcause with
  | memoize resume rest => exact hnone n List.mem_cons_self

/-- While nothing is staged and no producer is run, a lookup finds final instances only. -/
theorem final?_of_found {n : String} {x : v.Inst} (hs : s.registry.store.isStaged n = false)
    (hnone : ∀ n, .producing n ∉ t.frames) (ho : t.occurrence s = some (.found n (some x))) :
    s.registry.store.final? n = some x := by
  obtain ⟨g, resume, stack, hseeking, -⟩ := step_of_found ho
  cases hseeking with
  | asked early => simpa [occurrence, execOccurrence] using ho
  | begun stage early =>
    cases stage with
    | reading =>
      simp only [occurrence, seekOccurrence] at ho
      split at ho <;> cases ho
    | waiting => cases ho
    | inside =>
      obtain hfound | ⟨-, hstaged⟩ := seekOccurrence_inside s n early
      · have heq := Option.some.inj (hfound.symm.trans ho)
        simpa using heq
      · exact absurd (hs.symm.trans hstaged) Bool.false_ne_true
  | produced y => exact absurd List.mem_cons_self (hnone n)

end Thread

/-! ### Refused requests -/

namespace Leads

variable {app : Application v} {s : State v} {g : Goal} {n : String} {stack : Stack v g}
  {c : v.Closure .construct} {next : Except Error v.Inst → Code v (g.Result v.Inst)}

variable (app stack c next) in
/-- A request for a marked name that is not final is refused. -/
theorem create_refused (hn : n ≠ "") (hf : s.registry.store.final? n = none)
    (hm : s.registry.marks.isMarked n = true) (hx : s.registry.marks.isExcluded n = false) :
    ∃ s', Leads app (s, .exec (.create n c next) stack)
        [.created n (.error (s.registry.refusal n))]
        (s', .exec (next (.error (s.registry.refusal n))) stack) ∧
      s'.registry = s.registry := by
  cases ht : s.registry.tearingDown with
  | true =>
    simp only [Registry.refusal, ht, if_true]
    exact ⟨s, create_barred hn hf ht, rfl⟩
  | false =>
    simp only [Registry.refusal, ht, Bool.false_eq_true, if_false]
    obtain ⟨s', hrun, hr, -⟩ := create_cycle app stack c next hn hf ht hm hx
    exact ⟨s', hrun, hr⟩

/-- A marked name that is neither final nor staged is looked up in vain, and then refused. -/
theorem resolve_refused (hn : n ≠ "") (hf : s.registry.store.final? n = none)
    (hm : s.registry.marks.isMarked n = true) (hx : s.registry.marks.isExcluded n = false)
    (hs : s.registry.store.isStaged n = false) :
    ∃ s', Leads app (s, .exec ((Code.resolve n c).bind next) stack)
        [.found n none, .created n (.error (s.registry.refusal n))]
        (s', .exec (next (.error (s.registry.refusal n))) stack) ∧
      s'.registry = s.registry := by
  rw [Code.resolve_bind]
  obtain ⟨he, hp⟩ := Store.isStaged_eq_false_iff.mp hs
  obtain ⟨s', hrun, hr⟩ := create_refused app stack c next hn hf hm hx
  exact ⟨s', (lookup_unstaged hf hm he hp).trans hrun, hr⟩

end Leads

/-- With the lock, a request for a marked name that is not final is refused by the next step. -/
theorem Thread.begin_refused (app : Application v) {s : State v} {g : Goal} {n : String}
    (c : v.Closure .construct) (next : Except Error v.Inst → Code v (g.Result v.Inst))
    (stack : Stack v g) (hf : s.registry.store.final? n = none)
    (hm : s.registry.marks.isMarked n = true) (hx : s.registry.marks.isExcluded n = false) :
    (Thread.begin .inside n c next stack).occurrence s =
        some (.created n (.error (s.registry.refusal n))) ∧
      ((Thread.begin .inside n c next stack).step app s).1.registry = s.registry ∧
      ((Thread.begin .inside n c next stack).step app s).2 =
        .exec (next (.error (s.registry.refusal n))) stack := by
  have hopen := Registry.openBuild_of_marked hm hx
  cases ht : s.registry.tearingDown <;>
    simp [occurrence, beginOccurrence, step, beginStep, Registry.refusal, hf, ht, hopen]

/-! ### Runs -/

namespace Pool

/-- Only final instances are bound, and no producer is being run. -/
structure FinalOnly (p : Pool v) : Prop where
  store : p.store.FinalOnly
  frames : ∀ t ∈ p.threads, ∀ n, .producing n ∉ t.frames

theorem finalOnly_start (s : State v) (programs : List (Code v Unit))
    (hs : s.registry.store = .empty) : (start s programs).FinalOnly := by
  refine ⟨?_, fun t ht => ?_⟩
  · change s.registry.store.FinalOnly
    rw [hs]
    exact Store.finalOnly_empty
  · obtain ⟨main, -, rfl⟩ := List.mem_map.mp ht
    exact fun _ => List.not_mem_nil

theorem finalOnly_run (app : Application v) {p : Pool v} (h : p.FinalOnly)
    (hc : p.state.registry.options.circular = false) (schedule : List Nat) :
    (p.run app schedule).FinalOnly := by
  refine (run_induction (P := fun p => p.FinalOnly ∧ p.state.registry.options.circular = false)
    (fun p i t ht hp => ?_) ⟨h, hc⟩ schedule).1
  obtain ⟨⟨hstore, hframes⟩, hc⟩ := hp
  have hnone := hframes t (List.mem_of_getElem? ht.1)
  refine ⟨⟨?_, fun u hu => ?_⟩, by rw [t.options_step, hc]⟩
  · rw [Pool.store, t.store_step]
    exact hstore.apply (Thread.not_offer hc) (Thread.not_memoize hnone)
  · obtain hu | rfl := List.mem_or_eq_of_mem_set hu
    · exact hframes u hu
    · exact fun n hn => (t.producing_or_fetch app hn).elim (hnone n) (Thread.not_fetch hc n)

/-- **Registries without early references.** Programs are run on a fresh registry that does not
allow circular references, in any order of their steps. At every point of the run:

* no thread is running a producer;
* there are neither early instances nor producers;
* the registered names are the final ones, each once;
* an instance that a lookup or a request for a final instance is answered with, or that can be seen
  from outside, is the final one of its name at that moment; so is one that a build request is
  answered with;
* of a name that is marked, and neither excluded nor final, no construct is begun;
* a request for such a name is refused by the step that the thread takes with the lock, and changes
  nothing. The error says that a teardown is in progress, if so, and otherwise that the name is in
  creation. If nobody else holds the lock, this is what a request to create or to resolve the name
  comes to, by steps of the thread that show nothing else but that a lookup finds nothing. -/
theorem no_early_exposure (app : Application v) (o : Options) (hcircular : o.circular = false)
    (w : v.World) (programs : List (Code v Unit)) (schedule : List Nat) :
    let p := reached app o w programs schedule
    (∀ t ∈ p.threads, ∀ n, .producing n ∉ t.frames) ∧
    (p.store.early = .empty ∧ p.store.producers = .empty) ∧
    (p.store.names.Nodup ∧ ∀ n, n ∈ p.store.names ↔ p.store.final? n ≠ none) ∧
    ((∀ i t n x, p.Takes i t → t.occurrence p.state = some (.found n (some x)) ∨
        t.occurrence p.state = some (.answered (.get n) (.ok x)) → p.store.final? n = some x) ∧
      (∀ n, p.state.registry.visible? n = p.store.final? n) ∧
      ∀ i t n x, p.Takes i t → t.occurrence p.state = some (.created n (.ok x)) →
        (p.step app i).store.final? n = some x) ∧
    ∀ n, p.store.final? n = none → p.state.registry.marks.isMarked n = true →
      p.state.registry.marks.isExcluded n = false →
      (∀ i t, p.Takes i t → t.occurrence p.state ≠ some (.constructBegun n)) ∧
      ∀ (g : Goal) (c : v.Closure .construct)
        (next : Except Error v.Inst → Code v (g.Result v.Inst)) (stack : Stack v g) (i : Nat),
        let refused := Thread.exec (next (.error (p.state.registry.refusal n))) stack
        (p.Takes i (.begin .inside n c next stack) →
          (Thread.begin .inside n c next stack).occurrence p.state =
            some (.created n (.error (p.state.registry.refusal n))) ∧
          (p.step app i).state.registry = p.state.registry ∧
          (p.step app i).threads = p.threads.set i refused) ∧
        (n ≠ "" → p.lockedByOther i = false →
          (p.threads[i]? = some (.exec (.create n c next) stack) →
            ∃ s, p.Goes app i (.exec (.create n c next) stack)
                [.created n (.error (p.state.registry.refusal n))] s refused ∧
              s.registry = p.state.registry) ∧
          (p.threads[i]? = some (.exec ((Code.resolve n c).bind next) stack) →
            ∃ s, p.Goes app i (.exec ((Code.resolve n c).bind next) stack)
                [.found n none, .created n (.error (p.state.registry.refusal n))] s refused ∧
              s.registry = p.state.registry)) := by
  intro p
  obtain ⟨⟨hunstaged, hregistered⟩, hframes⟩ : p.FinalOnly :=
    finalOnly_run app (finalOnly_start (.start o w) programs rfl) hcircular schedule
  have hempty := Store.forall_isStaged_eq_false_iff.mp hunstaged
  refine ⟨hframes, hempty, ⟨p.store.nodup_names, hregistered⟩, ⟨?found, ?visible, ?created⟩,
    fun n hf hm hx => ⟨fun _ t _ => t.not_constructBegun_of_marked hm hx, ?_⟩⟩
  case found =>
    rintro i t n x ht (ho | ho)
    · exact Thread.final?_of_found (hunstaged n) (hframes t (List.mem_of_getElem? ht.1)) ho
    · obtain ⟨g, next, stack, rfl, hr⟩ := Thread.calling_of_answered ho
      cases hf : p.state.registry.store.final? n with
      | none => simp [Request.answer, hf] at hr
      | some y =>
        obtain rfl : x = y := by simpa [Request.answer, hf] using hr
        rfl
  case visible =>
    intro n
    have he : p.state.registry.store.early? n = none :=
      (Store.isStaged_eq_false_iff.mp (hunstaged n)).1
    rw [Registry.visible?, he, ite_self]
    cases p.state.registry.store.final? n <;> rfl
  case created => exact fun i t n x ht ho => final?_step_of_handsOut app ht (.created ho)
  intro g c next stack i refused
  refine ⟨fun ht => ?_, fun hn hlock => ⟨fun hi => ?_, fun hi => ?_⟩⟩
  · obtain ⟨ho, hr, hstep⟩ := Thread.begin_refused app c next stack hf hm hx
    rw [step_of_takes app ht, hstep]
    exact ⟨ho, hr, rfl⟩
  · obtain ⟨s, hrun, hr⟩ := Leads.create_refused app stack c next hn hf hm hx
    exact ⟨s, run_of_leads app hi hlock hrun, hr⟩
  · obtain ⟨s, hrun, hr⟩ := Leads.resolve_refused hn hf hm hx (hunstaged n)
    exact ⟨s, run_of_leads app hi hlock hrun, hr⟩

end Pool

/-! ### A build that resolves its own name -/

namespace Sample

/-- An application whose constructs publish an early reference of "n" and resolve "n" then. -/
def looping : Application vocabulary where
  body {g} _ :=
    match g with
    | .construct => do
      let _ ← .ask (.publish "n" "early")
      match ← .resolve "n" "again" with
      | .ok i => return .ok i
      | .error e => return .error e
    | .producer => return (7 : Nat)
    | .main => return ()
    | .hook | .block => return .ok ()

/-- A run of a program that asks for "n", without circular references, after so many steps. -/
def loopingRun (k : Nat) : Pool vocabulary :=
  .reached looping ⟨16, false⟩ () [do let _ ← .obtainOrCreate "n" "construct"] (List.replicate k 0)

/-- Where the construct of "n" has offered a producer and is about to resolve "n", nothing is
staged, and "n" cannot be resolved. -/
theorem no_early_exposure_looping :
    (loopingRun 5).store.producers = .empty ∧
    ∃ s next stack, (loopingRun 5).Goes looping 0
      (.exec (g := .construct) ((Code.resolve "n" "again").bind next) stack)
      [.found "n" none, .created "n" (.error (.cycle "n"))] s
      (.exec (next (.error (.cycle "n"))) stack) := by
  obtain ⟨-, ⟨-, hproducers⟩, -, -, hrefused⟩ := Pool.no_early_exposure looping ⟨16, false⟩ rfl ()
    [do let _ ← .obtainOrCreate "n" "construct"] (List.replicate 5 0)
  obtain ⟨-, hresolve⟩ :=
    ((hrefused "n" rfl rfl rfl).2 .construct "again" _ _ 0).2 (by decide) rfl
  obtain ⟨s, hgoes, -⟩ := hresolve rfl
  exact ⟨hproducers, s, _, _, hgoes⟩

end Sample

end Wiring
