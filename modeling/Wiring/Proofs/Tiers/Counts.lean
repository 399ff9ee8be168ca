import Wiring.Proofs.Sample
import Wiring.Proofs.Tiers.Memoized
import Wiring.Proofs.Tiers.Registered
import Wiring.Proofs.Transcript

/-!
# The counts that are reported

When an instance becomes final, the registry reports how many names are registered. The end of a
build counts them after the instance has been installed. A registration adds one to what it counts
before, which is right as long as the name is new. But an early reference brings its name into the
index, too; a name that was announced in this way and then registers itself is counted twice.

## Main definitions

* `Wiring.Store.Announced` — a name is registered without being final.
* `Wiring.Store.Change.Settles` — a change after which a name is not announced.

## Main results

* `Wiring.Pool.announced_iff` — which names are announced, over all runs.
* `Wiring.Pool.count_reported_unless_announced` — what is reported when an instance is installed.
* `Wiring.Sample.registering_announced` — a count that is too high.
-/

namespace Wiring

/-! ### Announced names -/

namespace Store

variable {ι φ : Type} {s : Store ι φ} {n : String}

/-- `n` is registered without being final. -/
def Announced (s : Store ι φ) (n : String) : Prop := n ∈ s.registered ∧ s.final? n = none

instance (s : Store ι φ) (n : String) : Decidable (s.Announced n) :=
  decidable_of_iff (n ∈ s.registered ∧ s.isFinal n = false) <|
    and_congr_right' isFinal_eq_false_iff

/-- Whether a change makes `n` final, or takes it out of the index unless it is final. -/
def Change.Settles (n : String) : Change ι φ → Prop
  | .put m _ | .remove m | .discard m => m = n
  | .clear => True
  | .keep | .offer .. | .fetch _ | .memoize .. => False

/-- A name is announced if its early reference was just offered, or if it was announced before and
the change does not settle it. -/
theorem announced_apply_iff {c : Change ι φ} :
    (c.apply s).Announced n ↔
      (∃ p, c = .offer n p ∧ s.final? n = none) ∨ s.Announced n ∧ ¬ c.Settles n := by
  cases c with
  | keep | fetch => simp [Change.apply, Change.Settles, Announced, fetch, final?]
  | put m i =>
    rw [Change.apply, Announced, final?_put, put, Names.mem_insert]
    by_cases h : m = n
    · simp [h, Change.Settles]
    · simp [h, Ne.symm h, Change.Settles, Announced]
  | offer m p =>
    cases hm : s.isFinal m with
    | true =>
      have hne : m = n → s.final? n ≠ none := by
        rintro rfl
        exact isFinal_iff.mp hm
      simpa [Change.apply, offer, hm, Change.Settles] using fun h hn => absurd hn (hne h)
    | false =>
      have hfinal : s.final? m = none := isFinal_eq_false_iff.mp hm
      have hoffer : (Change.offer m p).apply s = { s with
          early := s.early.erase m
          producers := s.producers.insert m p
          registered := s.registered.insert m } := by simp [Change.apply, offer, hm]
      rw [hoffer, Announced, Names.mem_insert]
      by_cases h : n = m
      · subst h
        simp [final?, show s.finals.find? n = none from hfinal]
      · simp [h, Ne.symm h, Change.Settles, Announced, final?]
  | memoize m i =>
    have hregistered : (s.memoize m i).2.registered = s.registered := by
      unfold memoize
      split <;> rfl
    simp [Change.apply, Announced, hregistered, Change.Settles]
  | remove m =>
    rw [Change.apply, Announced, final?_remove, remove, Names.mem_erase]
    by_cases h : m = n
    · simp [h, Change.Settles]
    · simp [h, Ne.symm h, Change.Settles, Announced]
  | discard m =>
    rw [Change.apply, Announced, final?_discard, registered_discard]
    by_cases h : n = m
    · subst h
      simp [Change.Settles, isFinal_iff]
    · simp [h, Ne.symm h, Change.Settles, Announced]
  | clear =>
    have hempty : n ∉ (empty : Store ι φ).registered := List.not_mem_nil
    simp [Change.apply, Announced, clear, Change.Settles, hempty]

/-- A final instance adds one to the count, unless its name was registered. -/
theorem count_put (s : Store ι φ) (n : String) (i : ι) :
    (s.put n i).count = if n ∈ s.registered then s.count else s.count + 1 := by
  rw [count, count, Names.size, put, Names.toList_insert]
  split
  · rfl
  · exact List.length_append

end Store

variable {v : Vocabulary}

/-! ### Steps that install an instance -/

theorem Registry.eq_ok_of_outcome_eq_fresh {r : v.Registry} {n : String} {outermost : Bool}
    {result : Except Error v.Inst} {x : v.Inst} (h : r.outcome n outermost result = .fresh x) :
    result = .ok x := by
  cases result with
  | ok y =>
    cases h
    rfl
  | error e =>
    rw [outcome] at h
    split at h
    · split at h <;> cases h
    · cases h

namespace Thread

variable {s : State v} {t : Thread v} {n : String} {x : v.Inst}

/-- An instance is installed by a registration, or at the end of a build that can be closed in good
order. -/
theorem of_storeChange_eq_put (h : t.storeChange s = .put n x) :
    (∃ (g : Goal) (next : Except Error Unit → Code v (g.Result v.Inst)) (stack : Stack v g),
      t = .exec (.call (.register n x) next) stack ∧ checkName n = .ok ()) ∨
    ∃ (g : Goal) (outermost : Bool) (resume : Except Error v.Inst → Code v (g.Result v.Inst))
      (rest : Stack v g),
        t = .exec (g := .construct) (.done (.ok x)) (.building n outermost resume rest) ∧
        s.registry.marks.Finishes n := by
  cases t with
  | exec code stack =>
    cases code with
    | done a =>
      cases stack with
      | building m outermost resume rest =>
        simp only [storeChange, Registry.settleChange] at h
        split at h
        · cases h
        · next ho hm hf =>
          cases h
          obtain rfl := Registry.eq_ok_of_outcome_eq_fresh ho
          exact .inr ⟨_, outermost, resume, rest, rfl, Marks.finishes_iff.mpr ⟨_, hm⟩⟩
        all_goals cases h
      | _ => cases h
    | call q next =>
      cases q with
      | register m i =>
        simp only [storeChange, Request.storeChange] at h
        split at h
        · next hm hf =>
          cases h
          exact .inl ⟨_, next, stack, rfl, hm⟩
        all_goals cases h
      | publish m p =>
        simp only [storeChange, Request.storeChange] at h
        split at h <;> cases h
      | _ => cases h
    | _ => cases h
  | seek stage m early resume stack =>
    cases stage with
    | inside =>
      simp only [storeChange] at h
      split at h <;> cases h
    | _ => cases h
  | walk todo next stack =>
    cases todo with
    | nil => cases h
    | cons task todo => cases task <;> cases h
  | unwind p stack => cases stack <;> cases h
  | begin | finished => cases h

/-- A registration that installs an instance writes one more than what was counted before. -/
theorem writes_of_register {g : Goal} {next : Except Error Unit → Code v (g.Result v.Inst)}
    {stack : Stack v g} (hname : checkName n = .ok ()) (hf : s.registry.store.final? n = none) :
    (exec (.call (.register n x) next) stack).writes s =
      some (.report stack.depth (.registering n (s.registry.store.count + 1))) := by
  simp [writes, execWrites, Request.answer, Registry.register, hname, hf]

/-- The end of a build that installs an instance writes what is counted afterwards. -/
theorem writes_of_settle {g : Goal} {outermost : Bool}
    {resume : Except Error v.Inst → Code v (g.Result v.Inst)} {rest : Stack v g}
    (hm : s.registry.marks.Finishes n) (hf : s.registry.store.final? n = none) :
    (exec (g := .construct) (.done (.ok x)) (.building n outermost resume rest)).writes s =
      some (.report rest.depth (.created n (s.registry.store.put n x).count)) := by
  obtain ⟨m, hm⟩ := Marks.finishes_iff.mp hm
  simp [writes, execWrites, Stack.writes, Registry.settle, Registry.outcome, hm, Registry.closed,
    Registry.install, hf]

end Thread

/-! ### Runs -/

namespace Pool

/-- The next step, if it is thread `i`'s turn, settles `n`: it makes `n` final, or takes it out of
the index unless it is final. -/
def Settles (p : Pool v) (i : Nat) (n : String) : Prop :=
  ∃ t, p.Takes i t ∧ (t.storeChange p.state).Settles n

/-- A name is announced after a step if the step publishes it, or if it was announced before and the
step does not settle it. -/
theorem announced_step_iff (app : Application v) {p : Pool v} {i : Nat} {n : String} :
    (p.step app i).store.Announced n ↔
      (∃ f, p.Publishes i n f) ∨ p.store.Announced n ∧ ¬ p.Settles i n := by
  by_cases ht : ∃ t, p.Takes i t
  · obtain ⟨t, ht⟩ := ht
    have hthread {u : Thread v} (hu : p.Takes i u) : u = t := Option.some.inj (hu.1.symm.trans ht.1)
    have hpublishes (f : v.Closure .producer) :
        p.Publishes i n f ↔ t.storeChange p.state = .offer n f ∧ p.store.final? n = none := by
      rw [← Thread.published_iff]
      exact ⟨fun ⟨u, hu, h⟩ => hthread hu ▸ h, fun h => ⟨t, ht, h⟩⟩
    have hsettles : p.Settles i n ↔ (t.storeChange p.state).Settles n :=
      ⟨fun ⟨u, hu, h⟩ => hthread hu ▸ h, fun h => ⟨t, ht, h⟩⟩
    rw [step_of_takes app ht, store, t.store_step, Store.announced_apply_iff]
    simp only [hpublishes, hsettles]
  · rw [step_of_not_takes app (not_exists.mp ht)]
    refine ⟨fun h => .inr ⟨h, fun ⟨t, hu, _⟩ => ht ⟨t, hu⟩⟩, ?_⟩
    rintro (⟨f, t, hu, -⟩ | ⟨h, -⟩)
    · exact absurd ⟨t, hu⟩ ht
    · exact h

/-- A name is announced exactly if an early reference of it was published, and it has not been
settled since. -/
theorem announced_iff (app : Application v) (o : Options) (w : v.World)
    (programs : List (Code v Unit)) (schedule : List Nat) (n : String) :
    (reached app o w programs schedule).store.Announced n ↔
      ∃ l i, l ++ [i] <+: schedule ∧ (∃ f, (reached app o w programs l).Publishes i n f) ∧
        ∀ l' j, l ++ [i] <+: l' → l' ++ [j] <+: schedule →
          ¬ (reached app o w programs l').Settles j n := by
  refine holds_iff_since (P := fun l => (reached app o w programs l).store.Announced n)
    (fun h => absurd h.1 List.not_mem_nil) (fun l i => ?_) schedule
  rw [reached_concat]
  exact announced_step_iff app

/-- **Reported counts.** Programs are run on a fresh registry, in any order of their steps. Whenever
a step installs an instance of `n`, it writes one line, and that line reports a count.

* At the end of a build, the count is the number of registered names after the step.
* For a registration, the count is one more than the number of registered names before the step.
  That is the number after the step if and only if `n` was not announced; if it was, the count is
  too high by one.
* `n` is announced exactly if some earlier step published an early reference of `n`, and no step
  since has settled `n`, whether `n` is being built or not. -/
theorem count_reported_unless_announced (app : Application v) (o : Options) (w : v.World)
    (programs : List (Code v Unit)) (schedule : List Nat) (i : Nat) (t : Thread v) (n : String)
    (x : v.Inst) (ht : (reached app o w programs schedule).Takes i t)
    (hput : t.storeChange (reached app o w programs schedule).state = .put n x) :
    let p := reached app o w programs schedule
    let p' := reached app o w programs (schedule ++ [i])
    p'.store.final? n = some x ∧
    ((∃ (g : Goal) (outermost : Bool) (resume : Except Error v.Inst → Code v (g.Result v.Inst))
        (rest : Stack v g),
        t = .exec (g := .construct) (.done (.ok x)) (.building n outermost resume rest) ∧
        p'.state.transcript =
          .report rest.depth (.created n p'.store.count) :: p.state.transcript) ∨
      ∃ (g : Goal) (next : Except Error Unit → Code v (g.Result v.Inst)) (stack : Stack v g)
        (k : Nat), t = .exec (.call (.register n x) next) stack ∧
        p'.state.transcript = .report stack.depth (.registering n k) :: p.state.transcript ∧
        (¬ p.store.Announced n → k = p'.store.count) ∧
        (p.store.Announced n → k = p'.store.count + 1)) ∧
    (p.store.Announced n ↔
      ∃ l j, l ++ [j] <+: schedule ∧ (∃ f, (reached app o w programs l).Publishes j n f) ∧
        ∀ l' k, l ++ [j] <+: l' → l' ++ [k] <+: schedule →
          ¬ (reached app o w programs l').Settles k n) := by
  intro p p'
  have hnone : p.store.final? n = none := by
    have hcause := t.cause_storeChange p.state
    rw [hput] at hcause
    cases hcause with
    | put hn => exact hn
  have hp' : p'.state = (t.step app p.state).1 := by
    rw [show p' = p.step app i from reached_concat .., step_of_takes app ht]
  have hstore : p'.store = p.store.put n x := by rw [store, hp', t.store_step, hput]; rfl
  have hwritten : p'.state.transcript = (t.writes p.state).toList ++ p.state.transcript := by
    rw [hp', t.transcript_step]
  refine ⟨by simp [hstore, Store.final?_put], ?_, announced_iff app o w programs schedule n⟩
  obtain ⟨g, next, stack, rfl, hname⟩ | ⟨g, outermost, resume, rest, rfl, hm⟩ :=
    Thread.of_storeChange_eq_put hput
  · rw [Thread.writes_of_register hname hnone] at hwritten
    refine .inr ⟨g, next, stack, _, rfl, hwritten, fun hnew => ?_, fun hold => ?_⟩
    · have hn : n ∉ p.store.registered := fun hn => hnew ⟨hn, hnone⟩
      rw [hstore, Store.count_put, if_neg hn]
    · rw [hstore, Store.count_put, if_pos hold.1]
  · rw [Thread.writes_of_settle hm hnone] at hwritten
    refine .inl ⟨g, outermost, resume, rest, rfl, ?_⟩
    rw [hwritten, hstore]
    rfl

end Pool

/-! ### A build that registers its own name -/

namespace Sample

/-- An application in which a construct publishes an early reference of "n" and then registers
instance 1 as "n". -/
def preempting : Application vocabulary where
  body {g} _ :=
    match g with
    | .construct => do
      let _ ← .ask (.publish "n" "producer")
      let _ ← .ask (.register "n" (1 : Nat))
      return .ok (2 : Nat)
    | .producer => return (3 : Nat)
    | .main => return ()
    | .hook | .block => return .ok ()

/-- A program that asks for "n" and then registers "m". -/
def preemptingMain : Code vocabulary Unit := do
  let _ ← .obtainOrCreate "n" "construct"
  let _ ← .ask (.register "m" (5 : Nat))

/-- A run of that program, after so many steps. -/
def preemptingRun (k : Nat) : Pool vocabulary :=
  .reached preempting .default () [preemptingMain] (List.replicate k 0)

/-- The thread of that run, after so many steps. -/
def preemptingThread (k : Nat) : Thread vocabulary :=
  ((preemptingRun k).threads[0]?).getD (.finished (.ok ()))

/-- The registration of "m", after the build of "n", reports the right count, and the registration
of "n" inside the build one that is too high. -/
theorem count_reported_unless_announced_preempting :
    (preemptingRun 8).state.transcript =
      .report 0 (.registering "m" (preemptingRun 8).store.count) ::
        (preemptingRun 7).state.transcript ∧
    (preemptingRun 6).state.transcript =
      .report 1 (.registering "n" ((preemptingRun 6).store.count + 1)) ::
        (preemptingRun 5).state.transcript := by
  obtain ⟨-, hm, -⟩ := Pool.count_reported_unless_announced preempting .default ()
    [preemptingMain] (List.replicate 7 0) 0 (preemptingThread 7) "m" (5 : Nat) ⟨rfl, rfl⟩ rfl
  obtain ⟨-, hn, -⟩ := Pool.count_reported_unless_announced preempting .default ()
    [preemptingMain] (List.replicate 5 0) 0 (preemptingThread 5) "n" (1 : Nat) ⟨rfl, rfl⟩ rfl
  constructor
  · obtain ⟨g, outermost, resume, rest, h, -⟩ | ⟨g, next, stack, k, h, hwritten, hcount, -⟩ := hm
    · cases h
    · cases h
      rw [hcount (by decide)] at hwritten
      exact hwritten
  · obtain ⟨g, outermost, resume, rest, h, -⟩ | ⟨g, next, stack, k, h, hwritten, -, hcount⟩ := hn
    · cases h
    · cases h
      rw [hcount (by decide)] at hwritten
      exact hwritten

/-- The registration of "n" reports two registered names, while there is only one. -/
theorem registering_announced :
    (∃ t, (preemptingRun 5).Takes 0 t ∧
      t.storeChange (preemptingRun 5).state = .put "n" (1 : Nat)) ∧
    (preemptingRun 6).state.transcript =
      .report 1 (.registering "n" 2) :: (preemptingRun 5).state.transcript ∧
    (preemptingRun 6).store.count = 1 :=
  ⟨⟨_, ⟨rfl, rfl⟩, rfl⟩, rfl, rfl⟩

end Sample

end Wiring
