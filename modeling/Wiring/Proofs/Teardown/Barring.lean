import Wiring.Proofs.Assembly.Requests
import Wiring.Proofs.Builds.Marks
import Wiring.Proofs.Teardown.Change
import Wiring.Proofs.Teardown.Ending

/-!
# No building during a teardown

A registry that is being torn down as a whole refuses to build anything. That it is being torn down
is a single flag, which goes up when such a teardown begins and down when one ends, and also when
the registry is cleared. So the flag does not count: a hook that calls for a second teardown of the
whole registry, or clears it, has taken the flag down when it goes on, while the first teardown is
still under way. This file says when the flag is up, over all runs, and what it is good for: as long
as it is up no construct is begun, and requests are answered with a final instance or refused; while
it is down, it stops no build.

## Main definitions

* `Wiring.Pool.Flags` — what the next step of a pool does to the flag.

## Main results

* `Wiring.Pool.tearingDown_run_iff` — when the flag is up.
* `Wiring.Pool.run_request_of_tearingDown` — how requests are answered while it is up.
* `Wiring.Pool.barred_while_flagged` — what the flag is good for, over all runs.
* `Wiring.Sample.constructBegun_reopening` — a construct that is begun during a teardown.
-/

namespace Wiring

variable {v : Vocabulary}

/-! ### The flag over runs -/

namespace Pool

/-- The next step of the pool, if it is the turn of thread `i`, puts the flag up or takes it
down. -/
def Flags (p : Pool v) (i : Nat) (up : Bool) : Prop := ∃ t, p.Takes i t ∧ t.flag? = some up

theorem tearingDown_of_flags (app : Application v) {p : Pool v} {i : Nat} {up : Bool}
    (h : p.Flags i up) : (p.step app i).state.registry.tearingDown = up := by
  obtain ⟨t, ht, hflag⟩ := h
  rw [step_of_takes app ht, Thread.tearingDown_step, hflag, Option.getD_some]

theorem tearingDown_of_not_flags (app : Application v) {p : Pool v} {i : Nat}
    (h : ∀ up, ¬ p.Flags i up) :
    (p.step app i).state.registry.tearingDown = p.state.registry.tearingDown := by
  by_cases ht : ∃ t, p.Takes i t
  · obtain ⟨t, ht⟩ := ht
    have hnone : t.flag? = none :=
      Option.eq_none_iff_forall_ne_some.mpr fun up hup => h up ⟨t, ht, hup⟩
    rw [step_of_takes app ht, Thread.tearingDown_step, hnone, Option.getD_none]
  · rw [step_of_not_takes app (not_exists.mp ht)]

/-- In the steps of a schedule that starts with the flag down, the flag is up at the end exactly if
one of the steps has put it up and no later one has taken it down. -/
theorem tearingDown_run_iff (app : Application v) {p : Pool v}
    (hp : p.state.registry.tearingDown = false) (schedule : List Nat) :
    (p.run app schedule).state.registry.tearingDown = true ↔
      ∃ l i, l ++ [i] <+: schedule ∧ (p.run app l).Flags i true ∧
        ∀ l' j, l ++ [i] <+: l' → l' ++ [j] <+: schedule → ¬ (p.run app l').Flags j false := by
  refine holds_iff_since (P := fun l => (p.run app l).state.registry.tearingDown = true)
    (Q := fun l i => (p.run app l).Flags i true) (R := fun l i => (p.run app l).Flags i false)
    (Bool.eq_false_iff.mp hp) (fun l i => ?_) schedule
  rw [run_concat]
  by_cases hup : (p.run app l).Flags i true
  · exact iff_of_true (tearingDown_of_flags app hup) (.inl hup)
  · rw [or_iff_right hup]
    by_cases hdown : (p.run app l).Flags i false
    · rw [tearingDown_of_flags app hdown]
      exact iff_of_false Bool.false_ne_true fun h => h.2 hdown
    · rw [tearingDown_of_not_flags app (Bool.forall_bool.mpr ⟨hdown, hup⟩), and_iff_left hdown]

end Pool

/-! ### Build requests while the flag is up -/

/-- A step that answers a build request while the flag is up answers with the final instance or
refuses. -/
theorem eq_created_of_tearingDown {s : State v} {n : String} {stage : Stage} {o : Occurrence v}
    (ht : s.registry.tearingDown = true) (ho : beginOccurrence s n stage = some o) :
    (∃ x, s.registry.store.final? n = some x ∧ o = .created n (.ok x)) ∨
      s.registry.store.final? n = none ∧ o = .created n (.error (.tearingDown n)) := by
  cases hf : s.registry.store.final? n with
  | some x =>
    refine .inl ⟨x, rfl, ?_⟩
    cases stage with
    | reading | inside => exact Option.some.inj (ho.symm.trans (by simp [beginOccurrence, hf]))
    | waiting => cases ho
  | none =>
    refine .inr ⟨rfl, ?_⟩
    cases stage with
    | reading => simp [beginOccurrence, hf] at ho
    | waiting => cases ho
    | inside => exact Option.some.inj (ho.symm.trans (by simp [beginOccurrence, hf, ht]))

namespace Leads

variable {app : Application v} {s : State v} {g : Goal} {n : String} {stack : Stack v g}
  {c : v.Closure .construct} {next : Except Error v.Inst → Code v (g.Result v.Inst)}

/-- A request for a name that is not final is refused while the flag is up. -/
theorem create_barred (hn : n ≠ "") (hf : s.registry.store.final? n = none)
    (ht : s.registry.tearingDown = true) :
    Leads app (s, .exec (.create n c next) stack) [.created n (.error (.tearingDown n))]
      (s, .exec (next (.error (.tearingDown n))) stack) := by
  refine (create_inside hn hf).trans (single ?_ ?_)
  · simp [Thread.step, beginStep, hf, ht]
  · simp [Thread.occurrence, beginOccurrence, hf, ht]

/-- A name for which nothing is to be found is not resolved while the flag is up. -/
theorem resolve_barred (hn : n ≠ "") (hf : s.registry.store.final? n = none)
    (ht : s.registry.tearingDown = true)
    (hnone : s.registry.marks.isMarked n = false ∨ s.registry.store.isStaged n = false) :
    Leads app (s, .exec ((Code.resolve n c).bind next) stack)
      [.found n none, .created n (.error (.tearingDown n))]
      (s, .exec (next (.error (.tearingDown n))) stack) := by
  have hlookup : Leads app (s, .exec ((Code.resolve n c).bind next) stack) [.found n none]
      (s, .exec (.create n c next) stack) := by
    rw [Code.resolve_bind]
    cases hm : s.registry.marks.isMarked n with
    | false => exact lookup_unmarked hf hm
    | true =>
      obtain ⟨he, hp⟩ := Store.isStaged_eq_false_iff.mp (hnone.resolve_left (by simp [hm]))
      exact lookup_unstaged hf hm he hp
  exact hlookup.trans (create_barred hn hf ht)

end Leads

/-! ### Runs -/

namespace Pool

/-- A request for a final name is answered with its instance; while the flag is up, a request for
another name is refused, unless there is an early reference to resolve it to. -/
theorem run_request_of_tearingDown (app : Application v) {p : Pool v} {i : Nat} {g : Goal}
    {n : String} {c : v.Closure .construct} {next : Except Error v.Inst → Code v (g.Result v.Inst)}
    {stack : Stack v g} {code : Code v (g.Result v.Inst)}
    (hcode : code = .create n c next ∨ code = (Code.resolve n c).bind next)
    (hi : p.threads[i]? = some (.exec code stack)) (hlock : p.lockedByOther i = false)
    (hn : n ≠ "") (ht : p.state.registry.tearingDown = true) :
    (∀ x, p.store.final? n = some x → ∃ k s,
      p.run app (List.replicate k i) = ⟨s, p.threads.set i (.exec (next (.ok x)) stack)⟩ ∧
        s.registry = p.state.registry) ∧
    (p.store.final? n = none → (code = .create n c next ∨
        p.state.registry.marks.isMarked n = false ∨ p.store.isStaged n = false) →
      ∃ k, p.run app (List.replicate k i) =
        ⟨p.state, p.threads.set i (.exec (next (.error (.tearingDown n))) stack)⟩) := by
  refine ⟨fun x hf => ?_, fun hf hnone => ?_⟩
  · rcases hcode with rfl | rfl
    · obtain ⟨k, hrun, -⟩ := run_of_leads app hi hlock (.create_final hn hf)
      exact ⟨k, _, hrun, rfl⟩
    · obtain ⟨k, hrun, -⟩ := run_of_leads app hi hlock (.resolve_final hf)
      exact ⟨k, _, hrun, rfl⟩
  · by_cases hcreate : code = .create n c next
    · subst hcreate
      obtain ⟨k, hrun, -⟩ := run_of_leads app hi hlock (.create_barred hn hf ht)
      exact ⟨k, hrun⟩
    · obtain rfl := hcode.resolve_left hcreate
      obtain ⟨k, hrun, -⟩ :=
        run_of_leads app hi hlock (.resolve_barred hn hf ht (hnone.resolve_left hcreate))
      exact ⟨k, hrun⟩

/-- **No building during a teardown.** Programs are run on a fresh registry, in any order of their
steps. The flag is up exactly if some step has begun a teardown of the whole registry, and no step
since then has ended such a teardown or cleared the registry. While it is up,

* some thread has yet to end a teardown of the whole registry;
* no step begins a construct, and a step that answers a build request answers with the final
  instance or refuses the request on account of the teardown;
* a thread that asks for the final instance of `n`, or resolves `n`, where nobody else holds the
  lock, gets the final instance if there is one, and is refused otherwise, unless there is an early
  reference to resolve `n` to. The registry stays as it is.

While the flag is down, a build request for a name that is not final begins the construct, unless
the name is marked and not excluded. -/
theorem barred_while_flagged (app : Application v) (o : Options) (w : v.World)
    (programs : List (Code v Unit)) (schedule : List Nat) :
    let p := reached app o w programs schedule
    (p.state.registry.tearingDown = true ↔
      ∃ l i, l ++ [i] <+: schedule ∧ (reached app o w programs l).Flags i true ∧
        ∀ l' j, l ++ [i] <+: l' → l' ++ [j] <+: schedule →
          ¬ (reached app o w programs l').Flags j false) ∧
    (p.state.registry.tearingDown = true →
      (∃ t ∈ p.threads, t.WillReset) ∧
      (∀ i t n, p.Takes i t → t.occurrence p.state ≠ some (.constructBegun n)) ∧
      (∀ (i : Nat) (stage : Stage) (n : String) (c : v.Closure .construct) (g : Goal)
        (resume : Except Error v.Inst → Code v (g.Result v.Inst)) (stack : Stack v g)
        (r : Occurrence v), p.Takes i (.begin stage n c resume stack) →
        (Thread.begin stage n c resume stack).occurrence p.state = some r →
        (∃ x, p.store.final? n = some x ∧ r = .created n (.ok x)) ∨
          p.store.final? n = none ∧ r = .created n (.error (.tearingDown n))) ∧
      ∀ (i : Nat) (g : Goal) (n : String) (c : v.Closure .construct)
        (next : Except Error v.Inst → Code v (g.Result v.Inst)) (stack : Stack v g)
        (code : Code v (g.Result v.Inst)),
        code = .create n c next ∨ code = (Code.resolve n c).bind next →
        p.threads[i]? = some (.exec code stack) → p.lockedByOther i = false → n ≠ "" →
        (∀ x, p.store.final? n = some x → ∃ k s,
          p.run app (List.replicate k i) = ⟨s, p.threads.set i (.exec (next (.ok x)) stack)⟩ ∧
            s.registry = p.state.registry) ∧
        (p.store.final? n = none → (code = .create n c next ∨
            p.state.registry.marks.isMarked n = false ∨ p.store.isStaged n = false) →
          ∃ k, p.run app (List.replicate k i) =
            ⟨p.state, p.threads.set i (.exec (next (.error (.tearingDown n))) stack)⟩)) ∧
    (p.state.registry.tearingDown = false →
      ∀ (i : Nat) (g : Goal) (n : String) (c : v.Closure .construct)
        (next : Except Error v.Inst → Code v (g.Result v.Inst)) (stack : Stack v g) (p' : Pool v),
        Decides app p i n c next stack p' → n ≠ "" → p.store.final? n = none →
        ¬ (p.state.registry.marks.isMarked n = true ∧
          p.state.registry.marks.isExcluded n = false) → Begins app p i n c next stack p') := by
  intro p
  refine ⟨tearingDown_run_iff app rfl schedule, fun ht => ⟨?_, ?_, ?_, ?_⟩, fun ht => ?_⟩
  · exact willReset_run app o w programs schedule ht
  · intro i t n _ ho
    obtain ⟨g, c, resume, stack, -, -, hdown⟩ := Thread.begin_of_constructBegun ho
    exact absurd (ht.symm.trans hdown) (by simp)
  · exact fun i stage n c g resume stack r _ ho => eq_created_of_tearingDown ht ho
  · exact fun i g n c next stack code hcode hi hlock hn =>
      run_request_of_tearingDown app hcode hi hlock hn ht
  · intro i g n c next stack p' hd hn hf hmx
    exact (hd.refuses_iff hn hf ht).2 fun hrefuses =>
      hmx ((hd.refuses_iff hn hf ht).1.mp hrefuses)

end Pool

/-! ### A teardown within a teardown -/

namespace Sample

/-- An application whose hook asks for "late"; the hook "reopening" calls for a teardown of the
whole registry before that. -/
def reopening : Application vocabulary where
  body {g} (c : String) :=
    match g with
    | .hook =>
      if c = "reopening" then .destroyAll (.create "late" "late" fun _ => .done (.ok ()))
      else .create "late" "late" fun _ => .done (.ok ())
    | .main => .done ()
    | .construct => .done (.ok (0 : Nat))
    | .producer => .done (0 : Nat)
    | .block => .done (.ok ())

/-- A program that stores the hook for "a" and calls for the teardown of the whole registry. -/
def reopeningMain (hook : String) : Code vocabulary Unit := do
  let _ ← .ask (.storeHook "a" hook)
  .destroyAll (.done ())

/-- A run of that program, after so many steps. -/
def reopeningRun (hook : String) (k : Nat) : Pool vocabulary :=
  .reached reopening .default () [reopeningMain hook] (List.replicate k 0)

/-- A hook that does nothing but to ask for "late" is refused. -/
theorem barred_while_flagged_asking :
    (reopeningRun "asking" 4).state.registry.tearingDown = true ∧
      ∃ k, ((reopeningRun "asking" 4).run reopening (List.replicate k 0)).threads =
        [.exec (g := .hook) (.done (.ok ()))
          (.tearing (g := .main) "a" [.parts "a", .scrub "a", .reset] (.done ()) .top)] := by
  obtain ⟨-, hup, -⟩ :=
    Pool.barred_while_flagged reopening .default () [reopeningMain "asking"] (List.replicate 4 0)
  obtain ⟨-, hrefused⟩ := (hup rfl).2.2.2 0 .hook "late" "late" (fun _ => .done (.ok ()))
    (.tearing (g := .main) "a" [.parts "a", .scrub "a", .reset] (.done ()) .top) _ (.inl rfl)
    rfl rfl (by decide)
  obtain ⟨k, hrun⟩ := hrefused rfl (.inl rfl)
  exact ⟨rfl, k, congrArg Pool.threads hrun⟩

/-- A thread has yet to end a teardown of the whole registry, and its next step begins a
construct. -/
theorem constructBegun_reopening :
    ∃ t, (reopeningRun "reopening" 10).Takes 0 t ∧ t.WillReset ∧
      t.occurrence (reopeningRun "reopening" 10).state = some (.constructBegun "late") := by
  refine ⟨_, ⟨rfl, rfl⟩, .inl ?_, rfl⟩
  exact List.mem_cons_of_mem _ (List.mem_cons_of_mem _ List.mem_cons_self)

end Sample

end Wiring
