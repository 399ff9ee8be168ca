import Wiring.Proofs.Builds.Change
import Wiring.Proofs.Records.Edges
import Wiring.Proofs.Tiers.Exclusive

/-!
# What a step does to the records

Records are made by requests and withdrawn by teardowns, or when the registry is cleared. A step of
a thread gives at most one command to the records, and which one can be told from the thread before
the step. So the records of a registry are views of two lists of edges at every point of every run.

## Main definitions

* `Wiring.Request.command?`, `Wiring.Thread.command?` — the command that a request or a step gives.

## Main results

* `Wiring.Thread.links_step` — a step does to the records what its command says.
* `Wiring.Pool.shows_reached` — the records are views of edges at every point of a run.
-/

namespace Wiring

variable {v : Vocabulary}

/-! ### The command of a step -/

/-- The records after a command, or after none. -/
def Links.after (g : Links) (c : Option Links.Command) : Links :=
  c.elim g fun c => (g.obey c).2

/-- The command that a request gives to the records. A record that a component without a name has a
part in is refused. -/
def Request.command? : Request v → Option Links.Command
  | .depend a b => if a = "" ∨ b = "" then none else some (.depend a b)
  | .contain a b => if a = "" ∨ b = "" then none else some (.contain a b)
  | .clearAll => some .clear
  | .register .. | .publish .. | .get _ | .remove _ | .names | .count | .isFinal _
  | .isInCreation _ | .isMarked _ | .setExcluded .. | .suppress _ | .isDependent ..
  | .hasDependents _ | .dependents _ | .dependencies _ | .parts _ | .storeHook .. | .hasHook _
  | .isTearingDown | .options | .summary | .survey _ => none

/-- The command that a task gives to the records. -/
def Task.command? : Task v → Option Links.Command
  | .destroy n => some (.takeDependents n)
  | .parts n => some (.takeParts n)
  | .scrub n => some (.scrub n)
  | .reset => some .clear
  | .hook .. => none

/-- The command that the next step of a thread gives to the records. -/
def Thread.command? : Thread v → Option Links.Command
  | .exec (.call q _) _ => q.command?
  | .walk (task :: _) .. => task.command?
  | .exec .. | .seek .. | .begin .. | .walk [] .. | .unwind .. | .finished _ => none

/-! ### A step does to the records what its command says -/

theorem checkName_eq_error {n : String} (h : n = "") : checkName n = .error .emptyName := if_pos h

theorem checkName_eq_ok {n : String} (h : n ≠ "") : checkName n = .ok () := if_neg h

namespace Registry

variable {ι φ η : Type}

theorem depend_of_ne {a b : String} (r : Registry ι φ η) (ha : a ≠ "") (hb : b ≠ "") :
    (r.depend a b).reply = .ok () ∧
      (r.depend a b).registry = { r with links := (r.links.depend a b).2 } := by
  simp only [depend, checkName_eq_ok ha, checkName_eq_ok hb, and_self]

theorem depend_of_eq {a b : String} (r : Registry ι φ η) (h : a = "" ∨ b = "") :
    (r.depend a b).registry = r := by
  by_cases ha : a = ""
  · simp only [depend, checkName_eq_error ha]
  · simp only [depend, checkName_eq_ok ha, checkName_eq_error (h.resolve_left ha)]

theorem contain_of_ne {inner outer : String} (r : Registry ι φ η) (hi : inner ≠ "")
    (ho : outer ≠ "") :
    (r.contain inner outer).reply = .ok () ∧
      (r.contain inner outer).registry = { r with links := (r.links.contain inner outer).2 } := by
  simp only [contain, checkName_eq_ok hi, checkName_eq_ok ho, and_self]

theorem contain_of_eq {inner outer : String} (r : Registry ι φ η) (h : inner = "" ∨ outer = "") :
    (r.contain inner outer).registry = r := by
  by_cases hi : inner = ""
  · simp only [contain, checkName_eq_error hi]
  · simp only [contain, checkName_eq_ok hi, checkName_eq_error (h.resolve_left hi)]

end Registry

/-- A request that runs no code does to the records what its command says. -/
theorem Request.links_answer (r : v.Registry) (q : Request v) :
    (q.answer r).registry.links = r.links.after q.command? := by
  cases q with
  | register n i =>
    obtain ⟨store, h⟩ := r.registry_register n i
    rw [answer, h]
    rfl
  | publish n p =>
    obtain ⟨store, h⟩ := r.registry_publish n p
    rw [answer, h]
    rfl
  | depend a b =>
    rw [answer, command?]
    split
    · next h => rw [r.depend_of_eq h]; rfl
    · next h => rw [(r.depend_of_ne (not_or.mp h).1 (not_or.mp h).2).2]; rfl
  | contain a b =>
    rw [answer, command?]
    split
    · next h => rw [r.contain_of_eq h]; rfl
    · next h => rw [(r.contain_of_ne (not_or.mp h).1 (not_or.mp h).2).2]; rfl
  | _ => rfl

namespace Thread

theorem links_leave (s : State v) {g : Goal} (stack : Stack v g) (a : g.Result v.Inst) :
    (stack.leave s a).1.registry.links = s.registry.links := by
  cases stack with
  | building n outermost resume rest =>
    obtain ⟨store, h⟩ := s.registry.registry_settle n outermost a
    rw [Stack.leave, State.registry_after, h]
    rfl
  | tearing n todo next rest => cases a <;> rfl
  | _ => rfl

theorem links_seekStep (app : Application v) (s : State v) {g : Goal} (n : String) (early : Bool)
    (resume : Option v.Inst → Code v (g.Result v.Inst)) (stack : Stack v g) (stage : Stage) :
    (seekStep app s n early resume stack stage).1.registry.links = s.registry.links := by
  cases stage with
  | reading =>
    simp only [seekStep]
    split <;> rfl
  | waiting => rfl
  | inside =>
    simp only [seekStep]
    split
    · rfl
    · split <;> split <;> rfl

theorem links_beginStep (app : Application v) (s : State v) {g : Goal} (n : String)
    (c : v.Closure .construct) (resume : Except Error v.Inst → Code v (g.Result v.Inst))
    (stack : Stack v g) (stage : Stage) :
    (beginStep app s n c resume stack stage).1.registry.links = s.registry.links := by
  cases stage with
  | reading =>
    simp only [beginStep]
    split <;> rfl
  | waiting => rfl
  | inside =>
    simp only [beginStep]
    split
    · rfl
    · split
      · rfl
      · split
        · rfl
        · next r hr =>
          obtain ⟨m, -, rfl⟩ := Registry.openBuild_eq_ok hr
          rfl

/-- A step does to the records what its command says. -/
theorem links_step (app : Application v) (s : State v) (t : Thread v) :
    (t.step app s).1.registry.links = s.registry.links.after t.command? := by
  cases t with
  | exec code stack =>
    cases code with
    | done a => exact links_leave s stack a
    | call q next =>
      rw [step, execStep, State.registry_after]
      exact q.links_answer s.registry
    | lookup n early next =>
      simp only [step, execStep]
      split <;> rfl
    | create n c next =>
      simp only [step, execStep]
      split <;> rfl
    | _ => rfl
  | seek stage n early resume stack => exact links_seekStep app s n early resume stack stage
  | begin stage n c resume stack => exact links_beginStep app s n c resume stack stage
  | walk todo next stack =>
    cases todo with
    | nil => rfl
    | cons task todo =>
      cases task with
      | destroy n =>
        simp only [step, walkStep]
        split <;> rfl
      | _ => rfl
  | unwind p stack => cases stack <;> rfl
  | finished outcome => rfl

end Thread

/-! ### Runs -/

theorem Links.Shows.after {g : Links} {e : Edges} (h : g.Shows e) (c : Option Links.Command) :
    (g.after c).Shows (c.elim e e.obey) := by
  cases c with
  | none => exact h
  | some c => exact h.obey c

namespace Pool

variable (app : Application v) (o : Options) (w : v.World) (programs : List (Code v Unit))

/-- The records of a registry are views of edges at every point of a run. -/
theorem shows_reached (schedule : List Nat) :
    ∃ e, (reached app o w programs schedule).state.registry.links.Shows e := by
  refine run_induction (P := fun p => ∃ e, p.state.registry.links.Shows e) ?_ ⟨.empty, .empty⟩
    schedule
  rintro p i t - ⟨e, he⟩
  rw [t.links_step app p.state]
  exact ⟨_, he.after t.command?⟩

end Pool

end Wiring
