import Wiring.Proofs.Teardown.Returning
import Wiring.Proofs.Teardown.Running
import Wiring.Proofs.Transcript

/-!
# What is reported about hooks

When a hook has come to its end, one line is written that names its component: that the hook was
invoked, or else a warning that it has failed and why. Nothing but the end of a hook is reported in
this way, and by the time a teardown is over, each hook that was begun on its way has come to one
end.

## Main definitions

* `Wiring.Entry.verdict?`, `Wiring.Entry.warning?` — what a line reports about the end of a hook,
  and what it warns of.
* `Wiring.Teardown.hookEnds` — the ends that hooks come to in a run.
* `Wiring.Teardown.Accounted` — what a run writes accounts for its hooks.

## Main results

* `Wiring.Thread.verdict?_writes` — a step reports the end of a hook, or it writes no such line.
* `Wiring.Teardown.accounted_of_endsAfter` — a teardown that is over has accounted for its hooks.
-/

namespace Wiring

variable {v : Vocabulary}

/-! ### Lines that are about the end of a hook -/

/-- Whether an event is about the end of a hook. -/
def Log.Event.isVerdict : Log.Event → Bool
  | .hookRan _ | .hookFailed .. => true
  | .opened _ | .registering .. | .earlyForbidden _ | .earlyUnexpected _ | .earlyPublished ..
  | .producing _ | .earlyReturned _ | .cachedReturned _ | .creating _ | .created .. | .superseded _
  | .dependencyRecorded .. | .hookStored _ | .destroying _ | .dependentsFirst .. | .clearing _ =>
    false

namespace Entry

/-- What a line reports about the end of a hook. -/
def verdict? (e : Entry v) : Option Log.Event :=
  match e.item with
  | .event ev => if ev.isVerdict then some ev else none
  | .note _ => none

/-- What a line warns of. -/
def warning? (e : Entry v) : Option Log.Event :=
  match e.item with
  | .event ev => if ev.level = .warn then some ev else none
  | .note _ => none

/-- A line warns of nothing but the failure of a hook. -/
theorem warning?_eq (e : Entry v) :
    e.warning? = e.verdict?.bind fun ev => if ev.level = .warn then some ev else none := by
  obtain ⟨depth, ev | x⟩ := e
  · cases ev <;> rfl
  · rfl

end Entry

/-- No request that is answered at once reports the end of a hook. -/
theorem Request.isVerdict_answer (r : v.Registry) (q : Request v) {e : Log.Event}
    (h : (q.answer r).event = some e) : e.isVerdict = false := by
  cases q with
  | register n i =>
    simp only [answer, Registry.register] at h
    split at h
    · cases h
    · split at h <;> cases h
      rfl
  | publish n p =>
    simp only [answer, Registry.publish] at h
    split at h
    · cases h
      rfl
    · split at h <;> cases h <;> rfl
  | depend a b =>
    simp only [answer, Registry.depend] at h
    split at h
    · cases h
    · cases h
    · split at h <;> cases h
      rfl
  | contain a b =>
    simp only [answer, Registry.contain] at h
    split at h <;> cases h
  | storeHook | clearAll =>
    cases h
    rfl
  | _ => cases h

/-- The end of a build is not that of a hook. -/
theorem Registry.isVerdict_settle (r : v.Registry) (n : String) (outermost : Bool)
    (x : Except Error v.Inst) {e : Log.Event} (h : (r.settle n outermost x).event = some e) :
    e.isVerdict = false := by
  simp only [settle] at h
  split at h
  · cases h
  · cases h
  · cases h
    rfl
  · simp only [install] at h
    split at h <;> cases h <;> rfl

open Teardown

/-- Reports of other events are not about the end of a hook. -/
theorem Entry.verdict?_report {o : Option Log.Event} (h : ∀ e, o = some e → e.isVerdict = false)
    (depth : Nat) : (o.map (.report depth)).bind (verdict? (v := v)) = none := by
  cases o with
  | none => rfl
  | some e => simp [verdict?, report, h e rfl]

namespace Thread

/-- A step reports the end of a hook that it finds at its end, and of no other. -/
theorem verdict?_writes (s : State v) (t : Thread v) :
    (t.writes s).bind Entry.verdict? = t.hookEnd.map fun e => verdict e.1 e.2 := by
  cases t with
  | exec code stack =>
    cases code with
    | done a =>
      cases stack with
      | building n outermost resume rest =>
        exact Entry.verdict?_report (fun e => Registry.isVerdict_settle _ n outermost a) _
      | tearing n todo next rest => cases a <;> rfl
      | _ => rfl
    | call q next => exact Entry.verdict?_report (fun e => q.isVerdict_answer s.registry) _
    | _ => rfl
  | seek stage n early resume stack =>
    cases stage with
    | reading | waiting => rfl
    | inside =>
      simp only [writes, seekWrites]
      cases s.registry.store.final? n with
      | some i => rfl
      | none =>
        cases early && s.registry.options.circular with
        | false => cases s.registry.store.early? n <;> rfl
        | true => cases s.registry.store.seek n <;> rfl
  | begin stage n c resume stack =>
    cases stage with
    | reading =>
      simp only [writes, beginWrites]
      cases s.registry.store.final? n <;> rfl
    | waiting => rfl
    | inside =>
      simp only [writes, beginWrites]
      cases s.registry.store.final? n with
      | some i => rfl
      | none => cases s.registry.tearingDown <;> rfl
  | walk todo next stack =>
    cases todo with
    | nil => rfl
    | cons task todo =>
      cases task with
      | destroy n =>
        simp only [writes, walkWrites]
        split <;> rfl
      | _ => rfl
  | unwind p stack => cases stack <;> rfl
  | finished outcome => rfl

end Thread

/-! ### Runs -/

theorem tasksTaken_eq_gathered (app : Application v) (k : Nat) (c : State v × Thread v) :
    tasksTaken app k c = gathered (fun c => c.2.task?) app k c := by
  induction k generalizing c with
  | zero => rfl
  | succ k ih => rw [tasksTaken, ih, gathered]

namespace Teardown

/-- The ends that hooks come to in the first `k` steps of a single thread, in order. -/
def hookEnds (app : Application v) (k : Nat) (c : State v × Thread v) :
    List (String × Except Panic (Except String Unit)) :=
  gathered (fun c => c.2.hookEnd) app k c

/-- What the first `k` steps write accounts for the hooks: each has come to one end, each end is
reported once, and the warnings are of the failures, with their reasons. -/
structure Accounted (app : Application v) (k : Nat) (c : State v × Thread v) : Prop where
  transcript : (run app k c).1.transcript = (written app k c).reverse ++ c.1.transcript
  ended : ((hookEnds app k c).map Prod.fst).Perm ((hooksRun app k c).map Prod.fst)
  verdicts : (written app k c).filterMap Entry.verdict? =
    (hookEnds app k c).map fun e => verdict e.1 e.2
  warnings : (written app k c).filterMap Entry.warning? =
    (hookEnds app k c).filterMap fun e => (failure? e.2).map (.hookFailed e.1)

/-- In every run, the ends of hooks are reported, in order. -/
theorem verdicts_written (app : Application v) (k : Nat) (c : State v × Thread v) :
    (written app k c).filterMap Entry.verdict? =
      (hookEnds app k c).map fun e => verdict e.1 e.2 := by
  rw [← List.filterMap_eq_map, hookEnds, written, filterMap_gathered, filterMap_gathered]
  refine congrArg (gathered · app k c) (funext fun c => ?_)
  rw [Thread.verdict?_writes, Option.map_eq_bind]

/-- In every run, the failures of hooks are warned of, in order. -/
theorem warnings_written (app : Application v) (k : Nat) (c : State v × Thread v) :
    (written app k c).filterMap Entry.warning? =
      (hookEnds app k c).filterMap fun e => (failure? e.2).map (.hookFailed e.1) := by
  have hwarning := funext (Entry.warning?_eq (v := v))
  rw [hwarning, ← List.filterMap_filterMap, verdicts_written, List.filterMap_map]
  refine congrArg (List.filterMap · _) (funext fun e => ?_)
  obtain ⟨n, _ | _ | _⟩ := e <;> rfl

theorem hooksRun_eq_gathered (app : Application v) (k : Nat) (c : State v × Thread v) :
    hooksRun app k c = gathered (fun c => c.2.task?.bind Task.hook?) app k c := by
  rw [hooksRun, tasksTaken_eq_gathered, filterMap_gathered]

/-- The hooks that have come to an end in a run, and those that the thread is still in, are those
that it was in, and those that it has begun. -/
theorem running_run (app : Application v) (k : Nat) (c : State v × Thread v) :
    ((hookEnds app k c).map Prod.fst ++ (run app k c).2.running).Perm
      ((hooksRun app k c).map Prod.fst ++ c.2.running) := by
  rw [hooksRun_eq_gathered, hookEnds]
  induction k generalizing c with
  | zero => exact .refl _
  | succ k ih =>
    obtain ⟨s, t⟩ := c
    have hstep := t.running_step app s
    rw [run_succ, gathered, gathered, List.map_append, List.map_append, ← Option.toList_map,
      ← Option.toList_map, List.append_assoc, List.append_assoc]
    refine ((ih (t.step app s)).append_left _).trans ?_
    refine List.perm_append_comm_assoc .. |>.trans ?_
    rw [hstep]
    exact List.perm_append_comm_assoc ..

/-- When a teardown is over, what was written accounts for its hooks. -/
theorem accounted_of_endsAfter {app : Application v} {s : State v} {c : Teardown} {g : Goal}
    {next : Code v (g.Result v.Inst)} {stack : Stack v g} {k : Nat}
    (hend : EndsAfter app (s, .exec (c.calling next) stack) k) :
    Accounted app k (s, .exec (c.calling next) stack) := by
  refine ⟨transcript_run .., ?_, verdicts_written .., warnings_written ..⟩
  obtain ⟨s', hreturn⟩ := returns_of_endsAfter hend
  have hrunning := running_run app k (s, .exec (c.calling next) stack)
  rw [hreturn] at hrunning
  exact (List.perm_append_right_iff _).mp hrunning

end Teardown

end Wiring
