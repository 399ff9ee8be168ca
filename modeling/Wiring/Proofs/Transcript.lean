import Wiring.Proofs.Occurrence

/-!
# What a step writes

A step writes at most one line into the transcript, and which one can be told from the state and the
thread before the step. A line that belongs to a request is written where the request was made, so
what a hook or a construct writes itself stands one level deeper than what is reported about it.

## Main definitions

* `Wiring.Thread.writes` — the line that the next step of a thread writes.
* `Wiring.gathered`, `Wiring.written` — what the first steps of a run show, and write.

## Main results

* `Wiring.Thread.transcript_step` — a step writes this line and no other.
* `Wiring.transcript_run` — the same over runs of a single thread.
-/

namespace Wiring

variable {v : Vocabulary}

/-- A line that reports an event. -/
def Entry.report (depth : Nat) (e : Log.Event) : Entry v := ⟨depth, .event e⟩

/-! ### The line that a step writes -/

/-- What is written when a value is returned to the innermost waiting request. -/
def Stack.writes (s : State v) : {g : Goal} → Stack v g → g.Result v.Inst → Option (Entry v)
  | _, .building n outermost _ rest, r =>
    (s.registry.settle n outermost r).event.map (.report rest.depth)
  | _, .producing n _ rest, _ => some (.report rest.depth (.earlyReturned n))
  | _, .tearing n _ _ rest, r =>
    match r with
    | .ok () => some (.report rest.depth (.hookRan n))
    | .error reason => some (.report rest.depth (.hookFailed n reason))
  | _, .top, _ | _, .holding .., _ | _, .guarding .., _ => none

/-- What a panic writes that takes the innermost frame off. -/
def Stack.unwindWrites (p : Panic) : {g : Goal} → Stack v g → Option (Entry v)
  | _, .tearing n _ _ rest => some (.report rest.depth (.hookFailed n p.reason))
  | _, .top | _, .building .. | _, .producing .. | _, .holding .. | _, .guarding .. => none

/-- What a step of a lookup writes. -/
def seekWrites (s : State v) (n : String) (early : Bool) (depth : Nat) : Stage → Option (Entry v)
  | .reading | .waiting => none
  | .inside =>
    match s.registry.store.final? n with
    | some _ => none
    | none =>
      if early && s.registry.options.circular then
        match s.registry.store.seek n with
        | .nothing => none
        | .early _ => some (.report depth (.earlyReturned n))
        | .pending .. => some (.report depth (.producing n))
      else (s.registry.store.early? n).map fun _ => .report depth (.earlyReturned n)

/-- What a step of a build request writes. -/
def beginWrites (s : State v) (n : String) (depth : Nat) : Stage → Option (Entry v)
  | .reading => (s.registry.store.final? n).map fun _ => .report depth (.cachedReturned n)
  | .waiting => none
  | .inside =>
    match s.registry.store.final? n with
    | some _ => none
    | none =>
      if s.registry.tearingDown then none else some (.report depth (.creating n))

/-- What a step of a teardown writes. -/
def walkWrites (s : State v) (depth : Nat) : List (Task v) → Option (Entry v)
  | .destroy n :: _ =>
    if s.registry.links.dependentsOf n = [] then none
    else some (.report depth (.dependentsFirst n (s.registry.links.dependentsOf n)))
  | [] | .hook .. :: _ | .parts _ :: _ | .scrub _ :: _ | .reset :: _ => none

/-- What a step of code writes. -/
def execWrites (s : State v) {g : Goal} (stack : Stack v g) :
    Code v (g.Result v.Inst) → Option (Entry v)
  | .done a => stack.writes s a
  | .note x _ => some ⟨stack.depth, .note x⟩
  | .call q _ => (q.answer s.registry).event.map (.report stack.depth)
  | .destroyAll _ => some (.report stack.depth (.destroying s.registry.hooks.size))
  | .panic _ | .access .. | .lookup .. | .create .. | .destroy .. | .hold .. | .guard .. => none

/-- What the next step of a thread writes. -/
def Thread.writes (s : State v) : Thread v → Option (Entry v)
  | .exec code stack => execWrites s stack code
  | .seek stage n early _ stack => seekWrites s n early stack.depth stage
  | .begin stage n _ _ stack => beginWrites s n stack.depth stage
  | .walk todo _ stack => walkWrites s stack.depth todo
  | .unwind p stack => stack.unwindWrites p
  | .finished _ => none

/-! ### A step writes this line -/

theorem State.transcript_after {ρ : Type} (s : State v) (depth : Nat)
    (a : Answer ρ v.Inst (v.Closure .producer) (v.Closure .hook)) :
    (s.after depth a).transcript = (a.event.map (.report depth)).toList ++ s.transcript := by
  unfold after
  split
  · next e he => simp [he, report, write, withRegistry, Entry.report]
  · next he => simp [he, withRegistry]

theorem Stack.transcript_leave (s : State v) {g : Goal} (stack : Stack v g) (a : g.Result v.Inst) :
    (stack.leave s a).1.transcript = (stack.writes s a).toList ++ s.transcript := by
  cases stack with
  | building n outermost resume rest => exact s.transcript_after ..
  | tearing n todo next rest => cases a <;> rfl
  | _ => rfl

theorem transcript_seekStep (app : Application v) (s : State v) {g : Goal} (n : String)
    (early : Bool) (resume : Option v.Inst → Code v (g.Result v.Inst)) (stack : Stack v g)
    (stage : Stage) :
    (seekStep app s n early resume stack stage).1.transcript =
      (seekWrites s n early stack.depth stage).toList ++ s.transcript := by
  cases stage with
  | reading =>
    simp only [seekStep]
    split <;> rfl
  | waiting => rfl
  | inside =>
    simp only [seekStep, seekWrites]
    cases s.registry.store.final? n with
    | some i => rfl
    | none =>
      cases early && s.registry.options.circular with
      | false => cases s.registry.store.early? n <;> rfl
      | true => cases s.registry.store.seek n <;> rfl

theorem transcript_beginStep (app : Application v) (s : State v) {g : Goal} (n : String)
    (c : v.Closure .construct) (resume : Except Error v.Inst → Code v (g.Result v.Inst))
    (stack : Stack v g) (stage : Stage) :
    (beginStep app s n c resume stack stage).1.transcript =
      (beginWrites s n stack.depth stage).toList ++ s.transcript := by
  cases stage with
  | reading =>
    simp only [beginStep, beginWrites]
    cases s.registry.store.final? n <;> rfl
  | waiting => rfl
  | inside =>
    simp only [beginStep, beginWrites]
    cases s.registry.store.final? n with
    | some i => rfl
    | none =>
      cases s.registry.tearingDown with
      | true => rfl
      | false => cases s.registry.openBuild n <;> rfl

theorem transcript_walkStep (app : Application v) (s : State v) {g : Goal}
    (next : Code v (g.Result v.Inst)) (stack : Stack v g) (todo : List (Task v)) :
    (walkStep app s next stack todo).1.transcript =
      (walkWrites s stack.depth todo).toList ++ s.transcript := by
  cases todo with
  | nil => rfl
  | cons task todo =>
    cases task with
    | destroy n =>
      simp only [walkStep, walkWrites]
      split <;> rfl
    | _ => rfl

/-- A step writes the line that it says, and no other. -/
theorem Thread.transcript_step (app : Application v) (s : State v) (t : Thread v) :
    (t.step app s).1.transcript = (t.writes s).toList ++ s.transcript := by
  cases t with
  | exec code stack =>
    cases code with
    | done a => exact stack.transcript_leave s a
    | call q next => exact s.transcript_after ..
    | lookup n early next =>
      simp only [step, execStep]
      split <;> rfl
    | create n c next =>
      simp only [step, execStep]
      split <;> rfl
    | _ => rfl
  | seek stage n early resume stack => exact transcript_seekStep app s n early resume stack stage
  | begin stage n c resume stack => exact transcript_beginStep app s n c resume stack stage
  | walk todo next stack => exact transcript_walkStep app s next stack todo
  | unwind p stack => cases stack <;> rfl
  | finished outcome => rfl

/-! ### Runs of a single thread -/

/-- What can be told from the places before the first `k` steps of a single thread, the earliest
first. -/
def gathered {α : Type} (f : State v × Thread v → Option α) (app : Application v) :
    Nat → State v × Thread v → List α
  | 0, _ => []
  | k + 1, (s, t) => (f (s, t)).toList ++ gathered f app k (t.step app s)

theorem gathered_add {α : Type} (f : State v × Thread v → Option α) (app : Application v)
    (j k : Nat) (c : State v × Thread v) :
    gathered f app (j + k) c = gathered f app j c ++ gathered f app k (run app j c) := by
  induction j generalizing c with
  | zero => rw [Nat.zero_add]; rfl
  | succ j ih =>
    obtain ⟨s, t⟩ := c
    rw [Nat.add_right_comm, gathered, ih, gathered, run_succ, List.append_assoc]

theorem filterMap_gathered {α β : Type} (f : State v × Thread v → Option α) (g : α → Option β)
    (app : Application v) (k : Nat) (c : State v × Thread v) :
    (gathered f app k c).filterMap g = gathered (fun c => (f c).bind g) app k c := by
  induction k generalizing c with
  | zero => rfl
  | succ k ih =>
    obtain ⟨s, t⟩ := c
    have hfirst : (f (s, t)).toList.filterMap g = ((f (s, t)).bind g).toList := by
      cases f (s, t) with
      | none => rfl
      | some a => cases h : g a <;> simp [h]
    rw [gathered, List.filterMap_append, hfirst, ih, gathered]

/-- The lines that the first `k` steps of a single thread write, the earliest first. -/
def written (app : Application v) (k : Nat) (c : State v × Thread v) : List (Entry v) :=
  gathered (fun c => c.2.writes c.1) app k c

/-- Nothing else gets into the transcript, and nothing gets lost. -/
theorem transcript_run (app : Application v) (k : Nat) (c : State v × Thread v) :
    (run app k c).1.transcript = (written app k c).reverse ++ c.1.transcript := by
  unfold written
  induction k generalizing c with
  | zero => rfl
  | succ k ih =>
    obtain ⟨s, t⟩ := c
    have hline : (t.writes s).toList.reverse = (t.writes s).toList := by cases t.writes s <;> rfl
    rw [run_succ, ih, Thread.transcript_step, gathered, List.reverse_append, hline,
      List.append_assoc]

end Wiring
