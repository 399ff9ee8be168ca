import Wiring.Proofs.Occurrence

/-!
# What a step does to the frames

The requests that wait for code to return are frames of the stack. A step adds one on top, keeps
them, or lets go of the top one; and it lets go of a frame only when the code on top of it returns
or a panic leaves it. So a frame that waits stays until its own code is done.

## Main definitions

* `Wiring.Frame`, `Wiring.Thread.frames` — the requests that wait on a stack.
* `Wiring.Thread.Reframes` — what a step may do to them.

## Main results

* `Wiring.Thread.reframes_step` — a step does one of these things.
* `Wiring.Thread.frame_stays_or` — a frame stays until its own code is done.
* `Wiring.Thread.holdsLock_of_building` — a thread with a frame of a build holds the lock.
-/

namespace Wiring

variable {v : Vocabulary}

/-- What a frame of a stack waits for. -/
inductive Frame where
  | building (n : String)
  | producing (n : String)
  | tearing (n : String)
  | holding
  | guarding
deriving DecidableEq

/-- The frames of a stack, innermost first. -/
def Stack.frames : {g : Goal} → Stack v g → List Frame
  | _, .top => []
  | _, .building n _ _ rest => .building n :: rest.frames
  | _, .producing n _ rest => .producing n :: rest.frames
  | _, .tearing n _ _ rest => .tearing n :: rest.frames
  | _, .holding _ rest => .holding :: rest.frames
  | _, .guarding _ rest => .guarding :: rest.frames

/-- The frames below the code or the request that a thread is in the middle of. -/
def Thread.frames : Thread v → List Frame
  | .exec _ stack | .seek _ _ _ _ stack | .begin _ _ _ _ stack | .walk _ _ stack
  | .unwind _ stack => stack.frames
  | .finished _ => []

namespace Thread

/-- What a step may do to the frames. -/
inductive Reframes : Thread v → List Frame → Prop
  | keep {t : Thread v} {l : List Frame} (hl : l = t.frames) : Reframes t l
  | push (t : Thread v) (f : Frame) : Reframes t (f :: t.frames)
  | returned {g : Goal} {stack : Stack v g} {f : Frame} {l : List Frame} (a : g.Result v.Inst)
      (hl : stack.frames = f :: l) : Reframes (.exec (.done a) stack) l
  | panicked {g : Goal} {stack : Stack v g} {f : Frame} {l : List Frame} (p : Panic)
      (hl : stack.frames = f :: l) : Reframes (.unwind p stack) l

theorem reframes_leave (s : State v) {g : Goal} (stack : Stack v g) (a : g.Result v.Inst) :
    (Thread.exec (.done a) stack).Reframes (stack.leave s a).2.frames := by
  cases stack with
  | top => exact .keep rfl
  | tearing n todo next rest => cases a <;> exact .returned _ rfl
  | _ => exact .returned a rfl

theorem reframes_unwind (s : State v) (p : Panic) {g : Goal} (stack : Stack v g) :
    (Thread.unwind p stack).Reframes (stack.unwind s p).2.frames := by
  cases stack with
  | top => exact .keep rfl
  | _ => exact .panicked p rfl

theorem reframes_seekStep (app : Application v) (s : State v) {g : Goal} (n : String) (early : Bool)
    (resume : Option v.Inst → Code v (g.Result v.Inst)) (stack : Stack v g) (stage : Stage) :
    (Thread.seek stage n early resume stack).Reframes
      (seekStep app s n early resume stack stage).2.frames := by
  cases stage with
  | reading =>
    simp only [seekStep]
    split <;> exact .keep rfl
  | waiting => exact .keep rfl
  | inside =>
    simp only [seekStep]
    split
    · exact .keep rfl
    · split <;> split
      · exact .keep rfl
      · exact .keep rfl
      · exact .push _ (.producing n)
      · exact .keep rfl
      · exact .keep rfl

theorem reframes_beginStep (app : Application v) (s : State v) {g : Goal} (n : String)
    (c : v.Closure .construct) (resume : Except Error v.Inst → Code v (g.Result v.Inst))
    (stack : Stack v g) (stage : Stage) :
    (Thread.begin stage n c resume stack).Reframes
      (beginStep app s n c resume stack stage).2.frames := by
  cases stage with
  | reading =>
    simp only [beginStep]
    split <;> exact .keep rfl
  | waiting => exact .keep rfl
  | inside =>
    simp only [beginStep]
    split
    · exact .keep rfl
    · split
      · exact .keep rfl
      · split
        · exact .keep rfl
        · exact .push _ (.building n)

/-- A step keeps the frames, adds one, or lets go of one whose code has returned or panicked. -/
theorem reframes_step (app : Application v) (s : State v) (t : Thread v) :
    t.Reframes (t.step app s).2.frames := by
  cases t with
  | exec code stack =>
    cases code with
    | done a => exact reframes_leave s stack a
    | lookup n early next =>
      simp only [step, execStep]
      split <;> exact .keep rfl
    | create n c next =>
      simp only [step, execStep]
      split <;> exact .keep rfl
    | hold b next => exact .push _ .holding
    | guard b next => exact .push _ .guarding
    | _ => exact .keep rfl
  | seek stage n early resume stack => exact reframes_seekStep app s n early resume stack stage
  | begin stage n c resume stack => exact reframes_beginStep app s n c resume stack stage
  | walk todo next stack =>
    cases todo with
    | nil => exact .keep rfl
    | cons task todo =>
      cases task with
      | hook n h => exact .push _ (.tearing n)
      | _ => exact .keep rfl
  | unwind p stack => exact reframes_unwind s p stack
  | finished outcome => exact .keep rfl

/-- A frame stays unless the code on top of it has returned or panicked. -/
theorem frame_stays_or (app : Application v) {s : State v} {t : Thread v} {f : Frame}
    (hf : f ∈ t.frames) :
    f ∈ (t.step app s).2.frames ∨
      ∃ (g : Goal) (stack : Stack v g) (l : List Frame), stack.frames = f :: l ∧
        ((∃ a, t = .exec (.done a) stack) ∨ ∃ p, t = .unwind p stack) := by
  have hreframes := t.reframes_step app s
  generalize (t.step app s).2.frames = l at hreframes ⊢
  cases hreframes with
  | keep hl => exact .inl (hl ▸ hf)
  | push _ f' => exact .inl (List.mem_cons_of_mem _ hf)
  | returned a hl =>
    rw [frames, hl] at hf
    refine (List.mem_cons.mp hf).symm.imp_right ?_
    rintro rfl
    exact ⟨_, _, l, hl, .inl ⟨a, rfl⟩⟩
  | panicked p hl =>
    rw [frames, hl] at hf
    refine (List.mem_cons.mp hf).symm.imp_right ?_
    rintro rfl
    exact ⟨_, _, l, hl, .inr ⟨p, rfl⟩⟩

end Thread

/-! ### Frames of builds -/

theorem Stack.holdsLock_of_building {g : Goal} {stack : Stack v g} {n : String}
    (h : .building n ∈ stack.frames) : stack.holdsLock = true := by
  induction stack with
  | top => cases h
  | building | producing | holding => rfl
  | tearing m todo next rest ih => exact ih ((List.mem_cons.mp h).resolve_left nofun)
  | guarding resume rest ih => exact ih ((List.mem_cons.mp h).resolve_left nofun)

theorem Thread.holdsLock_of_building {t : Thread v} {n : String} (h : .building n ∈ t.frames) :
    t.holdsLock = true := by
  cases t with
  | finished outcome => cases h
  | seek | begin => simp [holdsLock, Stack.holdsLock_of_building h]
  | exec | walk | unwind => exact Stack.holdsLock_of_building h

end Wiring
