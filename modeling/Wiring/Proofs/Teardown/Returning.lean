import Wiring.Proofs.Teardown.Course

/-!
# Teardowns return

However its hooks come to their ends, a teardown that is over has returned to the code that called
for it: an error of a hook, or a panic, is reported and does not get there. For as long as the
teardown is under way, the thread is deeper than its caller, and it is under way until no task is
left.

## Main definitions

* `Wiring.UnderWay` — on an agenda, a teardown is not over.
* `Wiring.Teardown.failure?`, `Wiring.Teardown.verdict` — what is reported about a hook at its end.

## Main results

* `Wiring.Teardown.returns_of_endsAfter` — a teardown returns to its caller.
* `Wiring.Teardown.step_concluded` — after the end of a hook, the teardown goes on.
-/

namespace Wiring

variable {v : Vocabulary}

/-! ### The caller of a teardown -/

/-- On an agenda, a teardown that was called for by `caller` is not over. -/
def UnderWay (caller : Caller v) (l : List (Level v)) : Prop :=
  ∃ above todo, l = above ++ .teardown todo caller :: caller.stack.agenda

namespace UnderWay

variable {caller : Caller v} {l : List (Level v)}

theorem cons (h : UnderWay caller l) (level : Level v) : UnderWay caller (level :: l) := by
  obtain ⟨above, todo, rfl⟩ := h
  exact ⟨level :: above, todo, rfl⟩

/-- While a teardown is not over, the thread is deeper than the caller was. -/
theorem lt_length (h : UnderWay caller l) : caller.stack.depth < l.length := by
  obtain ⟨above, todo, rfl⟩ := h
  simp only [List.length_append, List.length_cons, Stack.length_agenda]
  omega

/-- The teardown is further down, or the innermost one. -/
theorem cons_iff {level : Level v} :
    UnderWay caller (level :: l) ↔
      UnderWay caller l ∨ l = caller.stack.agenda ∧ ∃ todo, level = .teardown todo caller := by
  constructor
  · rintro ⟨above, todo, h⟩
    cases above with
    | nil =>
      obtain ⟨rfl, rfl⟩ := List.cons.inj h
      exact .inr ⟨rfl, todo, rfl⟩
    | cons level' above =>
      obtain ⟨-, rfl⟩ := List.cons.inj h
      exact .inl ⟨above, todo, rfl⟩
  · rintro (h | ⟨rfl, todo, rfl⟩)
    · exact h.cons level
    · exact ⟨[], todo, rfl⟩

/-- A teardown stays under way until it has no task left. -/
theorem step {r : v.Registry} {t : Thread v} (h : UnderWay caller t.agenda) (hl : t.Moves r l) :
    UnderWay caller l ∨ t = .walk [] caller.next caller.stack := by
  cases hl with
  | keep _ hl => exact .inl (hl ▸ h)
  | enter level => exact .inl (h.cons level)
  | leave _ hl =>
    rw [hl, cons_iff] at h
    exact .inl (h.resolve_right nofun)
  | close next stack =>
    obtain h | ⟨-, todo, h⟩ := cons_iff.mp h
    · exact .inl h
    · obtain ⟨-, rfl⟩ := Level.teardown.inj h
      exact .inr rfl
  | take task todo next stack =>
    obtain h | ⟨hbelow, todo', h⟩ := cons_iff.mp h
    · exact .inl (h.cons _)
    · obtain ⟨-, rfl⟩ := Level.teardown.inj h
      exact .inl ⟨[], task.subtasks r ++ todo, rfl⟩

/-- Over a run, a teardown stays under way until it has no task left. -/
theorem run (app : Application v) {c : State v × Thread v} (h : UnderWay caller c.2.agenda)
    (k : Nat) :
    UnderWay caller (Wiring.run app k c).2.agenda ∨
      ∃ j < k, (Wiring.run app j c).2 = .walk [] caller.next caller.stack := by
  induction k with
  | zero => exact .inl h
  | succ k ih =>
    obtain hstill | ⟨j, hj, hover⟩ := ih
    · rw [run_succ_last]
      obtain hnext | hover := hstill.step (Thread.moves_step app _ _)
      · exact .inl hnext
      · exact .inr ⟨k, Nat.lt_succ_self k, hover⟩
    · exact .inr ⟨j, Nat.lt_succ_of_lt hj, hover⟩

end UnderWay

namespace Teardown

/-- The first step of a teardown, in any application. -/
theorem step_calling (s : State v) (c : Teardown) {g : Goal} (next : Code v (g.Result v.Inst))
    (stack : Stack v g) :
    ∃ s', s'.registry = c.opened s.registry ∧
      ∀ app, (Thread.exec (c.calling next) stack).step app s =
        (s', .walk (c.tasks s.registry) next stack) := by
  cases c <;> exact ⟨_, rfl, fun _ => rfl⟩

/-- When a teardown is over, the code that called for it goes on. -/
theorem returns_of_endsAfter {app : Application v} {s : State v} {c : Teardown} {g : Goal}
    {next : Code v (g.Result v.Inst)} {stack : Stack v g} {k : Nat}
    (hend : EndsAfter app (s, .exec (c.calling next) stack) k) :
    ∃ s', run app k (s, .exec (c.calling next) stack) = (s', .exec next stack) := by
  obtain ⟨k, rfl⟩ := Nat.exists_eq_add_one_of_ne_zero (Nat.pos_iff_ne_zero.mp hend.pos)
  obtain ⟨s₁, -, hstep⟩ := c.step_calling s next stack
  have hbegun : UnderWay ⟨next, stack⟩ (s₁, Thread.walk (c.tasks s.registry) next stack).2.agenda :=
    ⟨[], _, rfl⟩
  have hrun (j : Nat) : run app (j + 1) (s, .exec (c.calling next) stack) =
      run app j (s₁, .walk (c.tasks s.registry) next stack) := by rw [run_succ, hstep]
  obtain hstill | ⟨j, hj, hover⟩ := hbegun.run app k
  · have hlt := hstill.lt_length
    rw [Thread.length_agenda, ← hrun] at hlt
    exact absurd hend.back (Nat.not_le.mpr hlt)
  · have hreturn : run app (j + 2) (s, .exec (c.calling next) stack) =
        ((run app (j + 1) (s, .exec (c.calling next) stack)).1, .exec next stack) := by
      rw [run_succ_last, hrun, hover]
      rfl
    obtain hlt | heq := Nat.lt_or_eq_of_le (Nat.succ_le_succ hj)
    · -- the thread would be back too early
      have hinside := hend.inside (j + 2) (Nat.succ_pos _) hlt
      rw [hreturn] at hinside
      exact absurd hinside (Nat.lt_irrefl _)
    · rw [← show j + 2 = k + 1 from heq]
      exact ⟨_, hreturn⟩

end Teardown

/-! ### The end of a hook -/

namespace Teardown

/-- The reason why a hook has failed that comes to an end: the text of its error, or what its panic
carries. -/
def failure? : Except Panic (Except String Unit) → Option String
  | .ok (.ok ()) => none
  | .ok (.error reason) => some reason
  | .error p => some p.reason

/-- What is reported about the hook of `n` when it has come to an end. -/
def verdict (n : String) (o : Except Panic (Except String Unit)) : Log.Event :=
  match failure? o with
  | none => .hookRan n
  | some reason => .hookFailed n reason

/-- Whatever end a hook comes to, it is reported, and the teardown goes on with the tasks that are
left. -/
theorem step_concluded (app : Application v) (s : State v) (n : String) (todo : List (Task v))
    {g : Goal} (next : Code v (g.Result v.Inst)) (rest : Stack v g)
    (o : Except Panic (Except String Unit)) :
    ((Stack.tearing n todo next rest).concluded o).step app s =
      (s.report rest.depth (verdict n o), .walk todo next rest) := by
  obtain _ | _ | _ := o <;> rfl

end Teardown

end Wiring
