import Wiring.Proofs.Alteration
import Wiring.Proofs.Teardown.Agenda

/-!
# A teardown of the whole registry comes to its end

The registry remembers by a flag that a teardown of all of it is under way. The thread that began it
keeps the task of ending it, whatever the hooks do on the way, panics included: a panic in a hook is
reported as a failure of the hook, and the teardown goes on.

## Main definitions

* `Wiring.Thread.WillReset` — the thread has yet to end a teardown of the whole registry.
* `Wiring.Thread.flag?` — what the next step of a thread does to the flag.

## Main results

* `Wiring.Thread.tearingDown_step` — a step does to the flag what it says.
* `Wiring.Thread.keepsReset_step` — what a step does to teardowns.
* `Wiring.Pool.willReset_run` — while a teardown is under way, some thread has yet to end it.
-/

namespace Wiring

variable {v : Vocabulary}

/-- The end of a teardown of the whole registry is among the tasks that wait on the stack. -/
def Stack.WillReset : {g : Goal} → Stack v g → Prop
  | _, .top => False
  | _, .tearing _ todo _ rest => Task.reset ∈ todo ∨ rest.WillReset
  | _, .building _ _ _ rest | _, .producing _ _ rest | _, .holding _ rest | _, .guarding _ rest =>
    rest.WillReset

/-- The thread has yet to end a teardown of the whole registry. -/
def Thread.WillReset : Thread v → Prop
  | .walk todo _ stack => Task.reset ∈ todo ∨ stack.WillReset
  | .exec _ stack | .seek _ _ _ _ stack | .begin _ _ _ _ stack | .unwind _ stack => stack.WillReset
  | .finished _ => False

/-! ### The flag -/

/-- Whether the next step of a thread puts the flag of a teardown up or takes it down. -/
def Thread.flag? : Thread v → Option Bool
  | .exec (.destroyAll _) _ => some true
  | .exec (.call .clearAll _) _ | .walk (.reset :: _) .. => some false
  | .exec .. | .seek .. | .begin .. | .walk .. | .unwind .. | .finished _ => none

theorem Request.tearingDown_answer {g : Goal} (r : v.Registry) (q : Request v)
    (next : q.Reply → Code v (g.Result v.Inst)) (stack : Stack v g) :
    (q.answer r).registry.tearingDown =
      (Thread.exec (.call q next) stack).flag?.getD r.tearingDown := by
  have halters := q.alters_answer r
  generalize (q.answer r).registry = r' at halters ⊢
  cases halters with
  | storeHook n h => rfl
  | clearAll => rfl
  | other _ hclear hsame =>
    rw [hsame.tearingDown]
    cases q with
    | clearAll => exact absurd rfl hclear
    | _ => rfl

namespace Thread

theorem flag?_of_plain {t : Thread v} (ht : t.Plain) : t.flag? = none := by
  cases t with
  | exec code stack =>
    cases code with
    | call | destroyAll => exact ht.elim
    | _ => rfl
  | walk todo next stack =>
    cases todo with
    | nil => rfl
    | cons task todo => exact ht.elim
  | _ => rfl

/-- A step does to the flag what it says. -/
theorem tearingDown_step (app : Application v) (s : State v) (t : Thread v) :
    (t.step app s).1.registry.tearingDown = t.flag?.getD s.registry.tearingDown := by
  have halters := t.alters_step app s
  generalize (t.step app s).1.registry = r at halters ⊢
  cases halters with
  | call q next stack => exact q.tearingDown_answer s.registry next stack
  | destroyAll next stack => rfl
  | task task todo next stack => cases task <;> rfl
  | plain ht hsame => rw [flag?_of_plain ht, hsame.tearingDown, Option.getD_none]

end Thread

/-! ### The end of a teardown stays on the agenda -/

/-- The end of a teardown of the whole registry is among the tasks that are left. -/
def Level.Resets : Level v → Prop
  | .teardown todo _ => Task.reset ∈ todo
  | .other => False

theorem Stack.willReset_iff {g : Goal} {stack : Stack v g} :
    stack.WillReset ↔ ∃ level ∈ stack.agenda, level.Resets := by
  induction stack with
  | top => simp [WillReset, agenda]
  | _ => simp [WillReset, agenda, Level.Resets, *]

namespace Thread

theorem willReset_iff {t : Thread v} : t.WillReset ↔ ∃ level ∈ t.agenda, level.Resets := by
  cases t <;> simp [WillReset, agenda, Level.Resets, Stack.willReset_iff]

/-- The end of a teardown that waits still does after a step, unless the step takes it up. -/
theorem resets_of_moves {r : v.Registry} {t : Thread v} {l : List (Level v)} (hl : t.Moves r l)
    (hflag : t.flag? ≠ some false) (h : ∃ level ∈ t.agenda, level.Resets) :
    ∃ level ∈ l, level.Resets := by
  obtain ⟨level, hmem, hresets⟩ := h
  cases hl with
  | keep _ hl => exact ⟨level, hl ▸ hmem, hresets⟩
  | enter => exact ⟨level, List.mem_cons_of_mem _ hmem, hresets⟩
  | leave _ hl =>
    obtain rfl | hbelow := List.mem_cons.mp (hl ▸ hmem)
    · exact hresets.elim
    · exact ⟨level, hbelow, hresets⟩
  | close next stack =>
    obtain rfl | hbelow := List.mem_cons.mp hmem
    · cases hresets
    · exact ⟨level, hbelow, hresets⟩
  | take task todo next stack =>
    obtain rfl | hbelow := List.mem_cons.mp hmem
    · have hne : task ≠ .reset := by
        rintro rfl
        exact hflag rfl
      have htodo : Task.reset ∈ todo := (List.mem_cons.mp hresets).resolve_left hne.symm
      exact ⟨_, List.mem_cons_self, List.mem_append_right _ htodo⟩
    · exact ⟨level, List.mem_cons_of_mem _ hbelow, hresets⟩

/-- A thread that puts the flag up has yet to end the teardown that it begins. -/
theorem willReset_of_flag (app : Application v) (s : State v) {t : Thread v}
    (h : t.flag? = some true) : (t.step app s).2.WillReset := by
  cases t with
  | exec code stack =>
    cases code with
    | destroyAll next => exact .inl (List.mem_append_right _ List.mem_cons_self)
    | call q next => cases q <;> cases h
    | _ => cases h
  | walk todo next stack =>
    cases todo with
    | nil => cases h
    | cons task todo => cases task <;> cases h
  | _ => cases h

/-- What a step does to teardowns: one is under way afterwards only if it was before, and then a
thread that had yet to end it still has; or the thread has yet to end it now. -/
def KeepsReset (s : State v) (t : Thread v) (c : State v × Thread v) : Prop :=
  c.1.registry.tearingDown = true →
    s.registry.tearingDown = true ∧ (t.WillReset → c.2.WillReset) ∨ c.2.WillReset

/-- While a teardown is under way, a thread that had yet to end it still has after its step, and a
thread that begins one has yet to end it. -/
theorem keepsReset_step (app : Application v) (s : State v) (t : Thread v) :
    KeepsReset s t (t.step app s) := by
  intro hdown
  rw [tearingDown_step] at hdown
  cases hflag : t.flag? with
  | none =>
    rw [hflag, Option.getD_none] at hdown
    refine .inl ⟨hdown, fun h => willReset_iff.mpr ?_⟩
    exact resets_of_moves (t.moves_step app s) (by simp [hflag]) (willReset_iff.mp h)
  | some up =>
    obtain rfl : up = true := by simpa [hflag] using hdown
    exact .inr (willReset_of_flag app s hflag)

end Thread

/-! ### Runs -/

/-- While a teardown is under way in a pool, one of its threads has yet to end it. -/
theorem Pool.willReset_run (app : Application v) (o : Options) (w : v.World)
    (programs : List (Code v Unit)) (schedule : List Nat)
    (h : ((start (.start o w) programs).run app schedule).state.registry.tearingDown = true) :
    ∃ t ∈ ((start (.start o w) programs).run app schedule).threads, t.WillReset := by
  refine run_induction (P := fun p => p.state.registry.tearingDown = true →
    ∃ t ∈ p.threads, t.WillReset) ?_ (fun h => absurd h Bool.false_ne_true) schedule h
  intro p i t ht hp hstep
  have hlt : i < p.threads.length := (List.getElem?_eq_some_iff.mp ht.1).1
  have hself {u : Thread v} : u ∈ p.threads.set i u := List.mem_set hlt u
  obtain ⟨hbefore, hkeep⟩ | hnew := t.keepsReset_step app p.state hstep
  · obtain ⟨u, hu, hreset⟩ := hp hbefore
    obtain ⟨j, hj⟩ := List.mem_iff_getElem?.mp hu
    by_cases hij : i = j
    · -- it is the thread that has just taken its step
      subst hij
      obtain rfl : t = u := Option.some.inj (ht.1.symm.trans hj)
      exact ⟨_, hself, hkeep hreset⟩
    · exact ⟨u, List.mem_iff_getElem?.mpr ⟨j, by rw [List.getElem?_set_ne hij, hj]⟩, hreset⟩
  · exact ⟨_, hself, hnew⟩

end Wiring
