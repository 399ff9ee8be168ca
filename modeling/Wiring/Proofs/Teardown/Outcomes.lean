import Mathlib.Data.List.Forall2
import Wiring.Proofs.Lockstep
import Wiring.Proofs.Teardown.Descent
import Wiring.Proofs.Teardown.Verdicts

/-!
# The outcomes of hooks do not matter

Two applications have hooks that ask for the same things, in the same order, but come to different
ends: one returns, the other returns an error or panics. Run from the same state, a teardown does
the same in both. While a hook is run the two runs are in lockstep. At its end they are not, since a
panic takes one step more to leave the hook; but whatever the end, it is reported in one line, the
teardown goes on with the tasks that are left, and the runs are in lockstep again.

## Main definitions

* `Wiring.AnyOutcome` — a hook may come to one end or to another.
* `Wiring.Entry.Agree` — two lines differ in the outcome of a hook only.

## Main results

* `Wiring.Lockstep.advance` — after some steps in each of two runs, they are in lockstep again.
* `Wiring.Teardown.outcomes_irrelevant` — a teardown does the same, whatever ends its hooks come to.
-/

namespace Wiring

variable {v : Vocabulary}

open Teardown

/-- A hook may come to one end or to another. -/
inductive AnyOutcome : Partings v
  | intro (o o' : Except Panic (Except String Unit)) : AnyOutcome .hook o o'

/-- Two lines are the same, or report different ends of the same hook. -/
inductive Entry.Agree : Entry v → Entry v → Prop
  | refl (e : Entry v) : Agree e e
  | verdict (depth : Nat) (n : String) (o o' : Except Panic (Except String Unit)) :
      Agree (.report depth (verdict n o)) (.report depth (verdict n o'))

/-! ### Steps -/

theorem Thread.Alike.task?_eq {D : Partings v} {d : Nat} {t t' : Thread v} (h : t.Alike D d t') :
    t.task? = t'.task? := by
  cases h with
  | walk todo => cases todo <;> rfl
  | exec | seek | begin | unwind | finished => rfl

/-- After some steps of each, two runs are in lockstep. On the way they have been deeper than `d`,
have taken up the same tasks, and have written lines that agree. -/
structure Abreast (app app' : Application v) (d : Nat) (c c' : State v × Thread v) (m m' : Nat) :
    Prop where
  deep : ∀ i < m, d < (run app i c).2.depth
  deep' : ∀ i < m', d < (run app' i c').2.depth
  tasks : tasksTaken app m c = tasksTaken app' m' c'
  lines : List.Forall₂ Entry.Agree (written app m c) (written app' m' c')
  lockstep : Lockstep AnyOutcome d (run app m c) (run app' m' c')

variable {app app' : Application v} {d : Nat} {c c' : State v × Thread v}

namespace Abreast

theorem refl (h : Lockstep AnyOutcome d c c') : Abreast app app' d c c' 0 0 :=
  ⟨nofun, nofun, rfl, .nil, h⟩

theorem deep_add {j k : Nat} (h : ∀ i < j, d < (run app i c).2.depth)
    (h' : ∀ i < k, d < (run app i (run app j c)).2.depth) :
    ∀ i < j + k, d < (run app i c).2.depth := by
  intro i hi
  obtain hlt | hle := Nat.lt_or_ge i j
  · exact h i hlt
  · obtain ⟨m, rfl⟩ := Nat.exists_eq_add_of_le hle
    rw [run_add]
    exact h' m (Nat.lt_of_add_lt_add_left hi)

theorem trans {m m' k k' : Nat} (h : Abreast app app' d c c' m m')
    (h' : Abreast app app' d (run app m c) (run app' m' c') k k') :
    Abreast app app' d c c' (m + k) (m' + k') := by
  refine ⟨deep_add h.deep h'.deep, deep_add h.deep' h'.deep', ?_, ?_, ?_⟩
  · rw [tasksTaken_eq_gathered, tasksTaken_eq_gathered, gathered_add, gathered_add,
      ← tasksTaken_eq_gathered, ← tasksTaken_eq_gathered, ← tasksTaken_eq_gathered,
      ← tasksTaken_eq_gathered, h.tasks, h'.tasks]
  · rw [written, written, gathered_add, gathered_add]
    exact List.rel_append h.lines h'.lines
  · rw [run_add, run_add]
    exact h'.lockstep

end Abreast

/-- Where the code of a hook is at its end, the end is reported and the teardown goes on. -/
theorem Teardown.ending_reported (app : Application v) (s : State v) (n : String)
    (todo : List (Task v)) {g : Goal} (next : Code v (g.Result v.Inst)) {rest : Stack v g}
    (hd : d ≤ rest.depth) (o : Except Panic (Except String Unit)) {c : State v × Thread v}
    (hc : c = (s, .exec (g := .hook) (.ending o) (.tearing n todo next rest))) :
    ∃ m, 0 < m ∧ run app m c = (s.report rest.depth (verdict n o), .walk todo next rest) ∧
      (∀ i < m, d < (run app i c).2.depth) ∧ tasksTaken app m c = [] ∧
      written app m c = [.report rest.depth (verdict n o)] := by
  have hd' : d < rest.depth + 1 := Nat.lt_succ_of_le hd
  subst hc
  obtain p | _ | _ := o
  · refine ⟨2, by decide, rfl, fun i hi => ?_, rfl, rfl⟩
    obtain _ | _ | i := i
    · exact hd'
    · exact hd'
    · omega
  all_goals
    refine ⟨1, by decide, rfl, fun i hi => ?_, rfl, rfl⟩
    obtain rfl : i = 0 := Nat.lt_one_iff.mp hi
    exact hd'

namespace Lockstep

/-- Two runs that are in lockstep are so again after some steps, be it after one step in each. -/
theorem advance (happ : app.Alike AnyOutcome app') (h : Lockstep AnyOutcome d c c')
    (hd : d < c.2.depth) : ∃ m m', 0 < m ∧ Abreast app app' d c c' m m' := by
  obtain hparts | ⟨hwrites, hnext⟩ := h.step happ hd
  · obtain ⟨s, t⟩ := c
    obtain ⟨s', t'⟩ := c'
    obtain ⟨hr, hw, -⟩ := h
    obtain ⟨⟨o, o'⟩, hs⟩ := hparts
    cases hs with
    | base _ hle => exact absurd hle (Nat.not_le.mpr hd)
    | @tearing g n todo next next' rest rest' hrd hnext hrest =>
      have hrd' : d ≤ rest'.depth := hrest.depth_eq ▸ hrd
      obtain ⟨m, hpos, hrun, hdeep, htasks, hlines⟩ :=
        ending_reported app s n todo next hrd o rfl
      obtain ⟨m', -, hrun', hdeep', htasks', hlines'⟩ :=
        ending_reported app' s' n todo next' hrd' o' rfl
      refine ⟨m, m', hpos, hdeep, hdeep', htasks.trans htasks'.symm, ?_, ?_⟩
      · rw [hlines, hlines', hrest.depth_eq]
        exact .cons (.verdict ..) .nil
      · rw [hrun, hrun']
        exact ⟨hr, hw, .walk todo hnext hrest⟩
  · obtain ⟨s, t⟩ := c
    obtain ⟨s', t'⟩ := c'
    refine ⟨1, 1, Nat.one_pos, fun i hi => ?_, fun i hi => ?_, ?_, ?_, ?_⟩
    · obtain rfl : i = 0 := Nat.lt_one_iff.mp hi
      exact hd
    · obtain rfl : i = 0 := Nat.lt_one_iff.mp hi
      exact h.thread.depth_eq ▸ hd
    · rw [tasksTaken, tasksTaken, h.thread.task?_eq]
      rfl
    · simp only [written, gathered, hwrites]
      exact List.forall₂_same.mpr fun e _ => .refl e
    · rw [run_succ, run_succ]
      exact hnext

/-- When one of two runs that are in lockstep gets back to where it was, so does the other. -/
theorem abreast (happ : app.Alike AnyOutcome app') {k : Nat} (h : Lockstep AnyOutcome d c c')
    (hdeep : ∀ i < k, d < (Wiring.run app i c).2.depth)
    (hback : (Wiring.run app k c).2.depth ≤ d) : ∃ k', Abreast app app' d c c' k k' := by
  induction k using Nat.strongRecOn generalizing c c' with
  | ind k ih =>
    obtain rfl | hpos := Nat.eq_zero_or_pos k
    · exact ⟨0, .refl h⟩
    · obtain ⟨m, m', hm, hfirst⟩ := h.advance happ (hdeep 0 hpos)
      obtain hlt | hle := Nat.lt_or_ge k m
      · exact absurd (hfirst.deep k hlt) (Nat.not_lt.mpr hback)
      · obtain ⟨j, rfl⟩ := Nat.exists_eq_add_of_le hle
        rw [run_add] at hback
        obtain ⟨k', hrest⟩ := ih j (Nat.lt_add_of_pos_left hm) hfirst.lockstep
          (fun i hi => by rw [← run_add]; exact hdeep (m + i) (Nat.add_lt_add_left hi m)) hback
        exact ⟨m' + k', hfirst.trans hrest⟩

end Lockstep

namespace Teardown

/-- A thread that is about to call for a teardown. -/
def asked (c : Teardown) {g : Goal} (next : Code v (g.Result v.Inst)) (stack : Stack v g) :
    Thread v :=
  .exec (c.calling next) stack

/-- Of two teardowns with hooks that differ in their outcomes, the one ends if the other does, and
has done the same. -/
theorem ends_alike (happ : app.Alike AnyOutcome app') {s : State v} {c : Teardown} {g : Goal}
    {next : Code v (g.Result v.Inst)} {stack : Stack v g} {k : Nat}
    (hend : EndsAfter app (s, c.asked next stack) k) :
    ∃ k', EndsAfter app' (s, c.asked next stack) k' ∧
      (run app k (s, c.asked next stack)).1.registry =
        (run app' k' (s, c.asked next stack)).1.registry ∧
      (run app k (s, c.asked next stack)).1.world =
        (run app' k' (s, c.asked next stack)).1.world ∧
      tasksTaken app k (s, c.asked next stack) = tasksTaken app' k' (s, c.asked next stack) ∧
      List.Forall₂ Entry.Agree (written app k (s, c.asked next stack))
        (written app' k' (s, c.asked next stack)) := by
  obtain ⟨s₁, -, hstep⟩ := c.step_calling s next stack
  have hbegun (app : Application v) (j : Nat) : run app (j + 1) (s, c.asked next stack) =
      run app j (s₁, .walk (c.tasks s.registry) next stack) := by
    rw [run_succ, asked, hstep]
  obtain ⟨k, rfl⟩ := Nat.exists_eq_add_one_of_ne_zero (Nat.pos_iff_ne_zero.mp hend.pos)
  obtain ⟨hback, hdeep⟩ := endsAfter_succ_iff.mp hend
  rw [asked, hstep] at hback hdeep
  -- the first step is taken in both, and leaves them in lockstep
  have hstart : Lockstep AnyOutcome stack.depth
      (s₁, .walk (c.tasks s.registry) next stack) (s₁, .walk (c.tasks s.registry) next stack) :=
    ⟨rfl, rfl, .walk _ (.refl _) (.base _ (Nat.le_refl _))⟩
  obtain ⟨k', habreast⟩ := hstart.abreast happ hdeep hback
  refine ⟨k' + 1, endsAfter_succ_iff.mpr ?_, ?_, ?_, ?_, ?_⟩
  · rw [asked, hstep]
    exact ⟨habreast.lockstep.thread.depth_eq ▸ hback, habreast.deep'⟩
  · rw [hbegun, hbegun, habreast.lockstep.registry]
  · rw [hbegun, hbegun, habreast.lockstep.world]
  · rw [tasksTaken, tasksTaken, asked, hstep, hstep, habreast.tasks]
  · rw [written, written, gathered, gathered, asked, hstep, hstep]
    exact List.rel_append (List.forall₂_same.mpr fun e _ => .refl e) habreast.lines

/-- **Outcomes of hooks.** Two applications differ in the ends of their hooks only: where a hook of
the one returns, fails or panics, that of the other returns, fails or panics in its own way, after
the same requests. In whatever state, and inside whatever other requests, a single thread calls for
the same teardown in both.

* The teardown ends in both or in neither. It does end if the code that the registry holds can be
  ranked, so that it stores code of lower ranks only; hooks that store themselves again may keep a
  teardown going for ever, whatever their outcomes.
* When it has ended, the code that called for it goes on in both. The same tasks have been taken up
  and the same hooks have been begun, in the same order, and the registry and the memory of the
  application are the same.
* The lines that have been written agree, except for what they say about the outcomes of hooks. In
  each run, every hook that was begun has come to one end, each end is reported once, and the
  warnings are of the failures, with their reasons. -/
theorem outcomes_irrelevant (happ : app.Alike AnyOutcome app') (s : State v) (c : Teardown)
    {g : Goal} (next : Code v (g.Result v.Inst)) (stack : Stack v g) :
    ((∃ k, EndsAfter app (s, c.asked next stack) k) ↔
      ∃ k, EndsAfter app' (s, c.asked next stack) k) ∧
    ((∃ rank, app.Ranked rank s.registry) → ∃ k, EndsAfter app (s, c.asked next stack) k) ∧
    ∀ k k', EndsAfter app (s, c.asked next stack) k →
      EndsAfter app' (s, c.asked next stack) k' →
      ∃ s₁ s₁', run app k (s, c.asked next stack) = (s₁, .exec next stack) ∧
        run app' k' (s, c.asked next stack) = (s₁', .exec next stack) ∧
        s₁.registry = s₁'.registry ∧ s₁.world = s₁'.world ∧
        tasksTaken app k (s, c.asked next stack) = tasksTaken app' k' (s, c.asked next stack) ∧
        hooksRun app k (s, c.asked next stack) = hooksRun app' k' (s, c.asked next stack) ∧
        List.Forall₂ Entry.Agree (written app k (s, c.asked next stack))
          (written app' k' (s, c.asked next stack)) ∧
        Accounted app k (s, c.asked next stack) ∧ Accounted app' k' (s, c.asked next stack) := by
  have happ' : app'.Alike AnyOutcome app := fun g c =>
    (happ g c).symm fun o o' h => by
      obtain ⟨o, o'⟩ := h
      exact .intro o' o
  refine ⟨⟨fun ⟨k, hend⟩ => ?_, fun ⟨k, hend⟩ => ?_⟩, fun ⟨_, h⟩ => ends_of_ranked h c next stack,
    ?_⟩
  · obtain ⟨k', hend', -⟩ := ends_alike happ hend
    exact ⟨k', hend'⟩
  · obtain ⟨k', hend', -⟩ := ends_alike happ' hend
    exact ⟨k', hend'⟩
  · intro k k' hend hend'
    obtain ⟨j, hj, hregistry, hworld, htasks, hlines⟩ := ends_alike happ hend
    obtain rfl : j = k' := hj.eq hend'
    obtain ⟨s₁, hrun⟩ := returns_of_endsAfter hend
    obtain ⟨s₁', hrun'⟩ := returns_of_endsAfter hend'
    have hhooks := congrArg (List.filterMap Task.hook?) htasks
    refine ⟨s₁, s₁', hrun, hrun', ?_, ?_, htasks, hhooks, hlines, accounted_of_endsAfter hend,
      accounted_of_endsAfter hend'⟩
    · rw [asked, hrun, hrun'] at hregistry
      exact hregistry
    · rw [asked, hrun, hrun'] at hworld
      exact hworld

end Teardown

/-! ### One hook inside another -/

namespace Sample

/-- An application with two hooks. That of "outer" stores a hook, destroys "inner" and comes to the
end `o`; the other one comes to the end `o'`. -/
def encasing (o o' : Except Panic (Except String Unit)) : Application vocabulary where
  body {g} (c : String) :=
    match g with
    | .hook =>
      if c = "outer" then do
        let _ ← .ask (.storeHook "outer" "inner")
        .destroy "inner" (.ending o)
      else .ending o'
    | .main => .done ()
    | .construct => .done (.ok (0 : Nat))
    | .producer => .done (0 : Nat)
    | .block => .done (.ok ())

/-- A hook that stores the other one is above it. -/
def encasingRank (_ : Goal) (c : String) : ℕ := if c = "outer" then 1 else 0

theorem ranked_encasing (o o' : Except Panic (Except String Unit)) (r : vocabulary.Registry) :
    (encasing o o').Ranked encasingRank r := by
  have hending (x : Except Panic (Goal.hook.Result vocabulary.Inst)) (m : ℕ) :
      (Code.ending x).Ranked (g := .hook) (encasing o o') encasingRank m := by
    cases x with
    | error p => exact .panic p
    | ok a => exact .done a
  have hinner : ((encasing o o').body (g := .hook) "inner").Ranked (encasing o o') encasingRank
      (encasingRank .hook "inner") := hending o' _
  have houter : ((encasing o o').body (g := .hook) "outer").Ranked (encasing o o') encasingRank
      (encasingRank .hook "outer") := by
    refine .call (fun n k h => ?_) (fun n k h => ?_) (fun n p h => ?_) (fun n p h => ?_)
      fun _ => .destroy _ (hending o _)
    · cases h
      decide
    · cases h
      exact hinner
    · cases h
    · cases h
  have hbody (c : String) :
      ((encasing o o').body (g := .hook) c).Ranked (encasing o o') encasingRank
        (encasingRank .hook c) := by
    by_cases hc : c = "outer"
    · subst hc
      exact houter
    · have hplain : (encasing o o').body (g := .hook) c = .ending o' := if_neg hc
      exact hplain ▸ hending o' _
  exact ⟨fun n k _ => hbody k, fun n p _ => .done _⟩

/-- The two hooks are stored, and everything is about to be torn down. -/
def encasingStart : State vocabulary × Thread vocabulary :=
  ((run idle 2 (start (do
    let _ ← .ask (.storeHook "inner" "inner")
    let _ ← .ask (.storeHook "outer" "outer")))).1, Teardown.all.asked (.done ()) .top)

/-- The hook of "outer" panics, that of "inner" fails. -/
def unruly : Application vocabulary := encasing (.error (.text "gave up")) (.ok (.error "refused"))

/-- Both hooks return. -/
def orderly : Application vocabulary := encasing (.ok (.ok ())) (.ok (.ok ()))

theorem alike_encasing : unruly.Alike AnyOutcome orderly := by
  intro g c
  cases g with
  | hook =>
    unfold unruly orderly encasing
    dsimp only
    split
    · exact .call _ fun _ => .destroy _ (.parting (.intro ..))
    · exact .parting (.intro ..)
  | main | construct | producer | block => exact .refl _

/-- The hook of "outer" is run first, and that of "inner" inside it. The two failures are warned of,
the inner one first, and the teardown goes on to its end as if there had been none. The hook of
"outer" stores a hook anew each time, but "inner" does not store any, so that a teardown ends in
whatever state it is called for. -/
theorem outcomes_irrelevant_encasing :
    ∃ s s', run unruly 20 encasingStart = (s, .exec (g := .main) (.done ()) .top) ∧
      run orderly 19 encasingStart = (s', .exec (g := .main) (.done ()) .top) ∧
      s.registry = s'.registry ∧
      (∀ s : State vocabulary, ∃ k, EndsAfter unruly (s, encasingStart.2) k) ∧
      hooksRun unruly 20 encasingStart = [("outer", "outer"), ("inner", "inner")] ∧
      (written unruly 20 encasingStart).filterMap Entry.warning? =
        [.hookFailed "inner" "refused", .hookFailed "outer" "gave up"] := by
  have hdeep : ∀ j < 20, 0 < j → 0 < (run unruly j encasingStart).2.depth := by decide
  have hdeep' : ∀ j < 19, 0 < j → 0 < (run orderly j encasingStart).2.depth := by decide
  obtain ⟨-, -, hsame⟩ :=
    Teardown.outcomes_irrelevant alike_encasing encasingStart.1 .all (g := .main) (.done ()) .top
  obtain ⟨s, s', hrun, hrun', hregistry, -, -, -, -, haccounted, -⟩ := hsame 20 19
    ⟨by decide, by decide, fun j hpos hj => hdeep j hj hpos⟩
    ⟨by decide, by decide, fun j hpos hj => hdeep' j hj hpos⟩
  refine ⟨s, s', hrun, hrun', hregistry, fun s => ?_, rfl, haccounted.warnings.trans rfl⟩
  obtain ⟨-, hends, -⟩ :=
    Teardown.outcomes_irrelevant alike_encasing s .all (g := .main) (.done ()) .top
  exact hends ⟨encasingRank, ranked_encasing ..⟩

end Sample

end Wiring
