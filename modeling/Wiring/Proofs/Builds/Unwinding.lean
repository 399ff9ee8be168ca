import Wiring.Proofs.Builds.CleanUp
import Wiring.Proofs.Builds.Rollback
import Wiring.Proofs.Lockstep
import Wiring.Proofs.Teardown.Course

/-!
# Failing and unwinding

Builds inside one another make a tower. If the innermost construct fails and every other one passes
the error on, the builds end one by one, each by the answer to a request. If the innermost construct
panics instead, the builds end one by one, too, each by being abandoned. These are two ways out, but
both leave the same behind: at every level the same is discarded, the same mark goes, and the
outermost build drops the same errors that were set aside. That the end of a build may itself be an
error, because its name is no longer tracked as it was, changes the answer only.

## Main definitions

* `Wiring.FailsOrPanics` — a construct returns an error where another one panics.
* `Wiring.Code.Returns`, `Wiring.Call.Tower` — builds that pass errors on.

## Main results

* `Wiring.Call.Tower.exits` — both ways out of a tower.
* `Wiring.Call.failed_eq_panicked` — two runs that part at the top of a tower.
-/

namespace Wiring

variable {v : Vocabulary}

/-- A construct returns an error, which does not say that somebody was first, where another one
panics. -/
inductive FailsOrPanics : Partings v
  | intro {e : Error} (he : ∀ m, e.isRace m = false) (p : Panic) :
      FailsOrPanics .construct (.ok (.error e)) (.error p)

/-! ### Towers of builds -/

/-- Code that returns an error at once. -/
inductive Code.Returns (e : Error) : {g : Goal} → Code v (g.Result v.Inst) → Prop
  | construct : Returns e (g := .construct) (.done (.error e))
  | block : Returns e (g := .block) (.done (.error e))

/-- A construct that has failed has its build abandoned, as one that panics, and the request is
answered with an error. -/
theorem Thread.step_of_failed (app : Application v) (s : State v) {g : Goal} (n : String)
    (outermost : Bool) (resume : Except Error v.Inst → Code v (g.Result v.Inst)) (rest : Stack v g)
    {e : Error} (he : ∀ m, e.isRace m = false) :
    ∃ e', (∀ m, e'.isRace m = false) ∧
      (Thread.exec (g := .construct) (.done (.error e)) (.building n outermost resume rest)).step
        app s =
        (s.withRegistry (s.registry.abandon n outermost), .exec (resume (.error e')) rest) := by
  have hrace : e.isRace n = true → s.registry.store.final? n = none := by simp [he]
  obtain ⟨e', hsettle, he'⟩ := Registry.settle_of_failed outermost hrace
  refine ⟨e', ?_, by simp only [step, execStep, Stack.leave, hsettle]; rfl⟩
  obtain rfl | he' := he'
  · exact he
  · exact he'

namespace Call

/-- A stack on which builds wait, the outermost being that of the request `a`. Whoever waits for
the answer to one of the other requests passes an error on at once. Between the builds, the lock may
be held by blocks; nothing else waits there. -/
inductive Tower (a : Call v) : {g : Goal} → Stack v g → Prop
  | base (outermost : Bool) : Tower a (.building a.name outermost a.resume a.rest)
  | building {g : Goal} (n : String) (outermost : Bool)
      {resume : Except Error v.Inst → Code v (g.Result v.Inst)} {rest : Stack v g}
      (h : ∀ e, (resume (.error e)).Returns e) (hrest : Tower a rest) :
      Tower a (.building n outermost resume rest)
  | holding {g : Goal} {resume : Except Error Unit → Code v (g.Result v.Inst)} {rest : Stack v g}
      (h : ∀ e, (resume (.error e)).Returns e) (hrest : Tower a rest) :
      Tower a (.holding resume rest)

variable {a : Call v}

theorem Tower.lt_depth {g : Goal} {stack : Stack v g} (h : a.Tower stack) :
    a.rest.depth < stack.depth := by
  induction h with
  | base => exact Nat.lt_succ_self _
  | building _ _ _ _ ih | holding _ _ ih => exact Nat.lt_succ_of_lt ih

/-- An error that is returned at the top of a tower and a panic at the top of the same tower both
get to its bottom, and leave the same registry there. -/
theorem Tower.exits {D : Partings v} (app app' : Application v) {g : Goal}
    {stack stack' : Stack v g} (h : a.Tower stack) (halike : stack.Alike D a.rest.depth stack')
    {e : Error} (he : ∀ m, e.isRace m = false) {code : Code v (g.Result v.Inst)}
    (hc : code.Returns e) (p : Panic) (s : State v) :
    ∃ r e', Works app a.rest.depth (s, .exec code stack) []
        (s.withRegistry r, .exec (a.resume (.error e')) a.rest) ∧
      Works app' a.rest.depth (s, .unwind p stack') [] (s.withRegistry r, .unwind p a.rest) := by
  have hdepth := h.lt_depth
  have hdepth' : a.rest.depth < stack'.depth := halike.depth_eq ▸ hdepth
  induction h generalizing s e with
  | base outermost =>
    cases halike with
    | base _ hle => exact absurd hle (Nat.not_le.mpr hdepth)
    | building _ _ _ _ hrest =>
      obtain rfl := hrest.eq_of_depth_le (Nat.le_refl _)
      cases hc with
      | construct =>
        obtain ⟨e', -, hstep⟩ :=
          Thread.step_of_failed app s a.name outermost a.resume a.rest he
        refine ⟨_, e', .head ?_ hdepth, .head (.refl _) hdepth'⟩
        rw [hstep]
        exact .refl _
  | @building g n outermost resume rest hpass hrest ih =>
    cases halike with
    | base _ hle => exact absurd hle (Nat.not_le.mpr hdepth)
    | building _ _ _ _ halike =>
      cases hc with
      | construct =>
        obtain ⟨e', he', hstep⟩ := Thread.step_of_failed app s n outermost resume rest he
        obtain ⟨r, e'', hfailed, hpanicked⟩ := ih halike he' (hpass e')
          (s.withRegistry (s.registry.abandon n outermost)) hrest.lt_depth
          (halike.depth_eq ▸ hrest.lt_depth)
        refine ⟨r, e'', .head ?_ hdepth, .head hpanicked hdepth'⟩
        rw [hstep]
        exact hfailed
  | holding hpass hrest ih =>
    cases halike with
    | base _ hle => exact absurd hle (Nat.not_le.mpr hdepth)
    | holding _ _ halike =>
      cases hc with
      | block =>
        obtain ⟨r, e', hfailed, hpanicked⟩ :=
          ih halike he (hpass e) s hrest.lt_depth (halike.depth_eq ▸ hrest.lt_depth)
        exact ⟨r, e', .head hfailed hdepth, .head hpanicked hdepth'⟩

/-- The first step of a request that is not over with it is the same in all applications. -/
theorem step_asked {app : Application v} {s : State v}
    (h : a.rest.depth < (a.asked.step app s).2.depth) (app' : Application v) :
    a.asked.step app' s = (s, .begin .reading a.name a.construct a.resume a.rest) := by
  by_cases hn : a.name = ""
  · have hstep : a.asked.step app s = (s, .exec (a.resume (.error .emptyName)) a.rest) := by
      simp [asked, Thread.step, execStep, checkName, hn]
    rw [hstep] at h
    exact absurd h (Nat.lt_irrefl _)
  · simp [asked, Thread.step, execStep, checkName, hn]

/-- Until they part, two runs of the same request are in the same state and at the same place. -/
theorem lockstep_asked {app app' : Application v} (happ : app.Alike FailsOrPanics app')
    (s : State v) (a : Call v) {j : Nat}
    (hdeep : ∀ i, 0 < i → i ≤ j → a.rest.depth < (run app i (s, a.asked)).2.depth)
    (hfirst : ∀ i < j, ¬ (run app i (s, a.asked)).2.Parts FailsOrPanics a.rest.depth
      (run app' i (s, a.asked)).2) {i : Nat} (hpos : 0 < i) (hi : i ≤ j) :
    (run app i (s, a.asked)).1 = (run app' i (s, a.asked)).1 ∧
      Lockstep FailsOrPanics a.rest.depth (run app i (s, a.asked)) (run app' i (s, a.asked)) := by
  obtain ⟨i, rfl⟩ := Nat.exists_eq_add_one_of_ne_zero (Nat.pos_iff_ne_zero.mp hpos)
  -- the first step is taken in both runs alike
  let c : State v × Thread v := (s, .begin .reading a.name a.construct a.resume a.rest)
  have hbegun (app'' : Application v) (m : Nat) :
      run app'' (m + 1) (s, a.asked) = run app'' m c := by
    have hstep := hdeep 1 Nat.one_pos (Nat.le_trans (Nat.succ_le_succ (Nat.zero_le i)) hi)
    rw [run_succ] at hstep
    rw [run_succ, step_asked hstep app'']
  have hstart : Lockstep FailsOrPanics a.rest.depth c c :=
    ⟨rfl, rfl, .begin .reading _ _ (fun _ => .refl _) (.base _ (Nat.le_refl _))⟩
  have hlt {m : Nat} (hm : m < i) : m + 1 < j := Nat.lt_of_lt_of_le (Nat.succ_lt_succ hm) hi
  rw [hbegun, hbegun]
  refine hstart.run happ rfl (fun m hm => ?_) fun m hm => ?_
  · exact hbegun app m ▸ hdeep (m + 1) m.succ_pos (Nat.le_of_lt (hlt hm))
  · exact hbegun app m ▸ hbegun app' m ▸ hfirst (m + 1) (hlt hm)

/-- A request that has taken so many steps is over when its thread gets back to where it was. -/
theorem endsAfter_of_works {app : Application v} {c c' : State v × Thread v} {j : Nat}
    {l : List (Task v)} (hj : 0 < j)
    (hinside : ∀ i, 0 < i → i < j → c.2.depth < (run app i c).2.depth)
    (hworks : Works app c.2.depth (run app j c) l c') (hback : c'.2.depth ≤ c.2.depth) :
    ∃ k, EndsAfter app c k ∧ run app k c = c' := by
  obtain ⟨k, hrun, -, hdeep⟩ := hworks
  rw [← run_add] at hrun
  refine ⟨j + k, ⟨Nat.add_pos_left hj k, hrun ▸ hback, fun i hi hik => ?_⟩, hrun⟩
  obtain hij | hji := Nat.lt_or_ge i j
  · exact hinside i hi hij
  · obtain ⟨m, rfl⟩ := Nat.exists_eq_add_of_le hji
    rw [run_add]
    exact hdeep m (Nat.lt_of_add_lt_add_left hik)

/-- **Failing and unwinding.** Two applications differ only in that constructs of the one return an
error, which does not say that somebody was first, where those of the other panic. In whatever state
a single thread is, it makes the request `a` in both of them. The request is not over before step
`j`, where the two runs part for the first time: a construct has returned an error in the one and
has panicked in the other. Only builds of a tower wait then, down to the build of `a`. In both runs
the request comes to its end, answered with an error in the one and left by the panic in the other,
and the two runs are in the same state then. -/
theorem failed_eq_panicked {app app' : Application v} (happ : app.Alike FailsOrPanics app')
    (s : State v) (a : Call v) (j : Nat) {e : Error} {p : Panic}
    {stack stack' : Stack v .construct}
    (hinside : ∀ i, 0 < i → i < j → a.rest.depth < (run app i (s, a.asked)).2.depth)
    (hfirst : ∀ i < j, ¬ (run app i (s, a.asked)).2.Parts FailsOrPanics a.rest.depth
      (run app' i (s, a.asked)).2)
    (hfailed : (run app j (s, a.asked)).2 = .exec (g := .construct) (.done (.error e)) stack)
    (hpanicked : (run app' j (s, a.asked)).2 = .exec (g := .construct) (.panic p) stack')
    (htower : a.Tower stack) :
    ∃ k k' e' s', EndsAfter app (s, a.asked) k ∧ EndsAfter app' (s, a.asked) k' ∧
      run app k (s, a.asked) = (s', .exec (a.resume (.error e')) a.rest) ∧
      run app' k' (s, a.asked) = (s', .unwind p a.rest) := by
  have hpos : 0 < j := by
    refine Nat.pos_of_ne_zero fun hj => ?_
    subst hj
    have hdepth : a.rest.depth = stack.depth := congrArg Thread.depth hfailed
    exact absurd htower.lt_depth (Nat.not_lt.mpr hdepth.ge)
  have hdeep : ∀ i, 0 < i → i ≤ j → a.rest.depth < (run app i (s, a.asked)).2.depth := by
    intro i hi hij
    obtain hlt | rfl := Nat.lt_or_eq_of_le hij
    · exact hinside i hi hlt
    · rw [hfailed]
      exact htower.lt_depth
  -- the two runs are in lockstep up to where they part
  obtain ⟨hstate, -, -, hthread⟩ := lockstep_asked happ s a hdeep hfirst hpos (Nat.le_refl j)
  rw [hfailed, hpanicked] at hthread
  obtain ⟨he, halike⟩ : (∀ m, e.isRace m = false) ∧
      stack.Alike FailsOrPanics a.rest.depth stack' := by
    cases hthread with
    | exec h hs =>
      cases h.of_done_panic with
      | intro he _ => exact ⟨he, hs⟩
  have hinside' : ∀ i, 0 < i → i < j → a.rest.depth < (run app' i (s, a.asked)).2.depth := by
    intro i hi hij
    have hlock := (lockstep_asked happ s a hdeep hfirst hi (Nat.le_of_lt hij)).2
    exact hlock.thread.depth_eq ▸ hinside i hi hij
  -- from the top of the tower, both runs get to its bottom
  obtain ⟨r, e', hworks, hworks'⟩ := htower.exits app app' halike he .construct p
    (run app j (s, a.asked)).1
  have hdepth' : a.rest.depth < stack'.depth := halike.depth_eq ▸ htower.lt_depth
  have hpanics : Works app' a.rest.depth ((run app j (s, a.asked)).1,
      .exec (g := .construct) (.panic p) stack') [] _ := .head hworks' hdepth'
  have hat : ((run app j (s, a.asked)).1, Thread.exec (g := .construct) (.done (.error e)) stack) =
      run app j (s, a.asked) := Prod.ext rfl hfailed.symm
  have hat' : ((run app j (s, a.asked)).1, Thread.exec (g := .construct) (.panic p) stack') =
      run app' j (s, a.asked) := Prod.ext hstate hpanicked.symm
  rw [hat] at hworks
  rw [hat'] at hpanics
  obtain ⟨k, hend, hrun⟩ := endsAfter_of_works (c := (s, a.asked)) hpos hinside hworks
    (Nat.le_refl _)
  obtain ⟨k', hend', hrun'⟩ := endsAfter_of_works (c := (s, a.asked)) hpos hinside' hpanics
    (Nat.le_refl _)
  exact ⟨k, k', e', _, hend, hend', hrun, hrun'⟩

end Call

/-! ### Two builds, one of them excluded -/

namespace Sample

/-- An application with two constructs. That of "outer" publishes an early reference, sets an error
aside, and asks for "inner". That of "inner" publishes an early reference, includes "inner" in
tracking, and comes to the end that is given. -/
def towering (o : Except Panic (Except Error Nat)) : Application vocabulary where
  body {g} (c : String) :=
    match g with
    | .construct =>
      if c = "outer" then do
        let _ ← .ask (.publish "outer" "early")
        let _ ← .ask (.suppress (.notFound "missing"))
        .obtainOrCreate "inner" "inner"
      else do
        let _ ← .ask (.publish "inner" "early")
        let _ ← .ask (.setExcluded "inner" false)
        .ending o
    | .main => .done ()
    | .producer => .done (0 : Nat)
    | .hook | .block => .done (.ok ())

/-- The request for "outer". -/
def toweringCall : Call vocabulary := ⟨"outer", "outer", .main, fun _ => .done (), .top⟩

/-- The request is about to be made, and "inner" is excluded from tracking. -/
def toweringStart : State vocabulary × Thread vocabulary :=
  ((run idle 1 (start (do let _ ← .ask (.setExcluded "inner" true)))).1, toweringCall.asked)

/-- The end of a construct that gives up. -/
def givenUp : Except Panic (Except Error Nat) := .ok (.error (.creationFailed "inner" "gave up" []))

/-- The end of a construct that panics. -/
def panicked : Except Panic (Except Error Nat) := .error (.text "gave up")

theorem alike_towering : (towering givenUp).Alike FailsOrPanics (towering panicked) := by
  have hends : FailsOrPanics (v := vocabulary) .construct givenUp panicked :=
    .intro (fun _ => rfl) (.text "gave up")
  intro g c
  cases g with
  | construct =>
    unfold towering
    dsimp only
    split
    · exact .refl _
    · exact .call _ fun _ => .call _ fun _ => .parting hends
  | main | producer | hook | block => exact .refl _

/-- Both constructs have published early references when that of "inner" comes to its end, and its
build is not tracked as it was. The request takes fourteen steps in the one run and fifteen in the
other, and then both are in the same state. -/
theorem failed_eq_panicked_towering :
    ∃ e s, run (towering givenUp) 14 toweringStart =
        (s, .exec (toweringCall.resume (.error e)) .top) ∧
      run (towering panicked) 15 toweringStart = (s, .unwind (.text "gave up") .top) := by
  have hdeep : ∀ i < 14, 0 < i → 0 < (run (towering givenUp) i toweringStart).2.depth := by decide
  have hdeep' : ∀ i < 15, 0 < i → 0 < (run (towering panicked) i toweringStart).2.depth := by decide
  have hpath : ∀ i < 12, (run (towering givenUp) i toweringStart).2.atEnd = false := by decide
  have htower : toweringCall.Tower (.building (g := .construct) "inner" false .done
      (.building "outer" true toweringCall.resume .top)) :=
    .building "inner" false (fun _ => .construct) (.base true)
  obtain ⟨k, k', e, s, hend, hend', hrun, hrun'⟩ :=
    Call.failed_eq_panicked alike_towering toweringStart.1 toweringCall 12
      (fun i hi hlt => hdeep i (by omega) hi)
      (fun i hi hparts => absurd ((hpath i hi).symm.trans hparts.atEnd) nofun) rfl rfl htower
  obtain rfl : k = 14 := hend.eq ⟨by decide, by decide, fun i hi hlt => hdeep i hlt hi⟩
  obtain rfl : k' = 15 := hend'.eq ⟨by decide, by decide, fun i hi hlt => hdeep' i hlt hi⟩
  exact ⟨e, s, hrun, hrun'⟩

end Sample

end Wiring
