import Wiring.Proofs.Builds.Confined
import Wiring.Proofs.Sample
import Wiring.Proofs.Tiers.Registered

/-!
# What a failed build leaves behind

A build request runs a tree of builds, of which some may fail or be left by a panic while others are
completed. When the request is over, by an answer or by a panic, the registry has gained exactly the
builds that were completed: nothing of the failed ones remains.

## Main definitions

* `Wiring.completed` — the builds that are completed in so many steps.

## Main results

* `Wiring.isSome_suppressed_run` — a single thread sets errors aside exactly while it builds.
* `Wiring.Call.Advances.run` — a build request stays under way until its last step.
* `Wiring.only_completed_builds_remain` — what a build request leaves behind.
-/

namespace Wiring

variable {v : Vocabulary}

/-! ### Requests under way -/

/-- The builds that are completed in the first `k` steps of a single thread, with their instances,
the earliest first. -/
def completed (app : Application v) : Nat → State v × Thread v → List (String × v.Inst)
  | 0, _ => []
  | k + 1, (s, t) => (t.completes s).toList ++ completed app k (t.step app s)

namespace Call

variable {W : (g : Goal) → v.Closure g → Prop} {a : Call v} {r₀ : v.Registry} {l : List String}
  {done : List (String × v.Inst)} {s : State v} {t : Thread v}

/-- The thread that is about to make the request. -/
def asked (a : Call v) : Thread v := .exec (.create a.name a.construct a.resume) a.rest

theorem Inside.lt_depth {g : Goal} {stack : Stack v g} (h : Inside W a l stack) :
    a.rest.depth < stack.depth := by
  induction h with
  | root => exact Nat.lt_succ_self _
  | building _ _ ih => exact Nat.lt_succ_of_lt ih
  | producing _ _ _ ih => exact Nat.lt_succ_of_lt ih
  | holding _ _ ih => exact Nat.lt_succ_of_lt ih
  | guarding _ _ ih => exact Nat.lt_succ_of_lt ih

/-- While a request is under way, the thread is deeper than it was before. -/
theorem Underway.lt_depth (h : Underway W a l t) : a.rest.depth < t.depth := by
  cases h with
  | asking => exact Nat.lt_succ_self _
  | running _ h => exact h.lt_depth
  | seeking _ _ h => exact Nat.lt_succ_of_lt h.lt_depth
  | requesting _ _ h => exact Nat.lt_succ_of_lt h.lt_depth
  | panicking _ h => exact h.lt_depth

theorem Over.depth_eq {t' : Thread v} (h : Over a done s t t') : t'.depth = a.rest.depth := by
  cases h <;> rfl

/-- How a request can end. -/
theorem Over.answer {t' : Thread v} (h : Over a done s t t') :
    (∃ x, t.occurrence s = some (.created a.name (.ok x)) ∧ t' = .exec (a.resume (.ok x)) a.rest) ∨
      a.name ∉ done.map Prod.fst ∧
        ((∃ e, t.occurrence s = some (.created a.name (.error e)) ∧
            t' = .exec (a.resume (.error e)) a.rest) ∨
          ∃ p, t' = .unwind p a.rest) := by
  cases h with
  | answered ho => exact .inl ⟨_, ho, rfl⟩
  | refused ho hn => exact .inr ⟨hn, .inl ⟨_, ho, rfl⟩⟩
  | panicked p hn => exact .inr ⟨hn, .inr ⟨p, rfl⟩⟩

variable (app : Application v)

/-- The first step of a request. -/
theorem advances_asked (h : Registry.Midway (W .producer) r₀ [] [] s.registry) :
    Advances W a r₀ [] s a.asked app := by
  by_cases hn : a.name = ""
  · have hstep : a.asked.step app s = (s, .exec (a.resume (.error .emptyName)) a.rest) := by
      simp [asked, Thread.step, execStep, checkName, hn]
    have ho : a.asked.occurrence s = some (.created a.name (.error .emptyName)) := by
      simp [asked, Thread.occurrence, execOccurrence, checkName, hn]
    refine .over app rfl ?_ ?_
    · rw [hstep]
      exact .refused ho (by simp)
    · rw [hstep]
      exact h
  · have hstep : a.asked.step app s =
        (s, .begin .reading a.name a.construct a.resume a.rest) := by
      simp [asked, Thread.step, execStep, checkName, hn]
    refine .underway app rfl (l := []) ?_ ?_
    · rw [hstep]
      exact .asking .reading
    · rw [hstep]
      exact h

/-- A request that has begun stays under way until its last step, and the registry gains what is
completed in the meantime. -/
theorem Advances.run (happ : app.Confined W) (hc : W .construct a.construct)
    (h : Advances W a r₀ done s t app) {k : Nat}
    (hback : (Wiring.run app (k + 1) (s, t)).2.depth ≤ a.rest.depth)
    (hinside : ∀ j, 0 < j → j < k + 1 → a.rest.depth < (Wiring.run app j (s, t)).2.depth) :
    Over a (done ++ completed app (k + 1) (s, t)) (Wiring.run app k (s, t)).1
        (Wiring.run app k (s, t)).2 (Wiring.run app (k + 1) (s, t)).2 ∧
      Registry.Midway (W .producer) r₀ [] (done ++ completed app (k + 1) (s, t))
        (Wiring.run app (k + 1) (s, t)).1.registry := by
  induction k generalizing s t done with
  | zero =>
    rw [run_succ] at hback ⊢
    rw [completed, completed, List.append_nil]
    obtain ⟨l, hu, -⟩ | hover := h
    · exact absurd hu.lt_depth (Nat.not_lt.mpr hback)
    · exact hover
  | succ k ih =>
    have hfirst := hinside 1 Nat.one_pos (Nat.succ_lt_succ (Nat.succ_pos k))
    rw [run_succ] at hback hfirst
    obtain ⟨l, hu, hm⟩ | ⟨hover, -⟩ := h
    · rw [run_succ, run_succ, completed, ← List.append_assoc]
      refine ih (hu.step app happ hc hm) hback fun j hj hjk => ?_
      have hnext := hinside (j + 1) (Nat.succ_pos j) (Nat.succ_lt_succ hjk)
      rwa [run_succ] at hnext
    · -- the thread would be back after its first step already
      exact absurd hfirst (Nat.not_lt.mpr hover.depth_eq.le)

end Call

/-! ### A single thread at the beginning of a request -/

/-- With a single thread, errors are set aside exactly while a build is open. -/
theorem isSome_suppressed_run (app : Application v) (o : Options) (w : v.World) (main : Code v Unit)
    (k : Nat) :
    (run app k (.start o w, .start main)).1.registry.suppressed.isSome =
      !(run app k (.start o w, .start main)).2.builds.isEmpty := by
  have hcollecting :=
    Pool.collecting_run app (Pool.collecting_start o w [main]) (List.replicate k 0)
  rw [Pool.run_replicate app (p := .start (.start o w) [main]) (t := .start main) rfl rfl k]
    at hcollecting
  simpa [Pool.builds, Pool.start] using hcollecting.isSome_suppressed

/-- **What a build request leaves behind.** In a program that is run by a single thread on a fresh
registry, a build request is made while no build is open, no name is marked or excluded from
tracking, and nothing is staged. Its construct is confined to builds and early references, with
everything that it runs in turn; it may fail, panic, and catch errors and panics. When the request
is over, the registry has gained the builds that were completed in the meantime, and nothing else.
The request itself is answered with an instance; or it is answered with an error or left by a panic,
and no build of its name was completed. -/
theorem only_completed_builds_remain (app : Application v) (W : (g : Goal) → v.Closure g → Prop)
    (happ : app.Confined W) (o : Options) (w : v.World) (main : Code v Unit) (j : Nat) (s : State v)
    (a : Call v) (hrun : run app j (.start o w, .start main) = (s, a.asked))
    (hopen : a.rest.builds = [])
    (hclear : ∀ m, s.registry.marks.isMarked m = false ∧ s.registry.marks.isExcluded m = false)
    (hstaged : s.registry.store.early = .empty ∧ s.registry.store.producers = .empty)
    (hc : W .construct a.construct) (k : Nat) (hend : EndsAfter app (s, a.asked) (k + 1)) :
    let done := completed app (k + 1) (s, a.asked)
    let last := run app k (s, a.asked)
    let after := run app (k + 1) (s, a.asked)
    s.registry.Gained done after.1.registry ∧
      ((∃ x, last.2.occurrence last.1 = some (.created a.name (.ok x)) ∧
          after.2 = .exec (a.resume (.ok x)) a.rest) ∨
        a.name ∉ done.map Prod.fst ∧
          ((∃ e, last.2.occurrence last.1 = some (.created a.name (.error e)) ∧
              after.2 = .exec (a.resume (.error e)) a.rest) ∨
            ∃ p, after.2 = .unwind p a.rest)) := by
  intro done last after
  have hreached := congrArg Prod.fst hrun
  have hsup : s.registry.suppressed = none := by
    have hsome := isSome_suppressed_run app o w main j
    rw [hrun, show a.asked.builds = [] from hopen] at hsome
    simpa using hsome
  have hunstaged := Store.forall_isStaged_eq_false_iff.mpr hstaged
  -- a registered name could only be staged or marked instead
  have hregistered : ∀ m ∈ s.registry.store.registered, s.registry.store.final? m ≠ none := by
    intro m hm
    have haccounted := accounted_run app o w main j
    rw [hreached] at haccounted
    simpa [hunstaged m, (hclear m).1] using haccounted m hm
  have hstart : Registry.Midway (W .producer) s.registry [] [] s.registry :=
    ⟨.start hregistered hunstaged, by simp [hclear], fun m => (hclear m).2, by simp [hsup]⟩
  obtain ⟨hover, hmidway⟩ :=
    (Call.advances_asked app hstart).run app happ hc hend.back hend.inside
  rw [List.nil_append] at hover hmidway
  exact ⟨hmidway.gained hunstaged, hover.answer⟩

namespace Sample

/-- An application with three constructs. That of "outer" publishes an early reference, builds
"inner", has a block build "broken" and catches what leaves it, and fails in the end. That of
"broken" publishes an early reference and panics. That of "inner" returns an instance. -/
def collapsing : Application vocabulary where
  body {g} (c : String) :=
    match g with
    | .construct =>
      if c = "outer" then do
        let _ ← .ask (.publish "outer" "early")
        let _ ← .obtainOrCreate "inner" "inner"
        let _ ← .guard "block" .done
        return .error (.creationFailed "outer" "gave up" [])
      else if c = "broken" then do
        let _ ← .ask (.publish "broken" "early")
        .panic (.text "gave up")
      else .done (.ok (1 : Nat))
    | .block => do
      let _ ← .obtainOrCreate "broken" "broken"
      return .ok ()
    | .main => .done ()
    | .producer => .done (0 : Nat)
    | .hook => .done (.ok ())

/-- A program that asks for "outer" when "old" has been registered. -/
def collapsingMain : Code vocabulary Unit := do
  let _ ← .ask (.register "old" (7 : Nat))
  let _ ← .obtainOrCreate "outer" "outer"

theorem confined_collapsing : collapsing.Confined fun _ _ => True := by
  intro g c _
  cases g with
  | construct =>
    unfold collapsing
    dsimp only
    split
    · exact ⟨trivial, fun _ => ⟨trivial, fun _ => ⟨trivial, fun _ => trivial⟩⟩⟩
    · split
      · exact ⟨trivial, fun _ => trivial⟩
      · trivial
  | block => exact ⟨trivial, fun _ => trivial⟩
  | main | producer | hook => trivial

/-- The request for "outer" takes twenty steps. Of the three builds only that of "inner" leaves
anything behind. -/
theorem only_completed_builds_remain_collapsing :
    let before := run collapsing 1 (start collapsingMain)
    let after := run collapsing 20 before
    before.1.registry.Gained [("inner", (1 : Nat))] after.1.registry ∧
      after.1.registry.store.names = ["old", "inner"] := by
  intro before after
  let request : Call vocabulary := ⟨"outer", "outer", .main, fun _ => .done (), .top⟩
  have hrun : before = (before.1, request.asked) := rfl
  have hinside : ∀ j < 20, 0 < j → 0 < (run collapsing j before).2.depth := by decide
  have hend : EndsAfter collapsing before 20 :=
    ⟨by decide, by decide, fun j hpos hj => hinside j hj hpos⟩
  have hclear (m : String) : before.1.registry.marks.isMarked m = false ∧
      before.1.registry.marks.isExcluded m = false := ⟨rfl, rfl⟩
  have hdone : completed collapsing 20 before = [("inner", (1 : Nat))] := rfl
  obtain ⟨hgained, -⟩ := only_completed_builds_remain collapsing _ confined_collapsing .default ()
    collapsingMain 1 before.1 request hrun rfl hclear ⟨rfl, rfl⟩ trivial 19 (hrun ▸ hend)
  rw [← hrun, hdone] at hgained
  exact ⟨hgained, rfl⟩

end Sample

end Wiring
