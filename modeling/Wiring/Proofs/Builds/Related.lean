import Wiring.Proofs.Builds.Aside
import Wiring.Proofs.Builds.Stranded

/-!
# Errors that a failure takes along

The errors that were set aside in a build are attached to the error with which the outermost build
fails, if that is the failure of a build. There may have been many builds inside it: some came to an
end, some failed, some were left by a panic that was caught. None of them takes errors away or
brings errors in, since the outermost build stays at the bottom of the stack from its first step to
its last, and the list is started and dropped with it.

## Main definitions

* `Wiring.Pool.OutermostSince` — a thread has begun a build outside every other one, and that build
  is still open.

## Main results

* `Wiring.Registry.settle_error` — what is answered when a construct has failed.
* `Wiring.Pool.BuildsSince.exists_outermostSince` — whoever has builds open is in the build that was
  begun first.
* `Wiring.Pool.exists_outermostSince_of_builds` — what is kept was set aside in the outermost build.
* `Wiring.Pool.errors_attached_to_outermost` — which errors a failed build takes along, over all
  runs.
-/

namespace Wiring

variable {v : Vocabulary}

/-! ### Failed constructs -/

/-- An error of a construct is passed on, unless it says that somebody was first and a final
instance is there to prove it. When it leaves the outermost build, it takes the errors set aside
along. -/
theorem Registry.settle_error {r : v.Registry} {n : String} (outermost : Bool) {e : Error}
    (h : r.marks.Finishes n) :
    (e.isRace n = true → ∀ x, r.store.final? n = some x →
        (r.settle n outermost (.error e)).reply = .ok x) ∧
      (e.isRace n = true → r.store.final? n = none →
        (r.settle n outermost (.error e)).reply = .error e) ∧
      (e.isRace n = false → (r.settle n outermost (.error e)).reply =
        .error (e.withRelated (if outermost then r.suppressed.getD [] else []))) := by
  obtain ⟨m, hm⟩ := Marks.finishes_iff.mp h
  refine ⟨fun hrace x hx => ?_, fun hrace hx => ?_, fun hrace => ?_⟩
  · simp only [settle, outcome, hm, hrace, hx, if_true]
  · simp only [settle, outcome, hm, hrace, hx, if_true]
  · simp only [settle, outcome, hm, hrace, Bool.false_eq_true, if_false]

/-! ### The bottom of the stack -/

/-- As long as there are open builds before and after a change, the last of them is the same. -/
theorem Build.Change.getLast?_builds {l : List Build} (hl : l ≠ []) (c : Change)
    (hc : c.builds l ≠ []) : (c.builds l).getLast? = l.getLast? := by
  obtain ⟨b, l, rfl⟩ := List.exists_cons_of_ne_nil hl
  cases c with
  | keep | exclude => rfl
  | begin b' => exact List.getLast?_cons_cons
  | finish b' =>
    obtain ⟨b', l, rfl⟩ := List.exists_cons_of_ne_nil hc
    exact List.getLast?_cons_cons.symm

/-- A build that is begun is begun with its construct. -/
theorem Thread.constructBegun_of_begin {s : State v} {t : Thread v} {b : Build}
    (h : t.buildChange s = .begin b) : t.occurrence s = some (.constructBegun b.name) := by
  have hcause := t.buildCause_buildChange s
  rw [h] at hcause
  cases hcause with
  | @begin g n c resume stack hf ht hm =>
    have hmx : ¬ (s.registry.marks.isMarked n = true ∧ s.registry.marks.isExcluded n = false) := by
      rintro ⟨hmarked, hincluded⟩
      simp [hmarked, hincluded] at hm
    obtain ⟨r, hopen, -⟩ := Registry.exists_openBuild_eq_ok hmx
    simp [occurrence, beginOccurrence, hf, ht, hopen]

namespace Pool

instance instDecidableSteady (app : Application v) (n : String) :
    (p : Pool v) → (l : List Nat) → Decidable (Steady app n p l)
  | _, [] => inferInstanceAs (Decidable True)
  | p, i :: rest =>
    have := instDecidableSteady app n (p.step app i) rest
    inferInstanceAs (Decidable (_ ∧ _))

section Reached

variable (app : Application v) (o : Options) (w : v.World) (programs : List (Code v Unit))

/-- Thread `i` begins the construct of `n` by the step after the steps `l`, while no build is open,
and over the steps `m` that build has stayed open, below all others. -/
structure OutermostSince (l : List Nat) (i : Nat) (m : List Nat) (n : String) : Prop where
  before : (reached app o w programs l).builds = []
  begun : ∃ t, (reached app o w programs l).Takes i t ∧
    t.occurrence (reached app o w programs l).state = some (.constructBegun n)
  since : ∀ m', m' <+: m →
    (reached app o w programs (l ++ [i] ++ m')).builds.getLast? = some ⟨n, true⟩

variable {app o w programs} {l m : List Nat} {i : Nat}

theorem BuildsSince.builds_ne_nil (h : BuildsSince app o w programs l i m) {m' : List Nat}
    (hm' : m' <+: m) : (reached app o w programs (l ++ [i] ++ m')).builds ≠ [] := by
  obtain ⟨t, ht, hbuilds⟩ := h.since m' hm'
  rwa [builds_eq_of_holdsLock (serial_reached ..) ht (Thread.holdsLock_of_builds hbuilds)]

/-- A thread that has had builds open all the time is in the build that it has begun first. -/
theorem BuildsSince.exists_outermostSince (h : BuildsSince app o w programs l i m) :
    ∃ n, OutermostSince app o w programs l i m n := by
  have hfirst := h.builds_ne_nil (List.nil_prefix (l := m))
  have hcollecting := collecting_reached app o w programs (l ++ [i])
  rw [List.append_nil] at hfirst
  have hbuilds := (buildChange_step app (serial_reached app o w programs l) i).builds
  rw [← reached_concat, h.before] at hbuilds
  obtain ⟨b, hc⟩ : ∃ b, (reached app o w programs l).buildChange i = .begin b := by
    cases hc : (reached app o w programs l).buildChange i with
    | begin b => exact ⟨b, rfl⟩
    | keep | finish | exclude =>
      rw [hc] at hbuilds
      exact absurd hbuilds hfirst
  rw [hc] at hbuilds
  have houtermost : b.outermost = true := by
    have hnested := hcollecting.nested
    rw [hbuilds] at hnested
    exact hnested.1
  refine ⟨b.name, h.before, ?_, fun m' hm' => ?_⟩
  · obtain ⟨t, ht, -⟩ := exists_buildCause (p := reached app o w programs l) (i := i) (by simp [hc])
    exact ⟨t, ht, t.constructBegun_of_begin ((buildChange_of_takes ht).symm.trans hc)⟩
  · induction m' using List.reverseRecOn with
    | nil =>
      rw [List.append_nil, hbuilds, ← houtermost]
      rfl
    | append_singleton m' k ih =>
      have hbefore := (List.prefix_append m' [k]).trans hm'
      have hnow := h.builds_ne_nil hbefore
      have hnext := h.builds_ne_nil hm'
      rw [← List.append_assoc, reached_concat, (buildChange_step app (serial_reached ..) k).builds]
        at hnext ⊢
      rw [Build.Change.getLast?_builds hnow _ hnext, ih hbefore]

/-- If a thread has a build open outside every other one, that is the build that it has begun first,
and what is kept was set aside by that thread since then. -/
theorem exists_outermostSince_of_builds {schedule : List Nat} {n : String} {t : Thread v}
    (ht : (reached app o w programs schedule).threads[i]? = some t)
    (hbuilds : t.builds = [⟨n, true⟩]) :
    ∃ l m, schedule = l ++ [i] ++ m ∧ OutermostSince app o w programs l i m n ∧
      (∀ x ∈ asides app (reached app o w programs (l ++ [i])) m, x.1 = i) ∧
      (reached app o w programs schedule).state.registry.suppressed =
        some ((asides app (reached app o w programs (l ++ [i])) m).map Prod.snd) := by
  have hopen : t.builds ≠ [] := by simp [hbuilds]
  obtain ⟨l, m, rfl, hsince⟩ := exists_buildsSince_of_builds ht hopen
  obtain ⟨k, houter⟩ := hsince.exists_outermostSince
  have hlast := houter.since m List.prefix_rfl
  rw [builds_eq_of_holdsLock (serial_reached ..) ht (Thread.holdsLock_of_builds hopen), hbuilds]
    at hlast
  obtain rfl : n = k := congrArg Build.name (Option.some.inj hlast)
  exact ⟨l, m, rfl, houter, hsince.own, hsince.suppressed_eq⟩

/-! ### Runs -/

/-- A build whose name has kept its exclusion can be closed in good order. -/
theorem finishes_of_steady {schedule : List Nat} {n : String}
    (h : Steady app n (start (.start o w) programs) schedule)
    (hopen : ∃ b ∈ (reached app o w programs schedule).builds, b.name = n) :
    (reached app o w programs schedule).state.registry.marks.Finishes n := by
  have hmem : n ∈ (episodes app (start (.start o w) programs) schedule).map Episode.name := by
    rw [map_name_episodes]
    exact List.mem_map.mpr hopen
  obtain ⟨e, he, hname⟩ := List.mem_map.mp hmem
  exact (mirrors_reached app o w programs h).finishes he hname

end Reached

/-- **Errors set aside.** Programs are run on a fresh registry, in any order of their steps, and
nobody changes the exclusion of `n` while a build of it is open.

* As long as no build is open, no errors are kept, and setting one aside changes nothing.
* When a construct of `n` returns an error, the code that waits for the answer goes on with it as
  follows.
* If the error says that somebody was first, the answer is the final instance of `n`, or that error
  if there is none.
* Any other error that is not the failure of a build is passed on as it is.
* So is the failure of a build, if the build of `n` is inside another one.
* If it is not, the failure is passed on with the errors that were set aside since the build of `n`
  began, after those that it has by itself and in the order in which they were set aside. All of
  them were set aside by the thread that builds, and the build of `n` was open all the time. -/
theorem errors_attached_to_outermost (app : Application v) (o : Options) (w : v.World)
    (programs : List (Code v Unit)) (schedule : List Nat) (n : String)
    (hsteady : Steady app n (start (.start o w) programs) schedule) :
    let p := reached app o w programs schedule
    (p.builds = [] → p.state.registry.suppressed = none ∧
      ∀ (i : Nat) (g : Goal) (e : Error) (next : Unit → Code v (g.Result v.Inst))
        (stack : Stack v g), p.Takes i (.exec (.call (.suppress e) next) stack) →
        (p.step app i).state.registry = p.state.registry) ∧
    ∀ (i : Nat) (g : Goal) (e : Error) (outermost : Bool)
      (resume : Except Error v.Inst → Code v (g.Result v.Inst)) (rest : Stack v g),
      p.Takes i (.exec (g := .construct) (.done (.error e)) (.building n outermost resume rest)) →
      p.builds = ⟨n, outermost⟩ :: rest.builds ∧
      ∃ a, (Thread.exec (g := .construct) (.done (.error e))
          (.building n outermost resume rest)).occurrence p.state = some (.created n a) ∧
        (p.step app i).threads[i]? = some (.exec (resume a) rest) ∧
        (e.isRace n = true → ∀ x, p.store.final? n = some x → a = .ok x) ∧
        (e.isRace n = true → p.store.final? n = none → a = .error e) ∧
        (e.isRace n = false → (∀ m r es, e ≠ .creationFailed m r es) → a = .error e) ∧
        ∀ m r es, e = .creationFailed m r es →
          (rest.builds ≠ [] → a = .error e) ∧
          (rest.builds = [] → ∃ l₀ m₀, schedule = l₀ ++ [i] ++ m₀ ∧
            OutermostSince app o w programs l₀ i m₀ n ∧
            (∀ x ∈ asides app (reached app o w programs (l₀ ++ [i])) m₀, x.1 = i) ∧
            a = .error (.creationFailed m r
              (es ++ (asides app (reached app o w programs (l₀ ++ [i])) m₀).map Prod.snd))) := by
  intro p
  have hcollecting : p.Collecting := collecting_reached app o w programs schedule
  refine ⟨fun hclosed => ?closed, fun i g e outermost resume rest ht => ?failed⟩
  case closed =>
    have hnone : p.state.registry.suppressed = none := by
      simpa [hclosed] using hcollecting.isSome_suppressed
    refine ⟨hnone, fun i g e next stack ht => ?_⟩
    have hstep : (p.step app i).state.registry = p.state.registry.suppress e := by
      rw [step_of_takes app ht]
      exact State.registry_after ..
    rw [hstep, Registry.suppress, hnone, Option.map_none, ← hnone]
  case failed =>
    have hopen := exists_build_of_construct_done ht.1
    have hbuilds : p.builds = ⟨n, outermost⟩ :: rest.builds :=
      builds_eq_of_holdsLock hcollecting.serial ht.1 rfl
    have houtermost : outermost = rest.builds.isEmpty := by
      have hnested := hcollecting.nested
      rw [hbuilds] at hnested
      exact hnested.1
    obtain ⟨hpresent, habsent, hother⟩ := Registry.settle_error outermost (e := e)
      (finishes_of_steady hsteady ⟨_, hopen, rfl⟩)
    refine ⟨hbuilds, _, rfl, getElem?_step_self app ht, hpresent, habsent, ?_, ?_⟩
    · intro hrace hplain
      refine (hother hrace).trans (congrArg Except.error ?_)
      cases e with
      | creationFailed m r es => exact absurd rfl (hplain m r es)
      | _ => rfl
    rintro m r es rfl
    refine ⟨fun hinside => ?_, fun hnone => ?_⟩
    · have hfalse : outermost = false := by simpa [houtermost] using hinside
      subst hfalse
      exact (hother rfl).trans (congrArg Except.error (by simp [Error.withRelated]))
    · obtain rfl : outermost = true := by simp [houtermost, hnone]
      obtain ⟨l₀, m₀, hschedule, houter, hown, hkept⟩ :=
        exists_outermostSince_of_builds ht.1 (congrArg (_ :: ·) hnone)
      refine ⟨l₀, m₀, hschedule, houter, hown, (hother rfl).trans ?_⟩
      change p.state.registry.suppressed = _ at hkept
      rw [hkept]
      rfl

end Pool

/-! ### A build inside a build, left by a panic -/

namespace Sample

/-- An application with two constructs. That of "outer" sets an error aside, has a block build
"inner" and catches what leaves it, and fails. That of "inner" sets an error aside and panics. -/
def reporting : Application vocabulary where
  body {g} (c : String) :=
    match g with
    | .construct =>
      if c = "outer" then do
        let _ ← .ask (.suppress (.notFound "first"))
        let _ ← .guard "block" .done
        return .error (.creationFailed "outer" "gave up" [.notFound "own"])
      else do
        let _ ← .ask (.suppress (.notFound "second"))
        .panic (.text "gave up")
    | .block => do
      let _ ← .obtainOrCreate "inner" "inner"
      return .ok ()
    | .main => .done ()
    | .producer => .done (0 : Nat)
    | .hook => .done (.ok ())

/-- A program that sets an error aside and then asks for "outer". -/
def reportingMain : Code vocabulary Unit := do
  let _ ← .ask (.suppress (.notFound "outside"))
  let _ ← .obtainOrCreate "outer" "outer"

/-- A run of that program, after so many steps. -/
def reportingRun (k : Nat) : Pool vocabulary :=
  .reached reporting .default () [reportingMain] (List.replicate k 0)

/-- The request for "outer" is answered with the failure of "outer", its own error and the two that
were set aside while it was open. What was set aside outside is not among them, and the panic of
"inner" has taken nothing away. -/
theorem errors_attached_to_outermost_reporting :
    (∃ resume, (reportingRun 15).threads[0]? = some (.exec (g := .construct)
      (.done (.error (.creationFailed "outer" "gave up" [.notFound "own"])))
      (.building (g := .main) "outer" true resume .top))) ∧
    ∃ l m, List.replicate 15 0 = l ++ [0] ++ m ∧
      Pool.OutermostSince reporting .default () [reportingMain] l 0 m "outer" ∧
      (Pool.asides reporting (.reached reporting .default () [reportingMain] (l ++ [0])) m).map
        Prod.snd = [.notFound "first", .notFound "second"] := by
  have hsteady : Pool.Steady reporting "outer" (.start (.start .default ()) [reportingMain])
      (List.replicate 15 0) := by
    decide +kernel
  obtain ⟨-, hfailed⟩ := Pool.errors_attached_to_outermost reporting .default () [reportingMain]
    (List.replicate 15 0) "outer" hsteady
  obtain ⟨-, a, hoccurrence, -, -, -, -, hattached⟩ :=
    hfailed 0 .main (.creationFailed "outer" "gave up" [.notFound "own"]) true _ .top ⟨rfl, rfl⟩
  obtain ⟨-, houtermost⟩ := hattached _ _ _ rfl
  obtain ⟨l, m, hsteps, hopen, -, ha⟩ := houtermost rfl
  obtain rfl : Except.error (.creationFailed "outer" "gave up"
      [.notFound "own", .notFound "first", .notFound "second"]) = a :=
    (Occurrence.created.inj (Option.some.inj (Eq.trans (by rfl) hoccurrence))).2
  refine ⟨⟨_, rfl⟩, l, m, hsteps, hopen, ?_⟩
  injection ha with ha
  injection ha with _ _ ha
  exact (List.cons.inj ha).2.symm

end Sample

end Wiring
