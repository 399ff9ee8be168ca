import Wiring.Proofs.Assembly.Requests
import Wiring.Proofs.Builds.Success
import Wiring.Proofs.Teardown.Ending

/-!
# Marks that stay behind

When no request is in progress, no teardown is under way and no error is set aside. But a mark may
have stayed behind: a build that ends while its name is excluded from tracking leaves a mark alone
that was set before the exclusion. Once such a name is included again, no build of it begins any
more. This is the only way for a mark to stay behind, and a name without one can be built.

## Main definitions

* `Wiring.Pool.Stranded`, `Wiring.Pool.Strands` — a name is marked although no build of it is open;
  a step makes it so.
* `Wiring.Pool.Idle` — no request is in progress.

## Main results

* `Wiring.Pool.stranded_step_iff` — which steps strand a name.
* `Wiring.Leads.create_ok` — a construct that returns at once is run and its instance installed.
* `Wiring.Pool.obtainable_unless_stranded` — when a name can be built, over all runs.
* `Wiring.Sample.refused_abandoning` — a name that cannot be built any more.
-/

namespace Wiring

variable {v : Vocabulary}

/-! ### Stranded names -/

namespace Pool

/-- `n` is marked although no build of it is open. -/
def Stranded (p : Pool v) (n : String) : Prop :=
  p.state.registry.marks.isMarked n = true ∧ ∀ b ∈ p.builds, b.name ≠ n

/-- The next step, if it is the turn of thread `i`, ends the only open build of `n`, while `n` is
marked and excluded from tracking. -/
structure Strands (p : Pool v) (i : Nat) (n : String) : Prop where
  finish : ∃ b, p.buildChange i = .finish b ∧ b.name = n
  only : ∀ b ∈ p.builds.tail, b.name ≠ n
  marked : p.state.registry.marks.isMarked n = true
  excluded : p.state.registry.marks.isExcluded n = true

/-- A name becomes stranded exactly by a step that strands it. -/
theorem stranded_step_iff (app : Application v) {p : Pool v} (hp : p.Serial) {n : String}
    (h : ¬ p.Stranded n) (i : Nat) : (p.step app i).Stranded n ↔ p.Strands i n := by
  obtain ⟨hbuilds, hmarks, -⟩ := buildChange_step app hp i
  rw [Stranded, hbuilds, hmarks]
  cases hc : p.buildChange i with
  | keep | exclude =>
    refine iff_of_false h fun hs => ?_
    obtain ⟨b, hb, -⟩ := hs.finish
    cases hc.symm.trans hb
  | begin b =>
    refine iff_of_false (fun hs => ?_) fun hs => ?_
    · rw [Build.Change.isMarked_begin] at hs
      have hne : n ≠ b.name := (hs.2 b List.mem_cons_self).symm
      refine h ⟨by simpa [hne] using hs.1, fun b' hb' => hs.2 b' (List.mem_cons_of_mem b hb')⟩
    · obtain ⟨b', hb, -⟩ := hs.finish
      cases hc.symm.trans hb
  | finish b =>
    rw [Build.Change.isMarked_finish]
    constructor
    · rintro ⟨hm, honly⟩
      obtain ⟨hmarked, hex⟩ : p.state.registry.marks.isMarked n = true ∧
          (p.state.registry.marks.isExcluded b.name = true ∨ n ≠ b.name) := by simpa using hm
      by_cases hn : b.name = n
      · exact ⟨⟨b, hc, hn⟩, honly, hmarked, hn ▸ hex.resolve_right fun hne => hne hn.symm⟩
      · -- another build ended, and left `n` as it was
        refine (h ⟨hmarked, fun b' hb' => ?_⟩).elim
        rw [builds_of_finish hp hc] at hb'
        rcases List.mem_cons.mp hb' with rfl | hb'
        · exact hn
        · exact honly b' hb'
    · intro hs
      obtain ⟨b', hb, rfl⟩ := hs.finish
      obtain rfl : b = b' := Build.Change.finish.inj (hc.symm.trans hb)
      exact ⟨by simp [hs.marked, hs.excluded], hs.only⟩

end Pool

/-! ### Idle pools -/

/-- Nothing waits for a construct, a producer or a hook; there are only blocks. -/
def Stack.Idle : {g : Goal} → Stack v g → Prop
  | _, .top => True
  | _, .holding _ rest | _, .guarding _ rest => rest.Idle
  | _, .building .. | _, .producing .. | _, .tearing .. => False

/-- The thread is in no request that runs closures. -/
def Thread.Idle : Thread v → Prop
  | .exec _ stack | .unwind _ stack => stack.Idle
  | .seek .. | .begin .. | .walk .. => False
  | .finished _ => True

/-- No thread is in a request that runs closures. -/
def Pool.Idle (p : Pool v) : Prop := ∀ t ∈ p.threads, t.Idle

/-- An idle stack waits for no build and for no teardown of everything. -/
theorem Stack.rest_of_idle {g : Goal} {stack : Stack v g} (h : stack.Idle) :
    stack.builds = [] ∧ ¬ stack.WillReset := by
  induction stack with
  | top => exact ⟨rfl, id⟩
  | building | producing | tearing => exact h.elim
  | holding resume rest ih => exact ih h
  | guarding resume rest ih => exact ih h

theorem Thread.rest_of_idle {t : Thread v} (h : t.Idle) : t.builds = [] ∧ ¬ t.WillReset := by
  cases t with
  | exec code stack => exact Stack.rest_of_idle h
  | unwind p stack => exact Stack.rest_of_idle h
  | seek | begin | walk => exact h.elim
  | finished outcome => exact ⟨rfl, id⟩

/-- No build is open in an idle pool. -/
theorem Pool.builds_of_idle {p : Pool v} (h : p.Idle) : p.builds = [] :=
  List.flatMap_eq_nil_iff.mpr fun t ht => (Thread.rest_of_idle (h t ht)).1

/-- In an idle pool no teardown is under way and no error is set aside. -/
theorem Pool.rest_of_idle (app : Application v) (o : Options) (w : v.World)
    (programs : List (Code v Unit)) (schedule : List Nat)
    (h : (reached app o w programs schedule).Idle) :
    (reached app o w programs schedule).state.registry.tearingDown = false ∧
      (reached app o w programs schedule).state.registry.suppressed = none := by
  constructor
  · by_contra ht
    obtain ⟨t, hmem, hreset⟩ :=
      willReset_run app o w programs schedule (Bool.eq_true_of_not_eq_false ht)
    exact (Thread.rest_of_idle (h t hmem)).2 hreset
  · have hcollecting : (reached app o w programs schedule).Collecting :=
      collecting_run app (collecting_start o w programs) schedule
    simpa [builds_of_idle h] using hcollecting.isSome_suppressed

/-! ### A construct that returns at once -/

/-- A build that is not refused begins, and can be closed in good order as it stands. -/
theorem Registry.exists_openBuild_eq_ok {r : v.Registry} {n : String}
    (h : ¬ (r.marks.isMarked n = true ∧ r.marks.isExcluded n = false)) :
    ∃ r', r.openBuild n = .ok r' ∧ r'.store = r.store ∧ r'.marks.Finishes n := by
  cases ho : r.openBuild n with
  | error e =>
    obtain ⟨hm, hx, -⟩ := Marks.begin_eq_error_iff.mp (openBuild_eq_error ho)
    exact absurd ⟨hm, hx⟩ h
  | ok r' =>
    obtain ⟨m, hm, rfl⟩ := openBuild_eq_ok ho
    refine ⟨_, rfl, rfl, ?_⟩
    obtain ⟨-, rfl⟩ := Marks.begin_eq_ok (b := ⟨n, true⟩) hm
    cases hx : r.marks.isExcluded n with
    | true => exact .inl (by rw [Build.Change.isExcluded_begin, hx])
    | false => exact .inr (by simp [Build.Change.isMarked_begin, hx])

/-- If a request for a name that is not final is not refused, and the construct returns an instance
at once, the request is answered with that instance, which is installed. -/
theorem Leads.create_ok (app : Application v) {s : State v} {g : Goal} {n : String}
    {c : v.Closure .construct} {x : v.Inst} (next : Except Error v.Inst → Code v (g.Result v.Inst))
    (stack : Stack v g) (hn : n ≠ "") (hf : s.registry.store.final? n = none)
    (ht : s.registry.tearingDown = false)
    (hmx : ¬ (s.registry.marks.isMarked n = true ∧ s.registry.marks.isExcluded n = false))
    (hc : app.body c = .done (.ok x)) :
    ∃ s', Leads app (s, .exec (.create n c next) stack) [.constructBegun n, .created n (.ok x)]
        (s', .exec (next (.ok x)) stack) ∧
      s'.registry.store = s.registry.store.put n x := by
  obtain ⟨r, hopen, hstore, hfin⟩ := Registry.exists_openBuild_eq_ok hmx
  let s₁ := (s.report stack.depth (.creating n)).withRegistry r
  have hbegin : Leads app (s, .begin .inside n c next stack) [.constructBegun n]
      (s₁, .exec (g := .construct) (.done (.ok x))
        (.building n s.registry.suppressed.isNone next stack)) := by
    refine single ?_ ?_
    · simp [Thread.step, beginStep, hf, ht, hopen, hc, s₁]
    · simp [Thread.occurrence, beginOccurrence, hf, ht, hopen]
  obtain ⟨hreply, hput⟩ := Registry.settle_ok_of_final?_eq_none (r := r)
    s.registry.suppressed.isNone (x := x) hfin (by rw [hstore, hf])
  obtain ⟨s₂, hend, hregistry, -⟩ :=
    settle_build app s₁ n stack next s.registry.suppressed.isNone (.ok x)
  have hsettle : s₁.registry = r := rfl
  rw [hsettle, hreply] at hend
  refine ⟨s₂, (create_inside hn hf).trans (hbegin.trans hend), ?_⟩
  rw [hregistry, hsettle, hput, hstore]

/-! ### Runs -/

namespace Pool

/-- **Names that can be built.** Programs are run on a fresh registry, in any order of their steps.

* A name is stranded at some point of the run exactly if a step strands it: such a step ends the
  only open build of the name, while the name is marked and excluded from tracking.
* When no request is in progress, no teardown is under way, no error is set aside, and the marked
  names are the stranded ones.
* Then a request for a name that is neither empty nor final, whose construct returns `x` at once, is
  answered with `x`, which is final from then on, unless the name is stranded and not excluded.
* If it is, the request is refused as a cycle. -/
theorem obtainable_unless_stranded (app : Application v) (o : Options) (w : v.World)
    (programs : List (Code v Unit)) (schedule : List Nat) :
    (∀ n, (∀ l, l <+: schedule → ¬ (reached app o w programs l).Stranded n) ↔
      ∀ l i, l ++ [i] <+: schedule → ¬ (reached app o w programs l).Strands i n) ∧
    let p := reached app o w programs schedule
    (p.Idle → p.state.registry.tearingDown = false ∧ p.state.registry.suppressed = none ∧
      (∀ n, p.state.registry.marks.isMarked n = true ↔ p.Stranded n) ∧
      ∀ (i : Nat) (g : Goal) (n : String) (c : v.Closure .construct) (x : v.Inst)
        (next : Except Error v.Inst → Code v (g.Result v.Inst)) (stack : Stack v g),
        p.threads[i]? = some (.exec (.create n c next) stack) → p.lockedByOther i = false →
        n ≠ "" → p.store.final? n = none → app.body c = .done (.ok x) →
        (¬ (p.Stranded n ∧ p.state.registry.marks.isExcluded n = false) →
          ∃ k s, p.run app (List.replicate k i) =
              ⟨s, p.threads.set i (.exec (next (.ok x)) stack)⟩ ∧
            s.registry.store = p.store.put n x ∧ s.registry.store.final? n = some x) ∧
        (p.Stranded n → p.state.registry.marks.isExcluded n = false →
          Refuses p i n next stack (p.run app [i, i, i, i]))) := by
  refine ⟨fun n => ?_, fun hidle => ?_⟩
  · refine forall_prefix_iff (P := fun l => ¬ (reached app o w programs l).Stranded n)
      (Q := fun l i => (reached app o w programs l).Strands i n) ?_ (fun l i hl => ?_) schedule
    · exact fun h => Bool.false_ne_true h.1
    · rw [reached_concat]
      exact not_congr (stranded_step_iff app (serial_run app (serial_start ..) l) hl i)
  · have hmarked (n : String) :
        (reached app o w programs schedule).state.registry.marks.isMarked n = true ↔
          (reached app o w programs schedule).Stranded n := by
      rw [Stranded, builds_of_idle hidle]
      simp
    obtain ⟨ht, hsuppressed⟩ := rest_of_idle app o w programs schedule hidle
    refine ⟨ht, hsuppressed, hmarked, fun i g n c x next stack hi hlock hn hf hc => ⟨?_, ?_⟩⟩
    · intro hmx
      rw [← hmarked] at hmx
      obtain ⟨s, ⟨k, hrun, -⟩, hput⟩ := Leads.create_ok app next stack hn hf ht hmx hc
      refine ⟨k, s, ?_, hput, ?_⟩
      · rw [run_replicate app hi hlock, hrun]
      · rw [hput, Store.final?_put, if_pos rfl]
    · intro hstranded hx
      exact ((Decides.run hi hlock).refuses_iff hn hf ht).1.mpr ⟨(hmarked n).mpr hstranded, hx⟩

end Pool

/-! ### Builds that are given up -/

namespace Sample

/-- An application with three constructs: one excludes "n" from tracking and fails, one panics, and
one returns an instance. Its blocks ask for "n" by the one that panics. -/
def givingUp : Application vocabulary where
  body {g} (c : String) :=
    match g with
    | .construct =>
      if c = "excluding" then do
        let _ ← .ask (.setExcluded "n" true)
        return .error (.creationFailed "n" "gave up" [])
      else if c = "panicking" then .panic (.text "gave up")
      else .done (.ok (5 : Nat))
    | .block => do
      let _ ← .obtainOrCreate "n" "panicking"
      return .ok ()
    | .main => .done ()
    | .producer => .done (0 : Nat)
    | .hook => .done (.ok ())

/-- A program that asks for "n" again after the first build of it has panicked. -/
def panickingMain : Code vocabulary Unit := do
  let _ ← .guard "block" .done
  let _ ← .obtainOrCreate "n" "returning"

theorem obtainable_unless_stranded_panicking :
    ∃ k, ((Pool.reached givingUp .default () [panickingMain] (List.replicate 8 0)).run givingUp
      (List.replicate k 0)).store.final? "n" = some (5 : Nat) := by
  have hidle : (Pool.reached givingUp .default () [panickingMain] (List.replicate 8 0)).Idle :=
    fun t ht => by
      obtain rfl := List.mem_singleton.mp ht
      trivial
  obtain ⟨-, -, hmarked, hrequest⟩ := (Pool.obtainable_unless_stranded givingUp .default ()
    [panickingMain] (List.replicate 8 0)).2 hidle
  obtain ⟨k, s, hrun, -, hfinal⟩ := (hrequest 0 .main "n" "returning" (5 : Nat)
    (fun _ => .done ()) .top rfl rfl (by decide) rfl rfl).1
    fun h => absurd ((hmarked "n").mpr h.1) (by decide)
  exact ⟨k, by rw [hrun]; exact hfinal⟩

/-- A program that asks for "n" again after the first build of it has excluded "n" and failed, and
"n" has been included again. -/
def abandoningMain : Code vocabulary Unit := do
  let _ ← .obtainOrCreate "n" "excluding"
  let _ ← .ask (.setExcluded "n" false)
  let _ ← .obtainOrCreate "n" "returning"

/-- A run of that program, after so many steps. -/
def abandoningRun (k : Nat) : Pool vocabulary :=
  .reached givingUp .default () [abandoningMain] (List.replicate k 0)

/-- No request is in progress and "n" is not final, but a request for it whose construct would
return an instance at once is refused as a cycle. -/
theorem refused_abandoning :
    (abandoningRun 7).Idle ∧ (abandoningRun 7).store.final? "n" = none ∧
    (∃ next, (abandoningRun 7).threads[0]? =
      some (.exec (g := .main) (.create "n" "returning" next) .top)) ∧
    givingUp.body (g := .construct) "returning" = .done (.ok (5 : Nat)) ∧
    ∃ t, (abandoningRun 10).Takes 0 t ∧
      t.occurrence (abandoningRun 10).state = some (.created "n" (.error (.cycle "n"))) := by
  refine ⟨fun t ht => ?_, rfl, ⟨_, rfl⟩, rfl, ⟨_, ⟨rfl, rfl⟩, rfl⟩⟩
  obtain rfl := List.mem_singleton.mp ht
  trivial

end Sample

end Wiring
