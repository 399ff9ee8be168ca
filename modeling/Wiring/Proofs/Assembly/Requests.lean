import Wiring.Proofs.Assembly.View
import Wiring.Proofs.Occurrence

/-!
# Lookups and build requests of a single thread

How a lookup and a build request go, from where the code asks to where it goes on, for a name about
which the registry holds what it may hold while components are built: the name is final, it is
marked with or without something staged, or nothing is known about it.

## Main results

* `Wiring.Leads.lookup_final`, `Wiring.Leads.lookup_unmarked`, `Wiring.Leads.lookup_early`,
  `Wiring.Leads.lookup_producer`, `Wiring.Leads.lookup_unstaged` — how a lookup goes.
* `Wiring.Leads.create_final`, `Wiring.Leads.create_begun`, `Wiring.Leads.create_cycle` — how a
  build request goes.
* `Wiring.Leads.resolve_final`, `Wiring.Leads.resolve_early`, `Wiring.Leads.resolve_producer`,
  `Wiring.Leads.resolve_cycle`, `Wiring.Leads.resolve_unmarked` — how resolving a name goes.
* `Wiring.Leads.settle_build` — how a build ends.
-/

namespace Wiring.Leads

variable {v : Vocabulary} {app : Application v} {s : State v} {g : Goal} {n : String}
  {stack : Stack v g}

theorem single {t : Thread v} {c : State v × Thread v} {l : List (Occurrence v)}
    (ht : t.step app s = c) (ho : (t.occurrence s).toList = l) : Leads app (s, t) l c := by
  subst ht ho
  simpa using head (refl (t.step app s))

/-! ### Lookups -/

section Lookup

variable {early : Bool} {next : Option v.Inst → Code v (g.Result v.Inst)}

theorem lookup_final {i : v.Inst} (hf : s.registry.store.final? n = some i) :
    Leads app (s, .exec (.lookup n early next) stack) [.found n (some i)]
      (s, .exec (next (some i)) stack) := by
  refine single ?_ ?_
  · simp [Thread.step, execStep, hf]
  · simp [Thread.occurrence, execOccurrence, hf]

theorem lookup_begun (hf : s.registry.store.final? n = none) :
    Leads app (s, .exec (.lookup n early next) stack) []
      (s, .seek .reading n early next stack) := by
  refine single ?_ ?_
  · simp [Thread.step, execStep, hf]
  · simp [Thread.occurrence, execOccurrence, hf]

/-- A name that is neither final nor marked is not found. -/
theorem lookup_unmarked (hf : s.registry.store.final? n = none)
    (hm : s.registry.marks.isMarked n = false) :
    Leads app (s, .exec (.lookup n early next) stack) [.found n none]
      (s, .exec (next none) stack) := by
  refine (lookup_begun hf).trans (single ?_ ?_)
  · simp [Thread.step, seekStep, hm]
  · simp [Thread.occurrence, seekOccurrence, hm]

/-- A marked name is looked for among the early instances. -/
theorem lookup_marked (hf : s.registry.store.final? n = none)
    (hm : s.registry.marks.isMarked n = true) :
    Leads app (s, .exec (.lookup n early next) stack) []
      (s, .seek .inside n early next stack) := by
  have hread : Leads app (s, .seek .reading n early next stack) []
      (s, .seek .waiting n early next stack) := by
    refine single ?_ ?_
    · simp [Thread.step, seekStep, hm]
    · simp [Thread.occurrence, seekOccurrence, hm]
  exact (lookup_begun hf).trans (hread.trans (single rfl rfl))

theorem lookup_early {i : v.Inst} (hc : s.registry.options.circular = true)
    (hf : s.registry.store.final? n = none) (hm : s.registry.marks.isMarked n = true)
    (hi : s.registry.store.early? n = some i) :
    ∃ s', Leads app (s, .exec (.lookup n true next) stack) [.found n (some i)]
        (s', .exec (next (some i)) stack) ∧
      s'.registry = s.registry ∧ s'.world = s.world := by
  have hseek : s.registry.store.seek n = .early i := by simp [Store.seek, hi]
  refine ⟨s.report stack.depth (.earlyReturned n), ?_, rfl, rfl⟩
  refine (lookup_marked hf hm).trans (single ?_ ?_)
  · simp [Thread.step, seekStep, hf, hc, hseek]
  · simp [Thread.occurrence, seekOccurrence, hf, hc, hseek]

/-- A producer that returns at once is run, and what it makes is found. -/
theorem lookup_producer {i : v.Inst} {p : v.Closure .producer} (hp : app.body p = .done i)
    (hc : s.registry.options.circular = true) (hf : s.registry.store.final? n = none)
    (hm : s.registry.marks.isMarked n = true) (he : s.registry.store.early? n = none)
    (hfind : s.registry.store.producers.find? n = some p) :
    ∃ s', Leads app (s, .exec (.lookup n true next) stack) [.found n (some i)]
        (s', .exec (next (some i)) stack) ∧
      s'.registry.view n = { s.registry.view n with early := some i, producer := none } ∧
      s.registry.SameOff {n} s'.registry ∧ s'.registry.suppressed = s.registry.suppressed ∧
      s'.world = s.world := by
  let store : Store v.Inst (v.Closure .producer) :=
    { s.registry.store with producers := s.registry.store.producers.erase n }
  have hseek : s.registry.store.seek n = .pending p store := by simp [Store.seek, he, hfind, store]
  obtain ⟨hview, hoff, hmemo⟩ := Registry.view_memoize (i := i) hseek
  let s₁ := (s.withRegistry { s.registry with store := store }).report stack.depth (.producing n)
  have hrun : Leads app (s, .seek .inside n true next stack) []
      (s₁, .exec (g := .producer) (.done i) (.producing n next stack)) := by
    refine single ?_ ?_
    · simp [Thread.step, seekStep, hf, hc, hseek, hp, s₁]
    · simp [Thread.occurrence, seekOccurrence, hf, hc, hseek]
  have hback : Leads app (s₁, .exec (g := .producer) (.done i) (.producing n next stack))
      [.found n (some i)] ((s₁.withRegistry { s₁.registry with
        store := (store.memoize n i).2 }).report stack.depth (.earlyReturned n),
        .exec (next (some i)) stack) := by
    refine single ?_ ?_
    · simp [Thread.step, execStep, Stack.leave, s₁, State.report, State.write, State.withRegistry,
        hmemo]
    · simp [Thread.occurrence, execOccurrence, Stack.occurrence, s₁, State.report, State.write,
        State.withRegistry, hmemo]
  exact ⟨_, (lookup_marked hf hm).trans (hrun.trans hback), hview, hoff, rfl, rfl⟩

/-- A marked name for which nothing is staged is not found. -/
theorem lookup_unstaged (hf : s.registry.store.final? n = none)
    (hm : s.registry.marks.isMarked n = true) (he : s.registry.store.early? n = none)
    (hp : s.registry.store.producers.find? n = none) :
    Leads app (s, .exec (.lookup n early next) stack) [.found n none]
      (s, .exec (next none) stack) := by
  have hseek : s.registry.store.seek n = .nothing := by simp [Store.seek, he, hp]
  refine (lookup_marked hf hm).trans (single ?_ ?_)
  · simp only [Thread.step, seekStep, hf, hseek, he]
    split <;> rfl
  · simp [Thread.occurrence, seekOccurrence, hf, hseek, he]

end Lookup

/-! ### Build requests -/

section Create

variable {c : v.Closure .construct} {next : Except Error v.Inst → Code v (g.Result v.Inst)}

theorem create_asked (hn : n ≠ "") :
    Leads app (s, .exec (.create n c next) stack) [] (s, .begin .reading n c next stack) := by
  refine single ?_ ?_
  · simp [Thread.step, execStep, checkName, hn]
  · simp [Thread.occurrence, execOccurrence, checkName, hn]

/-- A request for a final name is answered with its instance. -/
theorem create_final {i : v.Inst} (hn : n ≠ "") (hf : s.registry.store.final? n = some i) :
    Leads app (s, .exec (.create n c next) stack) [.created n (.ok i)]
      (s.report stack.depth (.cachedReturned n), .exec (next (.ok i)) stack) := by
  refine (create_asked hn).trans (single ?_ ?_)
  · simp [Thread.step, beginStep, hf]
  · simp [Thread.occurrence, beginOccurrence, hf]

theorem create_inside (hn : n ≠ "") (hf : s.registry.store.final? n = none) :
    Leads app (s, .exec (.create n c next) stack) [] (s, .begin .inside n c next stack) := by
  have hread : Leads app (s, .begin .reading n c next stack) []
      (s, .begin .waiting n c next stack) := by
    refine single ?_ ?_
    · simp [Thread.step, beginStep, hf]
    · simp [Thread.occurrence, beginOccurrence, hf]
  exact (create_asked hn).trans (hread.trans (single rfl rfl))

section

variable (app stack c next)

/-- The construct of a name about which nothing is known is begun. -/
theorem create_begun (hn : n ≠ "") (hf : s.registry.store.final? n = none)
    (ht : s.registry.tearingDown = false) (hm : s.registry.marks.isMarked n = false)
    (hx : s.registry.marks.isExcluded n = false) :
    ∃ s', Leads app (s, .exec (.create n c next) stack) [.constructBegun n]
        (s', .exec (app.body c) (.building n s.registry.suppressed.isNone next stack)) ∧
      s'.registry.view n = { s.registry.view n with marked := true } ∧
      s.registry.SameOff {n} s'.registry ∧
      s'.registry.suppressed = some (s.registry.suppressed.getD []) ∧ s'.world = s.world := by
  obtain ⟨r', hopen, hview, hoff, hsup⟩ := Registry.openBuild_of_unmarked hm hx
  refine ⟨(s.report stack.depth (.creating n)).withRegistry r', ?_, hview, hoff, hsup, rfl⟩
  refine (create_inside hn hf).trans (single ?_ ?_)
  · simp [Thread.step, beginStep, hf, ht, hopen]
  · simp [Thread.occurrence, beginOccurrence, hf, ht, hopen]

/-- A request for a name that is being built is refused as a cycle. -/
theorem create_cycle (hn : n ≠ "") (hf : s.registry.store.final? n = none)
    (ht : s.registry.tearingDown = false) (hm : s.registry.marks.isMarked n = true)
    (hx : s.registry.marks.isExcluded n = false) :
    ∃ s', Leads app (s, .exec (.create n c next) stack) [.created n (.error (.cycle n))]
        (s', .exec (next (.error (.cycle n))) stack) ∧
      s'.registry = s.registry ∧ s'.world = s.world := by
  have hopen := Registry.openBuild_of_marked hm hx
  refine ⟨s.report stack.depth (.creating n), ?_, rfl, rfl⟩
  refine (create_inside hn hf).trans (single ?_ ?_)
  · simp [Thread.step, beginStep, hf, ht, hopen]
  · simp [Thread.occurrence, beginOccurrence, hf, ht, hopen]

end

/-! ### Resolving -/

theorem resolve_final {i : v.Inst} (hf : s.registry.store.final? n = some i) :
    Leads app (s, .exec ((Code.resolve n c).bind next) stack) [.found n (some i)]
      (s, .exec (next (.ok i)) stack) := by
  rw [Code.resolve_bind]
  exact lookup_final hf

variable (app stack c next)

theorem resolve_early {i : v.Inst} (hc : s.registry.options.circular = true)
    (hf : s.registry.store.final? n = none) (hm : s.registry.marks.isMarked n = true)
    (hi : s.registry.store.early? n = some i) :
    ∃ s', Leads app (s, .exec ((Code.resolve n c).bind next) stack) [.found n (some i)]
        (s', .exec (next (.ok i)) stack) ∧
      s'.registry = s.registry ∧ s'.world = s.world := by
  rw [Code.resolve_bind]
  exact lookup_early hc hf hm hi

theorem resolve_producer {i : v.Inst} {p : v.Closure .producer} (hp : app.body p = .done i)
    (hc : s.registry.options.circular = true) (hf : s.registry.store.final? n = none)
    (hm : s.registry.marks.isMarked n = true) (he : s.registry.store.early? n = none)
    (hfind : s.registry.store.producers.find? n = some p) :
    ∃ s', Leads app (s, .exec ((Code.resolve n c).bind next) stack) [.found n (some i)]
        (s', .exec (next (.ok i)) stack) ∧
      s'.registry.view n = { s.registry.view n with early := some i, producer := none } ∧
      s.registry.SameOff {n} s'.registry ∧ s'.registry.suppressed = s.registry.suppressed ∧
      s'.world = s.world := by
  rw [Code.resolve_bind]
  exact lookup_producer hp hc hf hm he hfind

/-- A marked name for which nothing is staged cannot be resolved. -/
theorem resolve_cycle (hn : n ≠ "") (hf : s.registry.store.final? n = none)
    (ht : s.registry.tearingDown = false) (hm : s.registry.marks.isMarked n = true)
    (hx : s.registry.marks.isExcluded n = false) (he : s.registry.store.early? n = none)
    (hp : s.registry.store.producers.find? n = none) :
    ∃ s', Leads app (s, .exec ((Code.resolve n c).bind next) stack)
        [.found n none, .created n (.error (.cycle n))]
        (s', .exec (next (.error (.cycle n))) stack) ∧
      s'.registry = s.registry ∧ s'.world = s.world := by
  rw [Code.resolve_bind]
  obtain ⟨s', hrun, hr, hw⟩ := create_cycle app stack c next hn hf ht hm hx
  exact ⟨s', (lookup_unstaged hf hm he hp).trans hrun, hr, hw⟩

/-- A name about which nothing is known is resolved by asking for a build. -/
theorem resolve_unmarked (hf : s.registry.store.final? n = none)
    (hm : s.registry.marks.isMarked n = false) :
    Leads app (s, .exec ((Code.resolve n c).bind next) stack) [.found n none]
      (s, .exec (.create n c next) stack) := by
  rw [Code.resolve_bind]
  exact lookup_unmarked hf hm

/-! ### The end of a build -/

variable (s n)

/-- When a construct returns, the request is answered as the registry settles it. -/
theorem settle_build (outermost : Bool) (r : Except Error v.Inst) :
    ∃ s', Leads app (s, .exec (g := .construct) (.done r) (.building n outermost next stack))
        [.created n (s.registry.settle n outermost r).reply]
        (s', .exec (next (s.registry.settle n outermost r).reply) stack) ∧
      s'.registry = (s.registry.settle n outermost r).registry ∧ s'.world = s.world := by
  exact ⟨s.after stack.depth (s.registry.settle n outermost r), single rfl rfl,
    s.registry_after .., s.world_after ..⟩

end Create

end Wiring.Leads
