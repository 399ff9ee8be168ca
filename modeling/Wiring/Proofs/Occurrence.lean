import Wiring.Machine

/-!
# What happens in a run

A run is judged by what it lets the application see: which constructs and hooks were begun, and how
requests were answered. An *occurrence* is one such thing. Every step shows at most one, and which
one can be told from the state and the thread before the step. An occurrence that answers a request
is tied to the machine by `Wiring.Thread.step_of_created` and its relatives: the code that waited
for the answer goes on with the value that the occurrence names.

## Main definitions

* `Wiring.Occurrence` — what a step may show.
* `Wiring.Thread.occurrence` — what the next step of a thread shows.
* `Wiring.happened` — what the first steps of a run of a single thread show, in order.
* `Wiring.EndsAfter` — the request that a thread is about to make ends with a certain step.
* `Wiring.Leads` — a run of a single thread from one place to another, with what it shows.

## Main results

* `Wiring.Thread.step_of_created`, `Wiring.Thread.step_of_found`,
  `Wiring.Thread.calling_of_answered` — the waiting code goes on with the answer.
* `Wiring.Thread.begin_of_constructBegun`, `Wiring.Thread.walk_of_hookBegun` — when a construct or a
  hook is begun.
* `Wiring.Leads.trans` — runs compose, and what they show is joined.
-/

namespace Wiring

variable {v : Vocabulary}

/-- What a step of a thread shows. -/
inductive Occurrence (v : Vocabulary) where
  /-- The construct of a name is begun. -/
  | constructBegun (n : String)
  /-- The hook of a component is begun. -/
  | hookBegun (n : String)
  /-- The request for the final instance of a name is answered. -/
  | created (n : String) (r : Except Error v.Inst)
  /-- A lookup of a name is answered. -/
  | found (n : String) (r : Option v.Inst)
  /-- A request that runs no code is answered. -/
  | answered (q : Request v) (r : q.Reply)

/-! ### What a step shows -/

/-- What is shown when a value is returned to the innermost waiting request. -/
def Stack.occurrence (s : State v) :
    {g : Goal} → Stack v g → g.Result v.Inst → Option (Occurrence v)
  | _, .building n outermost _ _, r => some (.created n (s.registry.settle n outermost r).reply)
  | _, .producing n _ _, i => some (.found n (some (s.registry.store.memoize n i).1))
  | _, .top, _ | _, .tearing .., _ | _, .holding .., _ | _, .guarding .., _ => none

/-- What a step of a lookup shows. -/
def seekOccurrence (s : State v) (n : String) (early : Bool) : Stage → Option (Occurrence v)
  | .reading => if s.registry.marks.isMarked n then none else some (.found n none)
  | .waiting => none
  | .inside =>
    match s.registry.store.final? n with
    | some i => some (.found n (some i))
    | none =>
      if early && s.registry.options.circular then
        match s.registry.store.seek n with
        | .nothing => some (.found n none)
        | .early i => some (.found n (some i))
        | .pending .. => none
      else some (.found n (s.registry.store.early? n))

/-- What a step of a build request shows. -/
def beginOccurrence (s : State v) (n : String) : Stage → Option (Occurrence v)
  | .reading => (s.registry.store.final? n).map fun i => .created n (.ok i)
  | .waiting => none
  | .inside =>
    match s.registry.store.final? n with
    | some i => some (.created n (.ok i))
    | none =>
      if s.registry.tearingDown then some (.created n (.error (.tearingDown n)))
      else
        match s.registry.openBuild n with
        | .error e => some (.created n (.error e))
        | .ok _ => some (.constructBegun n)

/-- What a step of code shows. -/
def execOccurrence (s : State v) {g : Goal} (stack : Stack v g) :
    Code v (g.Result v.Inst) → Option (Occurrence v)
  | .done a => stack.occurrence s a
  | .call q _ => some (.answered q (q.answer s.registry).reply)
  | .lookup n _ _ => (s.registry.store.final? n).map fun i => .found n (some i)
  | .create n _ _ =>
    match checkName n with
    | .error e => some (.created n (.error e))
    | .ok () => none
  | .panic _ | .note .. | .access .. | .destroy .. | .destroyAll _ | .hold .. | .guard .. => none

namespace Thread

/-- What the next step of a thread shows. -/
def occurrence (s : State v) : Thread v → Option (Occurrence v)
  | .exec code stack => execOccurrence s stack code
  | .seek stage n early _ _ => seekOccurrence s n early stage
  | .begin stage n _ _ _ => beginOccurrence s n stage
  | .walk (.hook n _ :: _) _ _ => some (.hookBegun n)
  | .walk .. | .unwind .. | .finished _ => none

/-! ### Answers reach the code that waits for them -/

/-- The thread is in the middle of a request for the final instance of `n`, and `resume` goes on on
`stack` with the answer. -/
inductive Creating (n : String) {g : Goal} (resume : Except Error v.Inst → Code v (g.Result v.Inst))
    (stack : Stack v g) : Thread v → Prop
  | asked (c : v.Closure .construct) : Creating n resume stack (.exec (.create n c resume) stack)
  | begun (stage : Stage) (c : v.Closure .construct) :
      Creating n resume stack (.begin stage n c resume stack)
  | built (outermost : Bool) (r : Except Error v.Inst) :
      Creating n resume stack
        (.exec (g := .construct) (.done r) (.building n outermost resume stack))

/-- The thread is in the middle of a lookup of `n`, and `resume` goes on on `stack` with the
answer. -/
inductive Seeking (n : String) {g : Goal} (resume : Option v.Inst → Code v (g.Result v.Inst))
    (stack : Stack v g) : Thread v → Prop
  | asked (early : Bool) : Seeking n resume stack (.exec (.lookup n early resume) stack)
  | begun (stage : Stage) (early : Bool) : Seeking n resume stack (.seek stage n early resume stack)
  | produced (i : v.Inst) :
      Seeking n resume stack (.exec (g := .producer) (.done i) (.producing n resume stack))

/-- A step of a build request that shows something begins the construct or answers the request. -/
theorem snd_beginStep {s : State v} {g : Goal} {n : String} (c : v.Closure .construct)
    (resume : Except Error v.Inst → Code v (g.Result v.Inst)) (stack : Stack v g) {stage : Stage}
    {o : Occurrence v} (h : beginOccurrence s n stage = some o) :
    o = .constructBegun n ∨ ∃ r, o = .created n r ∧
      ∀ app, (beginStep app s n c resume stack stage).2 = .exec (resume r) stack := by
  cases stage with
  | reading =>
    cases hf : s.registry.store.final? n with
    | none => simp [beginOccurrence, hf] at h
    | some i =>
      obtain rfl : .created n (.ok i) = o := by simpa [beginOccurrence, hf] using h
      exact .inr ⟨.ok i, rfl, fun app => by simp [beginStep, hf]⟩
  | waiting => cases h
  | inside =>
    cases hf : s.registry.store.final? n with
    | some i =>
      obtain rfl : .created n (.ok i) = o := by simpa [beginOccurrence, hf] using h
      exact .inr ⟨.ok i, rfl, fun app => by simp [beginStep, hf]⟩
    | none =>
      cases ht : s.registry.tearingDown with
      | true =>
        obtain rfl : .created n (.error (.tearingDown n)) = o := by
          simpa [beginOccurrence, hf, ht] using h
        exact .inr ⟨_, rfl, fun app => by simp [beginStep, hf, ht]⟩
      | false =>
        cases ho : s.registry.openBuild n with
        | error e =>
          obtain rfl : .created n (.error e) = o := by simpa [beginOccurrence, hf, ht, ho] using h
          exact .inr ⟨_, rfl, fun app => by simp [beginStep, hf, ht, ho]⟩
        | ok r =>
          obtain rfl : .constructBegun n = o := by simpa [beginOccurrence, hf, ht, ho] using h
          exact .inl rfl

/-- A step of a lookup that shows something answers the lookup. -/
theorem snd_seekStep {s : State v} {g : Goal} {n : String} {early : Bool}
    (resume : Option v.Inst → Code v (g.Result v.Inst)) (stack : Stack v g) {stage : Stage}
    {o : Occurrence v} (h : seekOccurrence s n early stage = some o) :
    ∃ r, o = .found n r ∧
      ∀ app, (seekStep app s n early resume stack stage).2 = .exec (resume r) stack := by
  cases stage with
  | reading =>
    cases hm : s.registry.marks.isMarked n with
    | true => simp [seekOccurrence, hm] at h
    | false =>
      obtain rfl : .found n none = o := by simpa [seekOccurrence, hm] using h
      exact ⟨none, rfl, fun app => by simp [seekStep, hm]⟩
  | waiting => cases h
  | inside =>
    cases hf : s.registry.store.final? n with
    | some i =>
      obtain rfl : .found n (some i) = o := by simpa [seekOccurrence, hf] using h
      exact ⟨some i, rfl, fun app => by simp [seekStep, hf]⟩
    | none =>
      cases he : early && s.registry.options.circular with
      | true =>
        cases hs : s.registry.store.seek n with
        | nothing =>
          obtain rfl : .found n none = o := by
            simpa only [seekOccurrence, hf, he, hs, if_true, Option.some.injEq] using h
          exact ⟨none, rfl, fun app => by simp only [seekStep, hf, he, hs, if_true]⟩
        | early i =>
          obtain rfl : .found n (some i) = o := by
            simpa only [seekOccurrence, hf, he, hs, if_true, Option.some.injEq] using h
          exact ⟨some i, rfl, fun app => by simp only [seekStep, hf, he, hs, if_true]⟩
        | pending p store => simp only [seekOccurrence, hf, he, hs, if_true, reduceCtorEq] at h
      | false =>
        obtain rfl : .found n (s.registry.store.early? n) = o := by
          simpa only [seekOccurrence, hf, he, Bool.false_eq_true, if_false, Option.some.injEq]
            using h
        refine ⟨_, rfl, fun app => ?_⟩
        simp only [seekStep, hf, he, Bool.false_eq_true, if_false]
        split <;> simp [*]

/-- A teardown shows nothing but hooks. -/
theorem eq_hookBegun_of_walk {s : State v} {todo : List (Task v)} {g : Goal}
    {next : Code v (g.Result v.Inst)} {stack : Stack v g} {o : Occurrence v}
    (h : occurrence s (.walk todo next stack) = some o) : ∃ n, o = .hookBegun n := by
  cases todo with
  | nil => cases h
  | cons task rest =>
    cases task with
    | hook n k => exact ⟨n, (Option.some.inj h).symm⟩
    | _ => cases h

/-- Where a request for a final instance is answered, the code that waits for it goes on with the
answer. -/
theorem step_of_created {s : State v} {t : Thread v} {n : String} {r : Except Error v.Inst}
    (h : t.occurrence s = some (.created n r)) :
    ∃ (g : Goal) (resume : Except Error v.Inst → Code v (g.Result v.Inst)) (stack : Stack v g),
      t.Creating n resume stack ∧ ∀ app, (t.step app s).2 = .exec (resume r) stack := by
  cases t with
  | exec code stack =>
    cases code with
    | done a =>
      cases stack with
      | building m outermost resume rest =>
        obtain ⟨rfl, rfl⟩ : m = n ∧ (s.registry.settle m outermost a).reply = r := by
          simpa [occurrence, execOccurrence, Stack.occurrence] using h
        exact ⟨_, resume, rest, .built outermost a, fun _ => rfl⟩
      | _ => simp [occurrence, execOccurrence, Stack.occurrence] at h
    | create m c next =>
      cases hn : checkName m with
      | error e =>
        obtain ⟨rfl, rfl⟩ : m = n ∧ Except.error e = r := by
          simpa [occurrence, execOccurrence, hn] using h
        exact ⟨_, next, stack, .asked c, fun app => by simp [step, execStep, hn]⟩
      | ok u => simp [occurrence, execOccurrence, hn] at h
    | _ => simp [occurrence, execOccurrence] at h
  | begin stage m c resume stack =>
    obtain ho | ⟨r', ho, hs⟩ := snd_beginStep c resume stack h
    · cases ho
    · cases ho
      exact ⟨_, resume, stack, .begun stage c, hs⟩
  | seek stage m early resume stack =>
    obtain ⟨r', ho, -⟩ := snd_seekStep resume stack h
    cases ho
  | walk todo next stack =>
    obtain ⟨m, ho⟩ := eq_hookBegun_of_walk h
    cases ho
  | unwind p stack => cases h
  | finished outcome => cases h

/-- Where a lookup is answered, the code that waits for it goes on with the answer. -/
theorem step_of_found {s : State v} {t : Thread v} {n : String} {r : Option v.Inst}
    (h : t.occurrence s = some (.found n r)) :
    ∃ (g : Goal) (resume : Option v.Inst → Code v (g.Result v.Inst)) (stack : Stack v g),
      t.Seeking n resume stack ∧ ∀ app, (t.step app s).2 = .exec (resume r) stack := by
  cases t with
  | exec code stack =>
    cases code with
    | done a =>
      cases stack with
      | producing m resume rest =>
        obtain ⟨rfl, rfl⟩ : m = n ∧ some (s.registry.store.memoize m a).1 = r := by
          simpa [occurrence, execOccurrence, Stack.occurrence] using h
        exact ⟨_, resume, rest, .produced a, fun _ => rfl⟩
      | _ => simp [occurrence, execOccurrence, Stack.occurrence] at h
    | lookup m early next =>
      cases hf : s.registry.store.final? m with
      | none => simp [occurrence, execOccurrence, hf] at h
      | some i =>
        obtain ⟨rfl, rfl⟩ : m = n ∧ some i = r := by
          simpa [occurrence, execOccurrence, hf] using h
        exact ⟨_, next, stack, .asked early, fun app => by simp [step, execStep, hf]⟩
    | create m c next =>
      cases hn : checkName m <;> simp [occurrence, execOccurrence, hn] at h
    | _ => simp [occurrence, execOccurrence] at h
  | begin stage m c resume stack =>
    obtain ho | ⟨r', ho, -⟩ := snd_beginStep c resume stack h
    · cases ho
    · cases ho
  | seek stage m early resume stack =>
    obtain ⟨r', ho, hs⟩ := snd_seekStep resume stack h
    cases ho
    exact ⟨_, resume, stack, .begun stage early, hs⟩
  | walk todo next stack =>
    obtain ⟨m, ho⟩ := eq_hookBegun_of_walk h
    cases ho
  | unwind p stack => cases h
  | finished outcome => cases h

/-- Only a request that is made is answered. -/
theorem calling_of_answered {s : State v} {t : Thread v} {q : Request v} {r : q.Reply}
    (h : t.occurrence s = some (.answered q r)) :
    ∃ (g : Goal) (next : q.Reply → Code v (g.Result v.Inst)) (stack : Stack v g),
      t = .exec (.call q next) stack ∧ r = (q.answer s.registry).reply := by
  cases t with
  | exec code stack =>
    cases code with
    | done a =>
      cases stack <;> simp [occurrence, execOccurrence, Stack.occurrence] at h
    | call q' next =>
      cases h
      exact ⟨_, next, stack, rfl, rfl⟩
    | lookup m early next =>
      cases hf : s.registry.store.final? m <;> simp [occurrence, execOccurrence, hf] at h
    | create m c next => cases hn : checkName m <;> simp [occurrence, execOccurrence, hn] at h
    | _ => simp [occurrence, execOccurrence] at h
  | seek stage m early resume stack =>
    have hs : seekOccurrence s m early stage = some (.answered q r) := h
    obtain ⟨r', ho, -⟩ := snd_seekStep resume stack hs
    cases ho
  | begin stage m c resume stack =>
    have hs : beginOccurrence s m stage = some (.answered q r) := h
    obtain ho | ⟨r', ho, -⟩ := snd_beginStep c resume stack hs
    · cases ho
    · cases ho
  | walk todo next stack =>
    obtain ⟨m, ho⟩ := eq_hookBegun_of_walk h
    cases ho
  | unwind p stack => cases h
  | finished outcome => cases h

/-- A construct is begun only by a build request that has the lock, for a name that is not final
while no teardown is under way. -/
theorem begin_of_constructBegun {s : State v} {t : Thread v} {n : String}
    (h : t.occurrence s = some (.constructBegun n)) :
    ∃ (g : Goal) (c : v.Closure .construct)
      (resume : Except Error v.Inst → Code v (g.Result v.Inst)) (stack : Stack v g),
      t = .begin .inside n c resume stack ∧ s.registry.store.final? n = none ∧
        s.registry.tearingDown = false := by
  cases t with
  | exec code stack =>
    cases code with
    | done a => cases stack <;> simp [occurrence, execOccurrence, Stack.occurrence] at h
    | lookup m early next =>
      cases hf : s.registry.store.final? m <;> simp [occurrence, execOccurrence, hf] at h
    | create m c next => cases hn : checkName m <;> simp [occurrence, execOccurrence, hn] at h
    | _ => simp [occurrence, execOccurrence] at h
  | seek stage m early resume stack =>
    have hs : seekOccurrence s m early stage = some (.constructBegun n) := h
    obtain ⟨r', ho, -⟩ := snd_seekStep resume stack hs
    cases ho
  | begin stage m c resume stack =>
    cases stage with
    | reading =>
      cases hf : s.registry.store.final? m <;> simp [occurrence, beginOccurrence, hf] at h
    | waiting => cases h
    | inside =>
      cases hf : s.registry.store.final? m with
      | some i => simp [occurrence, beginOccurrence, hf] at h
      | none =>
        cases ht : s.registry.tearingDown with
        | true => simp [occurrence, beginOccurrence, hf, ht] at h
        | false =>
          cases ho : s.registry.openBuild m with
          | error e => simp [occurrence, beginOccurrence, hf, ht, ho] at h
          | ok r =>
            obtain rfl : m = n := by simpa [occurrence, beginOccurrence, hf, ht, ho] using h
            exact ⟨_, c, resume, stack, rfl, hf, rfl⟩
  | walk todo next stack =>
    obtain ⟨m, ho⟩ := eq_hookBegun_of_walk h
    cases ho
  | unwind p stack => cases h
  | finished outcome => cases h

/-- A hook is begun only by a teardown whose next task it is. -/
theorem walk_of_hookBegun {s : State v} {t : Thread v} {n : String}
    (h : t.occurrence s = some (.hookBegun n)) :
    ∃ (g : Goal) (hook : v.Closure .hook) (todo : List (Task v))
      (next : Code v (g.Result v.Inst)) (stack : Stack v g),
      t = .walk (.hook n hook :: todo) next stack := by
  cases t with
  | exec code stack =>
    cases code with
    | done a => cases stack <;> simp [occurrence, execOccurrence, Stack.occurrence] at h
    | lookup m early next =>
      cases hf : s.registry.store.final? m <;> simp [occurrence, execOccurrence, hf] at h
    | create m c next => cases hn : checkName m <;> simp [occurrence, execOccurrence, hn] at h
    | _ => simp [occurrence, execOccurrence] at h
  | seek stage m early resume stack =>
    have hs : seekOccurrence s m early stage = some (.hookBegun n) := h
    obtain ⟨r', ho, -⟩ := snd_seekStep resume stack hs
    cases ho
  | begin stage m c resume stack =>
    have hs : beginOccurrence s m stage = some (.hookBegun n) := h
    obtain ho | ⟨r', ho, -⟩ := snd_beginStep c resume stack hs
    · cases ho
    · cases ho
  | walk todo next stack =>
    cases todo with
    | nil => cases h
    | cons task todo =>
      cases task with
      | hook m hook =>
        cases h
        exact ⟨_, hook, todo, next, stack, rfl⟩
      | _ => cases h
  | unwind p stack => cases h
  | finished outcome => cases h

/-! ### Where a lookup comes from -/

/-- How a thread gets to where it looks up a name: the step changes nothing, and shows that the name
is not final, later that it is marked. -/
theorem of_step_eq_seek (app : Application v) {s : State v} {t : Thread v} {g : Goal}
    {stage : Stage} {n : String} {early : Bool} {resume : Option v.Inst → Code v (g.Result v.Inst)}
    {stack : Stack v g} (h : (t.step app s).2 = .seek stage n early resume stack) :
    (t.step app s).1 = s ∧
      (stage = .reading ∧ s.registry.store.final? n = none ∨
        stage = .waiting ∧ s.registry.marks.isMarked n = true ∨
        stage = .inside ∧ t = .seek .waiting n early resume stack) := by
  cases t with
  | exec code stack' =>
    cases code with
    | done a =>
      cases stack' with
      | tearing m todo next rest => cases a <;> cases h
      | _ => cases h
    | lookup m early' next =>
      simp only [step, execStep] at h ⊢
      split at h
      · cases h
      · next hf =>
        cases h
        exact ⟨rfl, .inl ⟨rfl, hf⟩⟩
    | create m c next =>
      simp only [step, execStep] at h
      split at h <;> cases h
    | _ => cases h
  | seek stage' m early' resume' stack' =>
    cases stage' with
    | reading =>
      simp only [step, seekStep] at h ⊢
      split at h
      · next hm =>
        cases h
        exact ⟨by simp [hm], .inr (.inl ⟨rfl, hm⟩)⟩
      · cases h
    | waiting =>
      cases h
      exact ⟨rfl, .inr (.inr ⟨rfl, rfl⟩)⟩
    | inside =>
      simp only [step, seekStep] at h
      split at h
      · cases h
      · split at h <;> split at h <;> cases h
  | begin stage' m c resume' stack' =>
    cases stage' with
    | reading =>
      simp only [step, beginStep] at h
      split at h <;> cases h
    | waiting => cases h
    | inside =>
      simp only [step, beginStep] at h
      split at h
      · cases h
      · split at h
        · cases h
        · split at h <;> cases h
  | walk todo next stack' =>
    cases todo with
    | nil => cases h
    | cons task todo => cases task <;> cases h
  | unwind p stack' => cases stack' <;> cases h
  | finished outcome => cases h

end Thread

/-! ### Runs -/

theorem run_succ (app : Application v) (k : Nat) (s : State v) (t : Thread v) :
    run app (k + 1) (s, t) = run app k (t.step app s) := by
  cases t with
  | finished outcome => cases k <;> rfl
  | _ => rfl

/-- The last step of a run. -/
theorem run_succ_last (app : Application v) (k : Nat) (c : State v × Thread v) :
    run app (k + 1) c = (run app k c).2.step app (run app k c).1 := by
  induction k generalizing c with
  | zero => exact run_succ app 0 c.1 c.2
  | succ k ih => rw [run_succ app (k + 1) c.1 c.2, ih, ← run_succ app k c.1 c.2]

theorem run_add (app : Application v) (j k : Nat) (c : State v × Thread v) :
    run app (j + k) c = run app k (run app j c) := by
  induction j generalizing c with
  | zero => rw [Nat.zero_add]; rfl
  | succ j ih => rw [Nat.add_right_comm, run_succ app (j + k) c.1 c.2, ih, ← run_succ]

/-- The number of closures and requests that a thread is in. -/
def Thread.depth : Thread v → Nat
  | .exec _ stack | .unwind _ stack => stack.depth
  | .seek _ _ _ _ stack | .begin _ _ _ _ stack | .walk _ _ stack => stack.depth + 1
  | .finished _ => 0

/-- The request that a thread is about to make ends with step `k`: the thread is no deeper then than
it was at first, but it was deeper all the time in between. -/
structure EndsAfter (app : Application v) (c : State v × Thread v) (k : Nat) : Prop where
  pos : 0 < k
  back : (run app k c).2.depth ≤ c.2.depth
  inside : ∀ j, 0 < j → j < k → c.2.depth < (run app j c).2.depth

/-- A request ends only once. -/
theorem EndsAfter.eq {app : Application v} {c : State v × Thread v} {j k : Nat}
    (h : EndsAfter app c j) (h' : EndsAfter app c k) : j = k := by
  obtain hlt | heq | hlt := Nat.lt_trichotomy j k
  · exact absurd h.back (Nat.not_le.mpr (h'.inside j h.pos hlt))
  · exact heq
  · exact absurd h'.back (Nat.not_le.mpr (h.inside k h'.pos hlt))

/-- A request ends when, after its first step, the thread gets back. -/
theorem endsAfter_succ_iff {app : Application v} {s : State v} {t : Thread v} {k : Nat} :
    EndsAfter app (s, t) (k + 1) ↔ (run app k (t.step app s)).2.depth ≤ t.depth ∧
      ∀ j < k, t.depth < (run app j (t.step app s)).2.depth := by
  constructor
  · intro h
    refine ⟨run_succ app k s t ▸ h.back, fun j hj => ?_⟩
    rw [← run_succ]
    exact h.inside (j + 1) j.succ_pos (Nat.succ_lt_succ hj)
  · rintro ⟨hback, hinside⟩
    refine ⟨k.succ_pos, ?_, fun j hpos hj => ?_⟩
    · rw [run_succ]
      exact hback
    · obtain ⟨j, rfl⟩ := Nat.exists_eq_add_one_of_ne_zero (Nat.pos_iff_ne_zero.mp hpos)
      rw [run_succ]
      exact hinside j (Nat.lt_of_succ_lt_succ hj)

/-- What the first `k` steps of a single thread show, the earliest first. -/
def happened (app : Application v) : Nat → State v × Thread v → List (Occurrence v)
  | 0, _ => []
  | k + 1, (s, t) => (t.occurrence s).toList ++ happened app k (t.step app s)

/-- A single thread gets from one place to another, and shows `l` on the way. -/
def Leads (app : Application v) (c : State v × Thread v) (l : List (Occurrence v))
    (c' : State v × Thread v) : Prop :=
  ∃ k, run app k c = c' ∧ happened app k c = l

namespace Leads

variable {app : Application v} {c c' c'' : State v × Thread v} {l l' : List (Occurrence v)}

theorem refl (c : State v × Thread v) : Leads app c [] c := ⟨0, rfl, rfl⟩

theorem head {s : State v} {t : Thread v} (h : Leads app (t.step app s) l c') :
    Leads app (s, t) ((t.occurrence s).toList ++ l) c' := by
  obtain ⟨k, hr, hh⟩ := h
  exact ⟨k + 1, by rw [run_succ, hr], by rw [happened, hh]⟩

theorem trans (h : Leads app c l c') (h' : Leads app c' l' c'') : Leads app c (l ++ l') c'' := by
  obtain ⟨k, hr, hh⟩ := h
  induction k generalizing c l with
  | zero =>
    obtain rfl : c = c' := hr
    obtain rfl : [] = l := hh
    exact h'
  | succ k ih =>
    obtain ⟨s, t⟩ := c
    obtain rfl : (t.occurrence s).toList ++ happened app k (t.step app s) = l := hh
    rw [List.append_assoc]
    exact head (ih (run_succ app k s t ▸ hr) rfl)

end Leads

end Wiring
