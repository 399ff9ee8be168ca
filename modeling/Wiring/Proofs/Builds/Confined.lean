import Wiring.Proofs.Builds.Midway

/-!
# Code that is confined to builds and early references

A construct may do a great deal while its build is open: look up and publish early references, ask
for further builds, set errors aside, catch panics, or panic. As long as the code that is run
neither binds nor removes instances from outside, nor changes what is excluded from tracking, nor
tears anything down, a build request goes through the registry in an orderly way, whatever becomes
of it in the end.

## Main definitions

* `Wiring.Code.Confined`, `Wiring.Application.Confined` — code that is confined in this sense.
* `Wiring.Call` — a build request, from where it is made.
* `Wiring.Call.Underway` — where a thread may stand while the request is under way.
* `Wiring.Call.Over` — the last step of the request.
* `Wiring.Thread.completes` — the build that a step completes.

## Main results

* `Wiring.Call.Underway.step` — a step of a build request leaves it under way, or is its last
  one.
-/

namespace Wiring

variable {v : Vocabulary}

/-! ### Confined code -/

/-- A request that binds, removes or excludes nothing from outside. Producers that are offered are
in `W`. -/
def Request.Confined (W : (g : Goal) → v.Closure g → Prop) : Request v → Prop
  | .publish _ p => W .producer p
  | .register .. | .remove _ | .setExcluded .. | .clearAll => False
  | .get _ | .names | .count | .isFinal _ | .isInCreation _ | .isMarked _ | .suppress _ | .depend ..
  | .contain .. | .isDependent .. | .hasDependents _ | .dependents _ | .dependencies _ | .parts _
  | .storeHook .. | .hasHook _ | .isTearingDown | .options | .summary | .survey _ => True

/-- Code that makes only confined requests and tears nothing down. The closures that it hands over
are in `W`. -/
def Code.Confined (W : (g : Goal) → v.Closure g → Prop) {α : Type} : Code v α → Prop
  | .done _ | .panic _ => True
  | .note _ next => next.Confined W
  | .access _ next => ∀ w, (next w).Confined W
  | .call q next => q.Confined W ∧ ∀ r, (next r).Confined W
  | .lookup _ _ next => ∀ r, (next r).Confined W
  | .create _ c next => W .construct c ∧ ∀ r, (next r).Confined W
  | .hold b next => W .block b ∧ ∀ r, (next r).Confined W
  | .guard b next => W .block b ∧ ∀ r, (next r).Confined W
  | .destroy .. | .destroyAll _ => False

/-- The code of the closures in `W` is confined, with all that it runs in turn. -/
def Application.Confined (app : Application v) (W : (g : Goal) → v.Closure g → Prop) : Prop :=
  ∀ (g : Goal) (c : v.Closure g), W g c → (app.body c).Confined W

/-! ### Build requests under way -/

/-- The build that is completed when a value is returned to the innermost waiting request. -/
def Stack.completes (s : State v) :
    {g : Goal} → Stack v g → g.Result v.Inst → Option (String × v.Inst)
  | _, .building n outermost _ _, r =>
    match (s.registry.settle n outermost r).reply with
    | .ok i => some (n, i)
    | .error _ => none
  | _, .top, _ | _, .producing .., _ | _, .tearing .., _ | _, .holding .., _ | _, .guarding .., _ =>
    none

/-- The build that the next step completes, with its instance. -/
def Thread.completes (s : State v) : Thread v → Option (String × v.Inst)
  | .exec (.done r) stack => stack.completes s r
  | .exec .. | .seek .. | .begin .. | .walk .. | .unwind .. | .finished _ => none

/-- A build request: the name that is asked for, its construct, and the code that waits for the
answer. -/
structure Call (v : Vocabulary) where
  name : String
  construct : v.Closure .construct
  goal : Goal
  resume : Except Error v.Inst → Code v (goal.Result v.Inst)
  rest : Stack v goal

namespace Call

variable (W : (g : Goal) → v.Closure g → Prop) (a : Call v)

/-- The stack while the build of the request is open, with the names of all builds that are open,
innermost first. -/
inductive Inside : List String → {g : Goal} → Stack v g → Prop
  | root : Inside [a.name] (.building a.name true a.resume a.rest)
  | building {l : List String} {m : String} {g : Goal}
      {resume : Except Error v.Inst → Code v (g.Result v.Inst)} {rest : Stack v g}
      (hr : ∀ r, (resume r).Confined W) (h : Inside l rest) :
      Inside (m :: l) (.building m false resume rest)
  | producing {l : List String} {m : String} {g : Goal}
      {resume : Option v.Inst → Code v (g.Result v.Inst)} {rest : Stack v g} (hm : m ∈ l)
      (hr : ∀ r, (resume r).Confined W) (h : Inside l rest) :
      Inside l (.producing m resume rest)
  | holding {l : List String} {g : Goal} {resume : Except Error Unit → Code v (g.Result v.Inst)}
      {rest : Stack v g} (hr : ∀ r, (resume r).Confined W) (h : Inside l rest) :
      Inside l (.holding resume rest)
  | guarding {l : List String} {g : Goal}
      {resume : Except Panic (Except Error Unit) → Code v (g.Result v.Inst)} {rest : Stack v g}
      (hr : ∀ r, (resume r).Confined W) (h : Inside l rest) : Inside l (.guarding resume rest)

/-- Where a thread may stand while the request is under way. -/
inductive Underway : List String → Thread v → Prop
  | asking (stage : Stage) : Underway [] (.begin stage a.name a.construct a.resume a.rest)
  | running {l : List String} {g : Goal} {code : Code v (g.Result v.Inst)} {stack : Stack v g}
      (hc : code.Confined W) (h : Inside W a l stack) : Underway l (.exec code stack)
  | seeking {l : List String} {g : Goal} {stage : Stage} {m : String} {early : Bool}
      {resume : Option v.Inst → Code v (g.Result v.Inst)} {stack : Stack v g}
      (hm : stage = .reading ∨ m ∈ l) (hr : ∀ r, (resume r).Confined W) (h : Inside W a l stack) :
      Underway l (.seek stage m early resume stack)
  | requesting {l : List String} {g : Goal} {stage : Stage} {m : String}
      {c : v.Closure .construct} {resume : Except Error v.Inst → Code v (g.Result v.Inst)}
      {stack : Stack v g} (hc : W .construct c) (hr : ∀ r, (resume r).Confined W)
      (h : Inside W a l stack) : Underway l (.begin stage m c resume stack)
  | panicking {l : List String} {g : Goal} {stack : Stack v g} (p : Panic)
      (h : Inside W a l stack) : Underway l (.unwind p stack)

/-- The last step of the request answers it or lets a panic leave it. Unless it is answered with an
instance, no build of its name has been completed. -/
inductive Over (done : List (String × v.Inst)) (s : State v) (t : Thread v) : Thread v → Prop
  | answered {x : v.Inst} (ho : t.occurrence s = some (.created a.name (.ok x))) :
      Over done s t (.exec (a.resume (.ok x)) a.rest)
  | refused {e : Error} (ho : t.occurrence s = some (.created a.name (.error e)))
      (hn : a.name ∉ done.map Prod.fst) : Over done s t (.exec (a.resume (.error e)) a.rest)
  | panicked (p : Panic) (hn : a.name ∉ done.map Prod.fst) : Over done s t (.unwind p a.rest)

variable {W a}

theorem Inside.ne_nil {l : List String} {g : Goal} {stack : Stack v g} (h : Inside W a l stack) :
    l ≠ [] := by
  induction h with
  | root | building => exact List.cons_ne_nil _ _
  | producing _ _ _ ih => exact ih
  | holding _ _ ih => exact ih
  | guarding _ _ ih => exact ih

end Call

/-! ### Steps -/

namespace Registry

namespace Midway

variable {W : v.Closure .producer → Prop} {r₀ : v.Registry} {l : List String}
  {done : List (String × v.Inst)} {s : State v} {t : Thread v} (app : Application v)

/-- A step that begins and ends no build keeps the registry in order if it keeps the tiers so. -/
theorem step_keep (h : Midway W r₀ l done s.registry) (hb : t.buildChange s = .keep)
    (hs : Store.Midway W r₀.store l done ((t.storeChange s).apply s.registry.store)) :
    Midway W r₀ l done (t.step app s).1.registry := by
  refine h.keep (hb ▸ t.buildChange_step app s) ?_
  rw [t.store_step app s]
  exact hs

/-- The construct of the innermost build has returned. -/
theorem step_return {m : String} {g : Goal} (outermost : Bool) (result : Except Error v.Inst)
    (resume : Except Error v.Inst → Code v (g.Result v.Inst)) (rest : Stack v g)
    (h : Midway W r₀ (m :: l) done s.registry) (ho : outermost = l.isEmpty)
    (ht : t = .exec (g := .construct) (.done result) (.building m outermost resume rest)) :
    (∃ x, (t.step app s).2 = .exec (resume (.ok x)) rest ∧ t.completes s = some (m, x) ∧
      t.occurrence s = some (.created m (.ok x)) ∧
      Midway W r₀ l (done ++ [(m, x)]) (t.step app s).1.registry) ∨
    ∃ e, (t.step app s).2 = .exec (resume (.error e)) rest ∧ t.completes s = none ∧
      t.occurrence s = some (.created m (.error e)) ∧
      Midway W r₀ l done (t.step app s).1.registry := by
  have hmem : m ∈ m :: l := List.mem_cons_self
  have hstep : (t.step app s).2 =
      .exec (resume (s.registry.settle m outermost result).reply) rest := by
    rw [ht]
    rfl
  have hstore : (t.step app s).1.registry.store =
      (s.registry.settle m outermost result).registry.store := by
    rw [ht]
    exact congrArg Registry.store (s.registry_after ..)
  have hoccurrence : t.occurrence s =
      some (.created m (s.registry.settle m outermost result).reply) := by
    rw [ht]
    rfl
  have hfollows := t.buildChange_step app s
  rw [show t.buildChange s = .finish ⟨m, outermost⟩ by rw [ht]; rfl] at hfollows
  obtain ⟨x, hreply, hput⟩ | ⟨e, hreply, hdiscard⟩ := settle_of_finishes outermost result
    (h.finishes hmem) (h.tiers.final?_of_mem hmem)
  · rw [hreply] at hstep hoccurrence
    refine .inl ⟨x, hstep, ?_, hoccurrence, h.finish ho hfollows ?_⟩
    · rw [ht]
      simp only [Thread.completes, Stack.completes, hreply]
    · rw [hstore, hput]
      exact h.tiers.complete x
  · rw [hreply] at hstep hoccurrence
    refine .inr ⟨e, hstep, ?_, hoccurrence, h.finish ho hfollows ?_⟩
    · rw [ht]
      simp only [Thread.completes, Stack.completes, hreply]
    · rw [hstore, hdiscard]
      exact h.tiers.fail

/-- A panic leaves the innermost build. -/
theorem step_panic {m : String} {g : Goal} (outermost : Bool) (p : Panic)
    (resume : Except Error v.Inst → Code v (g.Result v.Inst)) (rest : Stack v g)
    (h : Midway W r₀ (m :: l) done s.registry) (ho : outermost = l.isEmpty) :
    Midway W r₀ l done
      ((Thread.unwind p (.building m outermost resume rest)).step app s).1.registry :=
  h.finish ho ((Thread.unwind p (.building m outermost resume rest)).buildChange_step app s)
    h.tiers.fail

/-- A build request with the lock is answered and changes nothing, or its build begins. -/
theorem step_begin {m : String} {g : Goal} (c : v.Closure .construct)
    (resume : Except Error v.Inst → Code v (g.Result v.Inst)) (stack : Stack v g)
    (h : Midway W r₀ l done s.registry) (ht : t = .begin .inside m c resume stack) :
    (t.step app s).1.registry = s.registry ∧
      ((∃ x, (t.step app s).2 = .exec (resume (.ok x)) stack ∧
        t.occurrence s = some (.created m (.ok x))) ∨
      ∃ e, (t.step app s).2 = .exec (resume (.error e)) stack ∧
        t.occurrence s = some (.created m (.error e)) ∧ m ∉ done.map Prod.fst) ∨
    (t.step app s).2 = .exec (app.body c) (.building m l.isEmpty resume stack) ∧
      Midway W r₀ (m :: l) done (t.step app s).1.registry := by
  subst ht
  cases hf : s.registry.store.final? m with
  | some x =>
    refine .inl ⟨?_, .inl ⟨x, ?_, ?_⟩⟩ <;>
      simp [Thread.step, beginStep, Thread.occurrence, beginOccurrence, hf]
  | none =>
    have hnot : m ∉ done.map Prod.fst := (h.tiers.final?_eq_none_iff.mp hf).2
    cases ht : s.registry.tearingDown with
    | true =>
      refine .inl ⟨?_, .inr ⟨.tearingDown m, ?_, ?_, hnot⟩⟩ <;>
        simp [Thread.step, beginStep, Thread.occurrence, beginOccurrence, hf, ht]
    | false =>
      cases ho : s.registry.openBuild m with
      | error e =>
        refine .inl ⟨?_, .inr ⟨e, ?_, ?_, hnot⟩⟩ <;>
          simp [Thread.step, beginStep, Thread.occurrence, beginOccurrence, hf, ht, ho]
      | ok r =>
        obtain ⟨marks, hmarks, -⟩ := openBuild_eq_ok ho
        have hnone : s.registry.suppressed.isNone = l.isEmpty := by
          rw [← Option.not_isSome, h.suppressed, Bool.not_not]
        have hml : m ∉ l := by
          obtain hx | hm := (Marks.begin_eq_ok (b := ⟨m, true⟩) hmarks).1
          · simp [h.excluded] at hx
          · simp [← h.marked, hm]
        have hfollows := (Thread.begin .inside m c resume stack).buildChange_step app s
        rw [show (Thread.begin .inside m c resume stack).buildChange s = .begin ⟨m, l.isEmpty⟩ by
          simp only [Thread.buildChange, hf, ht, hmarks, hnone]] at hfollows
        refine .inr ⟨?_, h.begin hfollows ?_⟩
        · simp [Thread.step, beginStep, hf, ht, ho, hnone]
        · rw [Thread.store_step]
          exact h.tiers.begin hml hf

end Midway

end Registry

namespace Request.Confined

variable {W : (g : Goal) → v.Closure g → Prop} {q : Request v}

theorem buildChange_eq (hq : q.Confined W) : q.buildChange = .keep := by
  cases q with
  | setExcluded n on => exact hq.elim
  | _ => rfl

/-- A confined request changes the tiers at most by a producer of an open build. -/
theorem midway (hq : q.Confined W) {r₀ r : v.Registry} {l : List String}
    {done : List (String × v.Inst)} (h : Registry.Midway (W .producer) r₀ l done r) :
    Store.Midway (W .producer) r₀.store l done ((q.storeChange r).apply r.store) := by
  cases q with
  | publish n p =>
    simp only [storeChange]
    split
    · exact h.tiers
    · next hx =>
      have hm : r.marks.isMarked n = true := by simp_all [h.excluded n]
      exact h.tiers.offer ((h.marked n).mp hm) hq
  | register | remove | clearAll => exact hq.elim
  | _ => exact h.tiers

end Request.Confined

namespace Call

open Registry

variable {W : (g : Goal) → v.Closure g → Prop} {a : Call v} {r₀ : v.Registry} {l : List String}
  {done : List (String × v.Inst)} {s : State v} {t : Thread v} (app : Application v)

variable (W a r₀ done s t) in
/-- The next step leaves the request under way, or is its last one. Either way the registry has
gained the build that the step completes, if any. -/
def Advances : Prop :=
  (∃ l, Underway W a l (t.step app s).2 ∧
    Midway (W .producer) r₀ l (done ++ (t.completes s).toList) (t.step app s).1.registry) ∨
  Over a (done ++ (t.completes s).toList) s t (t.step app s).2 ∧
    Midway (W .producer) r₀ [] (done ++ (t.completes s).toList) (t.step app s).1.registry

theorem Advances.underway (hc : t.completes s = none) (hu : Underway W a l (t.step app s).2)
    (h : Midway (W .producer) r₀ l done (t.step app s).1.registry) :
    Advances W a r₀ done s t app :=
  .inl ⟨l, hu, by simpa [hc] using h⟩

theorem Advances.over (hc : t.completes s = none) (ho : Over a done s t (t.step app s).2)
    (h : Midway (W .producer) r₀ [] done (t.step app s).1.registry) :
    Advances W a r₀ done s t app :=
  .inr ⟨by simpa [hc] using ho, by simpa [hc] using h⟩

/-- A value is returned to the innermost waiting request. -/
theorem Inside.leave {g : Goal} {stack : Stack v g} (hi : Inside W a l stack)
    (r : g.Result v.Inst) (h : Midway (W .producer) r₀ l done s.registry) :
    Advances W a r₀ done s (.exec (.done r) stack) app := by
  cases hi with
  | root =>
    obtain ⟨x, hstep, hc, ho, hm⟩ | ⟨e, hstep, hc, ho, hm⟩ :=
      h.step_return app true r a.resume a.rest rfl rfl
    · refine .inr ⟨?_, by simpa [hc] using hm⟩
      rw [hstep]
      exact .answered ho
    · refine .over app hc ?_ hm
      rw [hstep]
      exact .refused ho fun hd =>
        List.disjoint_of_nodup_append h.tiers.nodup List.mem_cons_self hd
  | @building l m g resume rest hr hi =>
    have hl : false = l.isEmpty := (List.isEmpty_eq_false_iff.mpr hi.ne_nil).symm
    obtain ⟨x, hstep, hc, -, hm⟩ | ⟨e, hstep, hc, -, hm⟩ :=
      h.step_return app false r resume rest hl rfl
    · refine .inl ⟨l, ?_, by simpa [hc] using hm⟩
      rw [hstep]
      exact .running (hr _) hi
    · refine .underway app hc ?_ hm
      rw [hstep]
      exact .running (hr _) hi
  | producing hm hr hi =>
    exact .underway app rfl (.running (hr _) hi) (h.step_keep app rfl (h.tiers.memoize hm r))
  | holding hr hi => exact .underway app rfl (.running (hr _) hi) h
  | guarding hr hi => exact .underway app rfl (.running (hr _) hi) h

/-- A panic leaves the innermost waiting request. -/
theorem Inside.unwind {g : Goal} {stack : Stack v g} (hi : Inside W a l stack) (p : Panic)
    (h : Midway (W .producer) r₀ l done s.registry) :
    Advances W a r₀ done s (.unwind p stack) app := by
  cases hi with
  | root =>
    refine .over app rfl (.panicked p fun hd => ?_) (h.step_panic app true p a.resume a.rest rfl)
    exact List.disjoint_of_nodup_append h.tiers.nodup List.mem_cons_self hd
  | @building l m g resume rest hr hi =>
    have hl : false = l.isEmpty := (List.isEmpty_eq_false_iff.mpr hi.ne_nil).symm
    exact .underway app rfl (.panicking p hi) (h.step_panic app false p resume rest hl)
  | producing hm hr hi => exact .underway app rfl (.panicking p hi) h
  | holding hr hi => exact .underway app rfl (.panicking p hi) h
  | guarding hr hi => exact .underway app rfl (.running (hr _) hi) h

/-- The steps of confined code. -/
theorem Inside.exec (happ : app.Confined W) {g : Goal} {stack : Stack v g}
    (hi : Inside W a l stack) {code : Code v (g.Result v.Inst)} (hc : code.Confined W)
    (h : Midway (W .producer) r₀ l done s.registry) :
    Advances W a r₀ done s (.exec code stack) app := by
  cases code with
  | done r => exact hi.leave app r h
  | panic p => exact .underway app rfl (.panicking p hi) h
  | note x next => exact .underway app rfl (.running hc hi) h
  | access change next => exact .underway app rfl (.running (hc _) hi) h
  | call q next =>
    have hu : Underway W a l ((Thread.exec (.call q next) stack).step app s).2 :=
      .running (hc.2 _) hi
    exact .underway app rfl hu (h.step_keep app hc.1.buildChange_eq (hc.1.midway h))
  | lookup n early next =>
    have hm : Midway (W .producer) r₀ l done
        ((Thread.exec (.lookup n early next) stack).step app s).1.registry := by
      simp only [Thread.step, execStep]
      split <;> exact h
    refine .underway app rfl ?_ hm
    simp only [Thread.step, execStep]
    split
    · exact .running (hc _) hi
    · exact .seeking (.inl rfl) hc hi
  | create n c next =>
    have hm : Midway (W .producer) r₀ l done
        ((Thread.exec (.create n c next) stack).step app s).1.registry := by
      simp only [Thread.step, execStep]
      split <;> exact h
    refine .underway app rfl ?_ hm
    simp only [Thread.step, execStep]
    split
    · exact .running (hc.2 _) hi
    · exact .requesting hc.1 hc.2 hi
  | destroy | destroyAll => exact hc.elim
  | hold b next => exact .underway app rfl (.running (happ .block b hc.1) (.holding hc.2 hi)) h
  | guard b next => exact .underway app rfl (.running (happ .block b hc.1) (.guarding hc.2 hi)) h

/-- The steps of a lookup. -/
theorem Inside.seek (happ : app.Confined W) {g : Goal} {stack : Stack v g}
    (hi : Inside W a l stack) {stage : Stage} {m : String} {early : Bool}
    {resume : Option v.Inst → Code v (g.Result v.Inst)} (hm : stage = .reading ∨ m ∈ l)
    (hr : ∀ r, (resume r).Confined W) (h : Midway (W .producer) r₀ l done s.registry) :
    Advances W a r₀ done s (.seek stage m early resume stack) app := by
  cases stage with
  | reading =>
    have hsame : ((Thread.seek .reading m early resume stack).step app s).1 = s := by
      simp only [Thread.step, seekStep]
      split <;> rfl
    refine .underway app rfl ?_ (hsame ▸ h)
    simp only [Thread.step, seekStep]
    split
    -- only a marked name is looked up any further, and that is one whose build is open
    · next hmarked => exact .seeking (.inr ((h.marked m).mp hmarked)) hr hi
    · exact .running (hr _) hi
  | waiting =>
    have hml : m ∈ l := hm.resolve_left (by simp)
    exact .underway app rfl (.seeking (.inr hml) hr hi) h
  | inside =>
    have hml : m ∈ l := hm.resolve_left (by simp)
    have hf := h.tiers.final?_of_mem hml
    refine .underway app rfl ?_ (h.step_keep app rfl ?_)
    · simp only [Thread.step, seekStep, hf]
      split
      · split
        · exact .running (hr _) hi
        · exact .running (hr _) hi
        · next p store hp =>
          obtain ⟨-, hp, -⟩ := Store.seek_eq_pending hp
          exact .running (happ .producer p (h.tiers.producers m p hp)) (.producing hml hr hi)
      · split <;> exact .running (hr _) hi
    · simp only [Thread.storeChange]
      split
      · exact h.tiers.fetch m
      · exact h.tiers

/-- The steps of a further build request. -/
theorem Inside.begin (happ : app.Confined W) {g : Goal} {stack : Stack v g}
    (hi : Inside W a l stack) {stage : Stage} {m : String} {c : v.Closure .construct}
    {resume : Except Error v.Inst → Code v (g.Result v.Inst)} (hc : W .construct c)
    (hr : ∀ r, (resume r).Confined W) (h : Midway (W .producer) r₀ l done s.registry) :
    Advances W a r₀ done s (.begin stage m c resume stack) app := by
  cases stage with
  | reading =>
    have hsame : ((Thread.begin .reading m c resume stack).step app s).1.registry = s.registry := by
      simp only [Thread.step, beginStep]
      split <;> rfl
    refine .underway app rfl ?_ (hsame ▸ h)
    simp only [Thread.step, beginStep]
    split
    · exact .running (hr _) hi
    · exact .requesting hc hr hi
  | waiting => exact .underway app rfl (.requesting hc hr hi) h
  | inside =>
    obtain ⟨hsame, ⟨x, hstep, -⟩ | ⟨e, hstep, -⟩⟩ | ⟨hstep, hm⟩ :=
      h.step_begin app c resume stack rfl
    · exact .underway app rfl (hstep ▸ .running (hr _) hi) (hsame ▸ h)
    · exact .underway app rfl (hstep ▸ .running (hr _) hi) (hsame ▸ h)
    · rw [List.isEmpty_eq_false_iff.mpr hi.ne_nil] at hstep
      exact .underway app rfl (hstep ▸ .running (happ .construct c hc) (.building hr hi)) hm

/-- The steps of the request itself, until its build begins. -/
theorem advances_asking (happ : app.Confined W) (hc : W .construct a.construct) (stage : Stage)
    (h : Midway (W .producer) r₀ [] done s.registry) :
    Advances W a r₀ done s (.begin stage a.name a.construct a.resume a.rest) app := by
  cases stage with
  | reading =>
    cases hf : s.registry.store.final? a.name with
    | none =>
      refine .underway app rfl (l := []) ?_ ?_
      · simp only [Thread.step, beginStep, hf]
        exact .asking .waiting
      · simp only [Thread.step, beginStep, hf]
        exact h
    | some x =>
      refine .over app rfl ?_ ?_
      · simp only [Thread.step, beginStep, hf]
        exact .answered (by simp [Thread.occurrence, beginOccurrence, hf])
      · simp only [Thread.step, beginStep, hf]
        exact h
  | waiting => exact .underway app rfl (.asking .inside) h
  | inside =>
    obtain ⟨hsame, ⟨x, hstep, ho⟩ | ⟨e, hstep, ho, hn⟩⟩ | ⟨hstep, hm⟩ :=
      h.step_begin app a.construct a.resume a.rest rfl
    · exact .over app rfl (hstep ▸ .answered ho) (hsame ▸ h)
    · exact .over app rfl (hstep ▸ .refused ho hn) (hsame ▸ h)
    · exact .underway app rfl (hstep ▸ .running (happ .construct _ hc) .root) hm

/-- A step of a build request leaves it under way, or is its last one. -/
theorem Underway.step (happ : app.Confined W) (hc : W .construct a.construct)
    (hu : Underway W a l t) (h : Midway (W .producer) r₀ l done s.registry) :
    Advances W a r₀ done s t app := by
  cases hu with
  | asking stage => exact advances_asking app happ hc stage h
  | running hcode hi => exact hi.exec app happ hcode h
  | seeking hm hr hi => exact hi.seek app happ hm hr h
  | requesting hc hr hi => exact hi.begin app happ hc hr h
  | panicking p hi => exact hi.unwind app p h

end Call

end Wiring
