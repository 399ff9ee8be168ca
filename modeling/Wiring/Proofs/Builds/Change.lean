import Wiring.Pool

/-!
# What a step does to the open builds

A build is open from the moment its construct is begun until the construct has returned or a panic
has left it; meanwhile it is a frame of the stack. A step begins a build, ends the innermost one,
changes which names are excluded from tracking, or does none of this. The stack, the marks and the
errors set aside change together, and how they do can be told from the state and the thread before
the step (`Wiring.Thread.buildChange_step`). What holds of open builds over runs is proved change by
change.

## Main definitions

* `Wiring.Build`, `Wiring.Thread.builds` — the open builds of a thread.
* `Wiring.Build.Change` — what can be done to them, with its effects on the open builds, on the
  marks, and on whether errors are set aside.
* `Wiring.Thread.buildChange` — what the next step of a thread does to them.
* `Wiring.Thread.BuildCause` — what must be so for a step to do it.

## Main results

* `Wiring.Thread.buildChange_step` — a step does what its change says.
* `Wiring.Thread.buildCause_buildChange` — every change has its cause: a build begins only while its
  name is excluded or unmarked, and only the innermost build ends.
-/

namespace Wiring

variable {v : Vocabulary}

/-! ### Open builds -/

/-- An open build: its name, and whether it was begun outside every other one. -/
structure Build where
  name : String
  outermost : Bool
deriving DecidableEq

/-- The builds that wait for their constructs on a stack, innermost first. -/
def Stack.builds : {g : Goal} → Stack v g → List Build
  | _, .top => []
  | _, .building n outermost _ rest => ⟨n, outermost⟩ :: rest.builds
  | _, .producing _ _ rest | _, .tearing _ _ _ rest | _, .holding _ rest | _, .guarding _ rest =>
    rest.builds

/-- The open builds of a thread, innermost first. -/
def Thread.builds : Thread v → List Build
  | .exec _ stack | .seek _ _ _ _ stack | .begin _ _ _ _ stack | .walk _ _ stack
  | .unwind _ stack => stack.builds
  | .finished _ => []

namespace Build

/-- What can be done to the open builds. -/
inductive Change where
  | keep
  /-- A build begins. -/
  | begin (b : Build)
  /-- The innermost build ends. -/
  | finish (b : Build)
  /-- A name is excluded from tracking, or included again. -/
  | exclude (n : String) (on : Bool)

namespace Change

/-- The open builds after a change. -/
def builds (l : List Build) : Change → List Build
  | .begin b => b :: l
  | .finish _ => l.tail
  | .keep | .exclude .. => l

/-- The marks after a change. -/
def marks (m : Marks) : Change → Marks
  | .keep => m
  | .begin b => if m.isExcluded b.name then m else { m with marked := m.marked.insert b.name }
  | .finish b => if m.isExcluded b.name then m else { m with marked := m.marked.erase b.name }
  | .exclude n on => m.setExcluded n on

/-- Whether errors are set aside after a change. -/
def collects (before : Bool) : Change → Bool
  | .begin _ => true
  | .finish b => before && !b.outermost
  | .keep | .exclude .. => before

end Change

end Build

/-! ### Marks after a change -/

theorem Names.erase_of_notMem {s : Names} {n : String} (h : n ∉ s) : s.erase n = s := by
  have hlist : s.toList.filter (· ≠ n) = s.toList :=
    List.filter_eq_self.mpr fun k hk => by simpa using fun e : k = n => h (e ▸ hk)
  simp only [Names.erase, hlist]

namespace Marks

theorem isExcluded_setExcluded (m : Marks) (n k : String) (on : Bool) :
    (m.setExcluded n on).isExcluded k = if k = n then on else m.isExcluded k := by
  cases on <;> by_cases h : k = n <;> simp [setExcluded, isExcluded, h]

/-- A build begins exactly while its name is excluded or unmarked. -/
theorem begin_eq_ok {m m' : Marks} {b : Build} (h : m.begin b.name = .ok m') :
    (m.isExcluded b.name = true ∨ m.isMarked b.name = false) ∧
      m' = (Build.Change.begin b).marks m := by
  unfold begin at h
  split at h
  · next hx =>
    cases h
    exact ⟨.inl hx, by simp [Build.Change.marks, hx]⟩
  · next hx =>
    split at h
    · cases h
    · next hm =>
      cases h
      exact ⟨.inr (by simpa using hm), by simp [Build.Change.marks, hx]⟩

/-- A build is refused as a cycle exactly while its name is marked and not excluded. -/
theorem begin_eq_error_iff {m : Marks} {n : String} {e : Error} :
    m.begin n = .error e ↔
      m.isMarked n = true ∧ m.isExcluded n = false ∧ e = .cycle n := by
  unfold begin
  cases m.isExcluded n <;> cases m.isMarked n <;> simp [eq_comm]

/-- A build ends as it should exactly while its name is excluded or marked. -/
theorem finish_eq_error_iff {m : Marks} {n : String} {e : Error} :
    m.finish n = .error e ↔
      m.isMarked n = false ∧ m.isExcluded n = false ∧ e = .notInCreation n := by
  unfold finish
  cases m.isExcluded n <;> cases m.isMarked n <;> simp [eq_comm]

end Marks

namespace Build.Change

@[simp] theorem isExcluded_begin (m : Marks) (b : Build) (k : String) :
    ((begin b).marks m).isExcluded k = m.isExcluded k := by
  rw [marks]
  split <;> rfl

@[simp] theorem isExcluded_finish (m : Marks) (b : Build) (k : String) :
    ((finish b).marks m).isExcluded k = m.isExcluded k := by
  rw [marks]
  split <;> rfl

/-- The beginning of a build marks its name, unless the name is excluded. -/
theorem isMarked_begin (m : Marks) (b : Build) (k : String) :
    ((begin b).marks m).isMarked k =
      (m.isMarked k || !m.isExcluded b.name && decide (k = b.name)) := by
  cases hx : m.isExcluded b.name <;> simp [marks, hx, Marks.isMarked]

/-- The end of a build takes the mark of its name away, unless the name is excluded. -/
theorem isMarked_finish (m : Marks) (b : Build) (k : String) :
    ((finish b).marks m).isMarked k =
      (m.isMarked k && (m.isExcluded b.name || !decide (k = b.name))) := by
  cases hx : m.isExcluded b.name <;> simp [marks, hx, Marks.isMarked]

/-- The mark that a build has made goes when the build ends, and no other one. -/
theorem marks_finish_begin {m : Marks} {b : Build}
    (h : m.isExcluded b.name = true ∨ m.isMarked b.name = false) :
    (finish b).marks ((begin b).marks m) = m := by
  cases hx : m.isExcluded b.name with
  | true => simp [marks, hx]
  | false =>
    have hn : b.name ∉ m.marked := by simpa [Marks.isMarked, hx] using h
    have hlist : (m.marked.insert b.name).toList.filter (· ≠ b.name) = m.marked.toList := by
      have hkeep := congrArg Names.toList (Names.erase_of_notMem hn)
      rw [Names.toList_erase] at hkeep
      rw [Names.toList_insert, if_neg hn, List.filter_append, hkeep]
      simp
    have herase : (m.marked.insert b.name).erase b.name = m.marked := by
      simp only [Names.erase, hlist]
    have hx' : ({ m with marked := m.marked.insert b.name } : Marks).isExcluded b.name = false := hx
    simp only [marks, hx, hx', herase, Bool.false_eq_true, if_false]

end Build.Change

/-! ### The change of a step -/

/-- What a request that runs no code does to the open builds. -/
def Request.buildChange : Request v → Build.Change
  | .setExcluded n on => .exclude n on
  | .register .. | .publish .. | .get _ | .remove _ | .names | .count | .isFinal _
  | .isInCreation _ | .isMarked _ | .suppress _ | .depend .. | .contain .. | .isDependent ..
  | .hasDependents _ | .dependents _ | .dependencies _ | .parts _ | .storeHook .. | .hasHook _
  | .isTearingDown | .clearAll | .options | .summary | .survey _ => .keep

namespace Thread

/-- What the next step of a thread does to the open builds. -/
def buildChange (s : State v) : Thread v → Build.Change
  | .exec (.call q _) _ => q.buildChange
  | .exec (.done _) (.building n outermost _ _) => .finish ⟨n, outermost⟩
  | .unwind _ (.building n outermost _ _) => .finish ⟨n, outermost⟩
  | .begin .inside n _ _ _ =>
    match s.registry.store.final? n, s.registry.tearingDown, s.registry.marks.begin n with
    | none, false, .ok _ => .begin ⟨n, s.registry.suppressed.isNone⟩
    | _, _, _ => .keep
  | .exec .. | .seek .. | .begin .. | .walk .. | .unwind .. | .finished _ => .keep

end Thread

/-! ### A step does what its change says -/

namespace Registry

variable {ι φ η : Type}

/-- Instances from outside change the tiers and nothing else. -/
theorem registry_register [DecidableEq ι] (r : Registry ι φ η) (n : String) (i : ι) :
    ∃ store, (r.register n i).registry = { r with store := store } := by
  unfold register
  split
  · exact ⟨_, rfl⟩
  · split <;> exact ⟨_, rfl⟩

/-- Early references change the tiers and nothing else. -/
theorem registry_publish (r : Registry ι φ η) (n : String) (p : φ) :
    ∃ store, (r.publish n p).registry = { r with store := store } := by
  unfold publish
  split
  · exact ⟨_, rfl⟩
  · split <;> exact ⟨_, rfl⟩

/-- A dependency changes the records and nothing else. -/
theorem registry_depend (r : Registry ι φ η) (dependency dependent : String) :
    ∃ links, (r.depend dependency dependent).registry = { r with links := links } := by
  unfold depend
  split <;> exact ⟨_, rfl⟩

/-- A containment changes the records and nothing else. -/
theorem registry_contain (r : Registry ι φ η) (inner outer : String) :
    ∃ links, (r.contain inner outer).registry = { r with links := links } := by
  unfold contain
  split <;> exact ⟨_, rfl⟩

theorem marks_closeBuild (r : Registry ι φ η) (n : String) (outermost : Bool) :
    (r.closeBuild n outermost).marks = (Build.Change.finish ⟨n, outermost⟩).marks r.marks := by
  cases hx : r.marks.isExcluded n with
  | true => simp [closeBuild, Marks.finish, Build.Change.marks, hx]
  | false =>
    cases hm : r.marks.isMarked n with
    | true => simp [closeBuild, Marks.finish, Build.Change.marks, hx, hm]
    | false =>
      have hn : n ∉ r.marks.marked := by simpa [Marks.isMarked] using hm
      simp [closeBuild, Marks.finish, Build.Change.marks, hx, hm, Names.erase_of_notMem hn]

theorem isSome_suppressed_closeBuild (r : Registry ι φ η) (n : String) (outermost : Bool) :
    (r.closeBuild n outermost).suppressed.isSome =
      (Build.Change.finish ⟨n, outermost⟩).collects r.suppressed.isSome := by
  cases outermost <;> simp [closeBuild, Build.Change.collects]

/-- However a build is settled, the registry is closed for it; besides, only the tiers change. -/
theorem registry_settle (r : Registry ι φ η) (n : String) (outermost : Bool)
    (result : Except Error ι) :
    ∃ store, (r.settle n outermost result).registry =
      { r.closeBuild n outermost with store := store } := by
  unfold settle
  cases r.outcome n outermost result with
  | failed e => cases r.marks.finish n <;> exact ⟨_, rfl⟩
  | present i => cases r.marks.finish n <;> exact ⟨_, rfl⟩
  | fresh i =>
    cases r.marks.finish n with
    | error e => exact ⟨_, rfl⟩
    | ok m =>
      simp only [install, closed]
      cases (r.closeBuild n outermost).store.final? n <;> exact ⟨_, rfl⟩

theorem openBuild_eq_ok {r r' : Registry ι φ η} {n : String} (h : r.openBuild n = .ok r') :
    ∃ m, r.marks.begin n = .ok m ∧
      r' = { r with marks := m, suppressed := some (r.suppressed.getD []) } := by
  unfold openBuild at h
  split at h
  · cases h
  · next m hm =>
    cases h
    exact ⟨m, hm, rfl⟩

theorem openBuild_eq_error {r : Registry ι φ η} {n : String} {e : Error}
    (h : r.openBuild n = .error e) : r.marks.begin n = .error e := by
  unfold openBuild at h
  split at h
  · next hm =>
    cases h
    exact hm
  · cases h

end Registry

namespace Request

theorem marks_answer (r : v.Registry) (q : Request v) :
    (q.answer r).registry.marks = q.buildChange.marks r.marks := by
  cases q with
  | register n i =>
    obtain ⟨store, h⟩ := r.registry_register n i
    rw [answer, h]
    rfl
  | publish n p =>
    obtain ⟨store, h⟩ := r.registry_publish n p
    rw [answer, h]
    rfl
  | depend a b =>
    obtain ⟨links, h⟩ := r.registry_depend a b
    rw [answer, h]
    rfl
  | contain a b =>
    obtain ⟨links, h⟩ := r.registry_contain a b
    rw [answer, h]
    rfl
  | _ => rfl

/-- A request that runs no code neither starts nor drops the errors set aside. -/
theorem isSome_suppressed_answer (r : v.Registry) (q : Request v) :
    (q.answer r).registry.suppressed.isSome = r.suppressed.isSome := by
  cases q with
  | register n i =>
    obtain ⟨store, h⟩ := r.registry_register n i
    rw [answer, h]
  | publish n p =>
    obtain ⟨store, h⟩ := r.registry_publish n p
    rw [answer, h]
  | depend a b =>
    obtain ⟨links, h⟩ := r.registry_depend a b
    rw [answer, h]
  | contain a b =>
    obtain ⟨links, h⟩ := r.registry_contain a b
    rw [answer, h]
  | suppress e => exact Option.isSome_map
  | _ => rfl

end Request

namespace Thread

/-- What a change of the open builds comes to: the builds `l` and the registry `r` before it, the
builds `l'` and the registry `r'` afterwards. -/
structure Follows (c : Build.Change) (l : List Build) (r : v.Registry) (l' : List Build)
    (r' : v.Registry) : Prop where
  builds : l' = c.builds l
  marks : r'.marks = c.marks r.marks
  collects : r'.suppressed.isSome = c.collects r.suppressed.isSome

theorem Follows.keep {l : List Build} {r r' : v.Registry} (hm : r'.marks = r.marks)
    (hs : r'.suppressed = r.suppressed) : Follows .keep l r l r' :=
  ⟨rfl, hm, by rw [hs]; rfl⟩

theorem follows_leave (s : State v) {g : Goal} (stack : Stack v g) (a : g.Result v.Inst) :
    Follows ((Thread.exec (.done a) stack).buildChange s) stack.builds s.registry
      (stack.leave s a).2.builds (stack.leave s a).1.registry := by
  cases stack with
  | building n outermost resume rest =>
    obtain ⟨store, h⟩ := s.registry.registry_settle n outermost a
    have hr : ((Stack.building n outermost resume rest).leave s a).1.registry =
        { s.registry.closeBuild n outermost with store := store } :=
      (s.registry_after ..).trans h
    refine ⟨rfl, ?_, ?_⟩
    · rw [hr]
      exact s.registry.marks_closeBuild n outermost
    · rw [hr]
      exact s.registry.isSome_suppressed_closeBuild n outermost
  | tearing n todo next rest => cases a <;> exact .keep rfl rfl
  | _ => exact .keep rfl rfl

theorem follows_beginStep (app : Application v) (s : State v) {g : Goal} (n : String)
    (c : v.Closure .construct) (resume : Except Error v.Inst → Code v (g.Result v.Inst))
    (stack : Stack v g) (stage : Stage) :
    Follows ((Thread.begin stage n c resume stack).buildChange s) stack.builds s.registry
      (beginStep app s n c resume stack stage).2.builds
      (beginStep app s n c resume stack stage).1.registry := by
  cases stage with
  | reading =>
    simp only [beginStep, buildChange]
    cases s.registry.store.final? n <;> exact .keep rfl rfl
  | waiting => exact .keep rfl rfl
  | inside =>
    simp only [beginStep, buildChange]
    cases s.registry.store.final? n with
    | some i => exact .keep rfl rfl
    | none =>
      cases s.registry.tearingDown with
      | true => exact .keep rfl rfl
      | false =>
        cases ho : s.registry.openBuild n with
        | error e =>
          simp only [Registry.openBuild_eq_error ho]
          exact .keep rfl rfl
        | ok r =>
          obtain ⟨m, hm, rfl⟩ := Registry.openBuild_eq_ok ho
          simp only [hm]
          exact ⟨rfl, (Marks.begin_eq_ok (b := ⟨n, s.registry.suppressed.isNone⟩) hm).2, rfl⟩

theorem follows_seekStep (app : Application v) (s : State v) {g : Goal} (n : String) (early : Bool)
    (resume : Option v.Inst → Code v (g.Result v.Inst)) (stack : Stack v g) (stage : Stage) :
    Follows .keep stack.builds s.registry (seekStep app s n early resume stack stage).2.builds
      (seekStep app s n early resume stack stage).1.registry := by
  cases stage with
  | reading =>
    simp only [seekStep]
    split <;> exact .keep rfl rfl
  | waiting => exact .keep rfl rfl
  | inside =>
    simp only [seekStep]
    split
    · exact .keep rfl rfl
    · split <;> split <;> exact .keep rfl rfl

/-- A step does to the open builds, to the marks and to the errors set aside what its change
says. -/
theorem buildChange_step (app : Application v) (s : State v) (t : Thread v) :
    Follows (t.buildChange s) t.builds s.registry (t.step app s).2.builds
      (t.step app s).1.registry := by
  cases t with
  | exec code stack =>
    cases code with
    | done a => exact follows_leave s stack a
    | call q next =>
      have hr : ((Thread.exec (.call q next) stack).step app s).1.registry =
        (q.answer s.registry).registry := s.registry_after ..
      refine ⟨?_, ?_, ?_⟩
      · cases q <;> rfl
      · rw [hr]
        exact q.marks_answer s.registry
      · rw [hr, q.isSome_suppressed_answer]
        cases q <;> rfl
    | lookup n early next =>
      simp only [step, execStep]
      split <;> exact .keep rfl rfl
    | create n c next =>
      simp only [step, execStep]
      split <;> exact .keep rfl rfl
    | _ => exact .keep rfl rfl
  | seek stage n early resume stack => exact follows_seekStep app s n early resume stack stage
  | begin stage n c resume stack => exact follows_beginStep app s n c resume stack stage
  | walk todo next stack =>
    cases todo with
    | nil => exact .keep rfl rfl
    | cons task todo =>
      cases task with
      | destroy n =>
        simp only [step, walkStep]
        split <;> exact .keep rfl rfl
      | _ => exact .keep rfl rfl
  | unwind p stack =>
    cases stack with
    | building n outermost resume rest =>
      exact ⟨rfl, (s.registry.discard n).marks_closeBuild n outermost,
        (s.registry.discard n).isSome_suppressed_closeBuild n outermost⟩
    | _ => exact .keep rfl rfl
  | finished outcome => exact .keep rfl rfl

/-- Why the next step of a thread changes the open builds. -/
inductive BuildCause (s : State v) : Thread v → Build.Change → Prop
  | keep {t : Thread v} : BuildCause s t .keep
  | begin {g : Goal} {n : String} (c : v.Closure .construct)
      (resume : Except Error v.Inst → Code v (g.Result v.Inst)) (stack : Stack v g)
      (hf : s.registry.store.final? n = none) (ht : s.registry.tearingDown = false)
      (hm : s.registry.marks.isExcluded n = true ∨ s.registry.marks.isMarked n = false) :
      BuildCause s (.begin .inside n c resume stack) (.begin ⟨n, s.registry.suppressed.isNone⟩)
  | returned {g : Goal} {n : String} {outermost : Bool} (r : Except Error v.Inst)
      (resume : Except Error v.Inst → Code v (g.Result v.Inst)) (rest : Stack v g) :
      BuildCause s (.exec (g := .construct) (.done r) (.building n outermost resume rest))
        (.finish ⟨n, outermost⟩)
  | panicked {g : Goal} {n : String} {outermost : Bool} (p : Panic)
      (resume : Except Error v.Inst → Code v (g.Result v.Inst)) (rest : Stack v g) :
      BuildCause s (.unwind p (.building n outermost resume rest)) (.finish ⟨n, outermost⟩)
  | exclude {g : Goal} {n : String} {on : Bool} (next : Unit → Code v (g.Result v.Inst))
      (stack : Stack v g) :
      BuildCause s (.exec (.call (.setExcluded n on) next) stack) (.exclude n on)

/-- Every step that changes the open builds has its cause. -/
theorem buildCause_buildChange (s : State v) (t : Thread v) : t.BuildCause s (t.buildChange s) := by
  cases t with
  | exec code stack =>
    cases code with
    | done a =>
      cases stack with
      | building n outermost resume rest => exact .returned a resume rest
      | _ => exact .keep
    | call q next =>
      cases q with
      | setExcluded n on => exact .exclude next stack
      | _ => exact .keep
    | _ => exact .keep
  | begin stage n c resume stack =>
    cases stage with
    | inside =>
      simp only [buildChange]
      split
      · next m hf ht hm =>
        exact .begin c resume stack hf ht
          (Marks.begin_eq_ok (b := ⟨n, s.registry.suppressed.isNone⟩) hm).1
      · exact .keep
    | _ => exact .keep
  | unwind p stack =>
    cases stack with
    | building n outermost resume rest => exact .panicked p resume rest
    | _ => exact .keep
  | seek stage n early resume stack => exact .keep
  | walk todo next stack => exact .keep
  | finished outcome => exact .keep

/-- Only the innermost build ends. -/
theorem builds_of_finish {s : State v} {t : Thread v} {b : Build}
    (h : t.buildChange s = .finish b) : t.builds = b :: t.builds.tail := by
  have hcause := t.buildCause_buildChange s
  rw [h] at hcause
  cases hcause <;> rfl

end Thread

end Wiring
