import Mathlib.Data.Finset.Card
import Wiring.Proofs.Builds.Serial
import Wiring.Proofs.Sample
import Wiring.Proofs.Tiers.Exclusive

/-!
# Marks and open builds

A build of a name that is not excluded marks the name when it begins, and takes the mark away when
it ends, by a result, an error or a panic. So the marks mirror the open builds, as long as nobody
changes the exclusion of a name in the middle of one of its builds. What happens to one name does
not depend on the others: the invariant is one about a single name.

## Main definitions

* `Wiring.Episode` — an open build with the tracking of its name when it began.
* `Wiring.Pool.episodes` — the episodes that the steps of a schedule leave open.
* `Wiring.Pool.Steady` — nobody changes the exclusion of a name while a build of it is open.
* `Wiring.Mirrors` — the mark of a name mirrors its episodes.

## Main results

* `Wiring.Pool.mirrors_run` — the mark of a name keeps mirroring its episodes.
* `Wiring.Pool.marks_mirror_builds` — the marks, the call stack, the errors set aside and the
  refusals of cycles, over all runs.
-/

namespace Wiring

variable {v : Vocabulary}

/-! ### Episodes -/

/-- A build that is open, and whether its name was tracked when it began. -/
structure Episode where
  name : String
  tracked : Bool
deriving DecidableEq

/-- The open episodes after a change, where `m` are the marks before it. -/
def Build.Change.episodes (m : Marks) (l : List Episode) : Change → List Episode
  | .begin b => ⟨b.name, !m.isExcluded b.name⟩ :: l
  | .finish _ => l.tail
  | .keep | .exclude .. => l

theorem Build.Change.map_name_episodes {m : Marks} {l : List Episode} {bs : List Build}
    (h : l.map Episode.name = bs.map Build.name) (c : Change) :
    (c.episodes m l).map Episode.name = (c.builds bs).map Build.name := by
  cases c with
  | keep | exclude => exact h
  | begin b => exact congrArg (b.name :: ·) h
  | finish b => simp [episodes, builds, List.map_tail, h]

/-- The name whose exclusion a change turns over. -/
def Build.Change.toggled (m : Marks) : Change → Option String
  | .exclude n on => if m.isExcluded n = on then none else some n
  | .keep | .begin _ | .finish _ => none

namespace Pool

/-- The episodes that the steps of a schedule leave open, where those of `l` were open before. -/
def episodesFrom (app : Application v) : Pool v → List Episode → List Nat → List Episode
  | _, l, [] => l
  | p, l, i :: rest =>
    episodesFrom app (p.step app i) ((p.buildChange i).episodes p.state.registry.marks l) rest

/-- The episodes that the steps of a schedule leave open, innermost first. -/
def episodes (app : Application v) (p : Pool v) (schedule : List Nat) : List Episode :=
  episodesFrom app p [] schedule

/-- No step of a schedule changes the exclusion of `n` while a build of `n` is open. -/
def Steady (app : Application v) (n : String) : Pool v → List Nat → Prop
  | _, [] => True
  | p, i :: rest =>
    ((p.buildChange i).toggled p.state.registry.marks = some n → ∀ b ∈ p.builds, b.name ≠ n) ∧
      Steady app n (p.step app i) rest

/-- The episodes are the open builds. -/
theorem map_name_episodesFrom (app : Application v) {p : Pool v} (hp : p.Serial) {l : List Episode}
    (h : l.map Episode.name = p.builds.map Build.name) (schedule : List Nat) :
    (episodesFrom app p l schedule).map Episode.name =
      (p.run app schedule).builds.map Build.name := by
  induction schedule generalizing p l with
  | nil => exact h
  | cons i rest ih =>
    refine ih (serial_step app hp i) ?_
    rw [(buildChange_step app hp i).builds]
    exact Build.Change.map_name_episodes h _

end Pool

/-! ### The mark of a name -/

/-- The mark of `n` mirrors the open episodes: it is there exactly while a tracked episode of `n` is
open, of which there is never more than one, and an episode of `n` is tracked exactly if `n` is not
excluded now. -/
structure Mirrors (n : String) (m : Marks) (l : List Episode) : Prop where
  marked_iff : m.isMarked n = true ↔ ⟨n, true⟩ ∈ l
  count_le : l.count ⟨n, true⟩ ≤ 1
  tracked_eq : ∀ e ∈ l, e.name = n → e.tracked = !m.isExcluded n

theorem mirrors_empty (n : String) : Mirrors n .empty [] where
  marked_iff := by simp [Marks.isMarked, Marks.empty, ← Names.mem_toList]
  count_le := Nat.zero_le 1
  tracked_eq := by simp

namespace Mirrors

variable {n : String} {m : Marks} {l : List Episode} {b : Build}

/-- A build begins; it is tracked only if its name has no mark yet. -/
theorem begin (h : Mirrors n m l) (hb : m.isExcluded b.name = true ∨ m.isMarked b.name = false) :
    Mirrors n ((Build.Change.begin b).marks m) ((Build.Change.begin b).episodes m l) := by
  obtain ⟨hmarked, hcount, htracked⟩ := h
  refine ⟨?_, ?_, ?_⟩
  · rw [Build.Change.isMarked_begin, Build.Change.episodes, List.mem_cons, Episode.mk.injEq,
      ← hmarked]
    cases m.isExcluded b.name <;> simp [or_comm]
  · rw [Build.Change.episodes, List.count_cons]
    split
    · next heq =>
      obtain ⟨rfl, hx⟩ : b.name = n ∧ m.isExcluded b.name = false := by simpa using heq
      have hnone : ⟨b.name, true⟩ ∉ l := by
        rw [← hmarked, hb.resolve_left (by simp [hx])]
        exact Bool.false_ne_true
      rw [List.count_eq_zero_of_not_mem hnone]
    · exact hcount
  · intro e he hname
    rw [Build.Change.isExcluded_begin]
    rcases List.mem_cons.mp he with rfl | he
    · exact congrArg (!m.isExcluded ·) hname
    · exact htracked e he hname

/-- The innermost build ends; its mark goes if it was tracked. -/
theorem finish {e : Episode} (h : Mirrors n m (e :: l)) (he : e.name = b.name) :
    Mirrors n ((Build.Change.finish b).marks m) l := by
  obtain ⟨hmarked, hcount, htracked⟩ := h
  rw [List.count_cons] at hcount
  refine ⟨?_, by omega, fun e' he' hname => ?_⟩
  · rw [Build.Change.isMarked_finish]
    by_cases hn : n = b.name
    · have hx : e.tracked = !m.isExcluded n := htracked e List.mem_cons_self (he.trans hn.symm)
      obtain ⟨k, tracked⟩ := e
      obtain rfl : k = n := he.trans hn.symm
      subst hn
      cases hex : m.isExcluded b.name with
      | true =>
        obtain rfl : tracked = false := by simpa [hex] using hx
        simpa using hmarked
      | false =>
        -- it was the only tracked build of its name
        obtain rfl : tracked = true := by simpa [hex] using hx
        have hnone : ⟨b.name, true⟩ ∉ l := fun hmem => by
          have := List.count_pos_iff.mpr hmem
          simp at hcount
          omega
        simp [hnone]
    · have hne : ¬ (⟨n, true⟩ : Episode) = e := by
        rintro rfl
        exact hn he
      rw [List.mem_cons, or_iff_right hne] at hmarked
      simpa [hn] using hmarked
  · rw [Build.Change.isExcluded_finish]
    exact htracked e' (List.mem_cons_of_mem _ he') hname

/-- The exclusion of a name changes, but not while a build of it is open. -/
theorem exclude (h : Mirrors n m l) {k : String} {on : Bool}
    (hk : (Build.Change.exclude k on).toggled m = some n → ∀ e ∈ l, e.name ≠ n) :
    Mirrors n (m.setExcluded k on) l := by
  refine ⟨h.marked_iff, h.count_le, fun e he hname => ?_⟩
  rw [Marks.isExcluded_setExcluded]
  split
  · next hnk =>
    subst hnk
    by_cases hon : m.isExcluded n = on
    · rw [← hon]
      exact h.tracked_eq e he hname
    · exact absurd hname (hk (by simp [Build.Change.toggled, hon]) e he)
  · exact h.tracked_eq e he hname

end Mirrors

namespace Pool

/-- The mark of `n` keeps mirroring the open episodes while the exclusion of `n` is steady. -/
theorem mirrors_run (app : Application v) {n : String} {p : Pool v} (hp : p.Serial)
    {l : List Episode} (hl : l.map Episode.name = p.builds.map Build.name)
    (h : Mirrors n p.state.registry.marks l) {schedule : List Nat} (hs : Steady app n p schedule) :
    Mirrors n (p.run app schedule).state.registry.marks (episodesFrom app p l schedule) := by
  induction schedule generalizing p l with
  | nil => exact h
  | cons i rest ih =>
    obtain ⟨hbuilds, hmarks, -⟩ := buildChange_step app hp i
    refine ih (serial_step app hp i) ?_ ?_ hs.2
    · rw [hbuilds]
      exact Build.Change.map_name_episodes hl _
    · rw [hmarks]
      have hsteady := hs.1
      cases hc : p.buildChange i with
      | keep => exact h
      | begin b =>
        obtain ⟨t, -, hcause⟩ := exists_buildCause (p := p) (i := i) (by simp [hc])
        rw [hc] at hcause
        cases hcause with
        | begin c resume stack hf ht hm => exact h.begin hm
      | finish b =>
        rw [builds_of_finish hp hc, List.map_cons] at hl
        obtain ⟨e, rest, rfl, he, -⟩ := List.map_eq_cons_iff.mp hl
        exact h.finish he
      | exclude k on =>
        rw [hc] at hsteady
        refine h.exclude fun htoggled e he hname => ?_
        have hmem : e.name ∈ p.builds.map Build.name := hl ▸ List.mem_map_of_mem he
        obtain ⟨b, hb, hbname⟩ := List.mem_map.mp hmem
        exact hsteady htoggled b hb (hbname.trans hname)

end Pool

/-! ### Requests for a build -/

section Deciding

variable (app : Application v) {s : State v} {g : Goal} {n : String} (c : v.Closure .construct)
  (next : Except Error v.Inst → Code v (g.Result v.Inst)) (stack : Stack v g)

/-- A request for a name that is marked and not excluded is refused, and leaves no trace but a
report. -/
theorem Thread.step_begin_of_marked (hf : s.registry.store.final? n = none)
    (ht : s.registry.tearingDown = false) (hm : s.registry.marks.isMarked n = true)
    (hx : s.registry.marks.isExcluded n = false) :
    (Thread.begin .inside n c next stack).step app s =
      (s.report stack.depth (.creating n), .exec (next (.error (.cycle n))) stack) := by
  have hbegin := Marks.begin_eq_error_iff.mpr ⟨hm, hx, rfl⟩
  simp only [step, beginStep, hf, ht, Registry.openBuild, hbegin, Bool.false_eq_true, if_false]

theorem Thread.exists_step_begin (hf : s.registry.store.final? n = none)
    (ht : s.registry.tearingDown = false)
    (hmx : ¬ (s.registry.marks.isMarked n = true ∧ s.registry.marks.isExcluded n = false)) :
    ∃ s' outermost, (Thread.begin .inside n c next stack).step app s =
      (s', .exec (app.body c) (.building n outermost next stack)) := by
  cases hbegin : s.registry.marks.begin n with
  | error e =>
    obtain ⟨hm, hx, -⟩ := Marks.begin_eq_error_iff.mp hbegin
    exact absurd ⟨hm, hx⟩ hmx
  | ok m =>
    simp only [step, beginStep, hf, ht, Registry.openBuild, hbegin, Bool.false_eq_true, if_false]
    exact ⟨_, _, rfl⟩

namespace Pool

variable {c next stack} {p : Pool v} {i : Nat}

/-- A request for a name that is neither empty nor final gets as far as the lock in three steps, if
nobody else holds it, and changes nothing on the way. -/
theorem run_create (hi : p.threads[i]? = some (.exec (.create n c next) stack))
    (hlock : p.lockedByOther i = false) (hn : n ≠ "") (hf : p.store.final? n = none) :
    p.run app [i, i, i] = ⟨p.state, p.threads.set i (.begin .inside n c next stack)⟩ := by
  have hrun : Wiring.run app 3 (p.state, .exec (.create n c next) stack) =
      (p.state, .begin .inside n c next stack) := by
    simp [Wiring.run, Thread.step, execStep, checkName, hn, beginStep, hf]
  exact (run_replicate app hi hlock 3).trans (by rw [hrun])

/-- The request of thread `i` for a build of `n` is decided: by the step that the thread takes with
the lock, or, if nobody else holds the lock, by its first four steps. -/
inductive Decides (app : Application v) (p : Pool v) (i : Nat) (n : String)
    (c : v.Closure .construct) (next : Except Error v.Inst → Code v (g.Result v.Inst))
    (stack : Stack v g) : Pool v → Prop
  | step (h : p.Takes i (.begin .inside n c next stack)) :
      Decides app p i n c next stack (p.step app i)
  | run (h : p.threads[i]? = some (.exec (.create n c next) stack))
      (hlock : p.lockedByOther i = false) :
      Decides app p i n c next stack (p.run app [i, i, i, i])

/-- The request was refused as a cycle. Nothing happened but a report, and the code that asked goes
on with the error. -/
def Refuses (p : Pool v) (i : Nat) (n : String)
    (next : Except Error v.Inst → Code v (g.Result v.Inst)) (stack : Stack v g) (p' : Pool v) :
    Prop :=
  p' = ⟨p.state.report stack.depth (.creating n),
    p.threads.set i (.exec (next (.error (.cycle n))) stack)⟩

/-- The construct was begun. -/
def Begins (app : Application v) (p : Pool v) (i : Nat) (n : String) (c : v.Closure .construct)
    (next : Except Error v.Inst → Code v (g.Result v.Inst)) (stack : Stack v g) (p' : Pool v) :
    Prop :=
  ∃ s outermost, p' = ⟨s, p.threads.set i (.exec (app.body c) (.building n outermost next stack))⟩

variable {app} {p' : Pool v}

/-- Whichever way a request is decided, the last step decides. -/
theorem Decides.eq_set (h : Decides app p i n c next stack p') (hn : n ≠ "")
    (hf : p.store.final? n = none) :
    p' = ⟨((Thread.begin .inside n c next stack).step app p.state).1,
      p.threads.set i ((Thread.begin .inside n c next stack).step app p.state).2⟩ ∧
    i < p.threads.length := by
  cases h with
  | step ht => exact ⟨step_of_takes app ht, (List.getElem?_eq_some_iff.mp ht.1).1⟩
  | run hi hlock =>
    have hlt : i < p.threads.length := (List.getElem?_eq_some_iff.mp hi).1
    have htakes : Takes ⟨p.state, p.threads.set i (.begin .inside n c next stack)⟩ i
        (.begin .inside n c next stack) :=
      ⟨List.getElem?_set_self hlt, by simp [mayStep, Thread.wantsLock]⟩
    refine ⟨?_, hlt⟩
    rw [show [i, i, i, i] = [i, i, i] ++ [i] from rfl, run_concat, run_create app hi hlock hn hf,
      step_of_takes app htakes, List.set_set]

/-- A request for a name that is not final is refused as a cycle exactly if the name is marked and
not excluded; otherwise its construct is begun. -/
theorem Decides.refuses_iff (h : Decides app p i n c next stack p') (hn : n ≠ "")
    (hf : p.store.final? n = none) (ht : p.state.registry.tearingDown = false) :
    (Refuses p i n next stack p' ↔
      p.state.registry.marks.isMarked n = true ∧ p.state.registry.marks.isExcluded n = false) ∧
    (¬ Refuses p i n next stack p' → Begins app p i n c next stack p') := by
  obtain ⟨hp', hlt⟩ := h.eq_set hn hf
  by_cases hmx : p.state.registry.marks.isMarked n = true ∧
      p.state.registry.marks.isExcluded n = false
  · have hrefuses : Refuses p i n next stack p' := by
      rw [hp', Refuses, Thread.step_begin_of_marked app c next stack hf ht hmx.1 hmx.2]
    exact ⟨iff_of_true hrefuses hmx, absurd hrefuses⟩
  · obtain ⟨s', outermost, hstep⟩ := Thread.exists_step_begin app c next stack hf ht hmx
    rw [hstep] at hp'
    refine ⟨iff_of_false (fun hrefuses => ?_) hmx, fun _ => ⟨s', outermost, hp'⟩⟩
    -- the build that was begun would have to be open already
    have hset := congrArg (·.threads[i]?) (hp'.symm.trans hrefuses)
    simp only [List.getElem?_set_self hlt, Option.some.injEq] at hset
    exact List.cons_ne_self _ _ (congrArg Thread.builds hset)

end Pool

end Deciding

/-! ### Runs -/

theorem count_map_name_filter (l : List Episode) (n : String) :
    ((l.filter (·.tracked)).map Episode.name).count n = l.count ⟨n, true⟩ := by
  induction l with
  | nil => rfl
  | cons e l ih =>
    obtain ⟨k, tracked⟩ := e
    cases tracked <;> simp [List.count_cons, ih]

namespace Pool

section Reached

variable (app : Application v) (o : Options) (w : v.World) (programs : List (Code v Unit))

theorem collecting_reached (schedule : List Nat) : (reached app o w programs schedule).Collecting :=
  collecting_run app (collecting_start o w programs) schedule

theorem serial_reached (schedule : List Nat) : (reached app o w programs schedule).Serial :=
  (collecting_reached app o w programs schedule).serial

theorem map_name_episodes (schedule : List Nat) :
    (episodes app (start (.start o w) programs) schedule).map Episode.name =
      (reached app o w programs schedule).builds.map Build.name :=
  map_name_episodesFrom app (serial_start ..) (by rw [builds_start]; rfl) schedule

theorem mirrors_reached {n : String} {schedule : List Nat}
    (h : Steady app n (start (.start o w) programs) schedule) :
    Mirrors n (reached app o w programs schedule).state.registry.marks
      (episodes app (start (.start o w) programs) schedule) :=
  mirrors_run app (serial_start ..) (by rw [builds_start]; rfl) (mirrors_empty n) h

end Reached

/-- **Marks and the call stack.** Programs are run on a fresh registry, in any order of their steps,
and nobody changes the exclusion of a name while a build of it is open. At every point of the run:

* the episodes are the builds that wait on the stacks of the threads;
* the marked names are those of the tracked episodes;
* tracked episodes have distinct names, so there are no more of them than there are names;
* errors are set aside exactly while a build is open;
* a request for a build of a name that is neither empty nor final, while no teardown is under way,
  is refused as a cycle exactly if a tracked episode of that name is open and the name is not
  excluded; then nothing happens but a report. Otherwise its construct is begun. -/
theorem marks_mirror_builds (app : Application v) (o : Options) (w : v.World)
    (programs : List (Code v Unit)) (schedule : List Nat)
    (h : ∀ n, Steady app n (start (.start o w) programs) schedule) :
    let p := reached app o w programs schedule
    let l := episodes app (start (.start o w) programs) schedule
    l.map Episode.name = p.builds.map Build.name ∧
    (∀ n, p.state.registry.marks.isMarked n = true ↔ ⟨n, true⟩ ∈ l) ∧
    ((l.filter (·.tracked)).map Episode.name).Nodup ∧
    (∀ names : Finset String, (∀ e ∈ l, e.tracked = true → e.name ∈ names) →
      (l.filter (·.tracked)).length ≤ names.card) ∧
    (p.state.registry.suppressed ≠ none ↔ p.builds ≠ []) ∧
    ∀ (g : Goal) (n : String) (c : v.Closure .construct)
      (next : Except Error v.Inst → Code v (g.Result v.Inst)) (stack : Stack v g) (i : Nat)
      (p' : Pool v), n ≠ "" → p.store.final? n = none → p.state.registry.tearingDown = false →
      Decides app p i n c next stack p' →
      (Refuses p i n next stack p' ↔
        ⟨n, true⟩ ∈ l ∧ p.state.registry.marks.isExcluded n = false) ∧
      (¬ Refuses p i n next stack p' → Begins app p i n c next stack p') := by
  intro p l
  have hmirrors (n : String) : Mirrors n p.state.registry.marks l :=
    mirrors_reached app o w programs (h n)
  have hnodup : ((l.filter (·.tracked)).map Episode.name).Nodup := by
    refine List.nodup_iff_count_le_one.mpr fun n => ?_
    rw [count_map_name_filter]
    exact (hmirrors n).count_le
  refine ⟨map_name_episodes app o w programs schedule, fun n => (hmirrors n).marked_iff, hnodup,
    fun names hsub => ?_, ?_, ?_⟩
  · calc (l.filter (·.tracked)).length
        = ((l.filter (·.tracked)).map Episode.name).toFinset.card := by
          rw [List.toFinset_card_of_nodup hnodup, List.length_map]
      _ ≤ names.card := by
          refine Finset.card_le_card fun n hn => ?_
          obtain ⟨e, he, rfl⟩ := List.mem_map.mp (List.mem_toFinset.mp hn)
          exact hsub e (List.mem_filter.mp he).1 (List.mem_filter.mp he).2
  · have hcollecting : p.state.registry.suppressed.isSome = !p.builds.isEmpty :=
      (collecting_run app (collecting_start o w programs) schedule).isSome_suppressed
    rw [← Option.isSome_iff_ne_none, hcollecting]
    simp
  · intro g n c next stack i p' hn hf ht hd
    rw [← (hmirrors n).marked_iff]
    exact hd.refuses_iff hn hf ht

end Pool

/-! ### A build that comes back to itself through an excluded name -/

/-- An application in which the construct of "a" asks for "x", and that of "x" for "a". -/
def Sample.revisiting : Application Sample.vocabulary where
  body {g} (c : String) :=
    match g with
    | .construct => if c = "a" then .obtainOrCreate "x" "x" else .obtainOrCreate "a" "a"
    | .main => .done ()
    | .producer => .done (0 : Nat)
    | .hook | .block => .done (.ok ())

/-- A program that excludes "x" from tracking and then asks for "a". -/
def Sample.revisitingMain : Code Sample.vocabulary Unit := do
  let _ ← .ask (.setExcluded "x" true)
  let _ ← .obtainOrCreate "a" "a"

/-- After nine steps the builds of "a" and of "x" are open, the latter untracked, and the request of
"x" for "a" is refused. -/
theorem Sample.marks_mirror_builds_revisiting :
    let p := Pool.reached revisiting .default () [revisitingMain] (List.replicate 9 0)
    let l := Pool.episodes revisiting (.start (.start .default ()) [revisitingMain])
      (List.replicate 9 0)
    l = [⟨"x", false⟩, ⟨"a", true⟩] ∧ p.state.registry.marks.isMarked "a" = true ∧
      p.state.registry.suppressed ≠ none ∧
      Pool.Refuses p 0 "a" Code.done (.building "x" false Code.done
        (.building "a" true (fun _ => Code.done ()) .top)) (p.run revisiting [0, 0, 0, 0]) := by
  have hsteady (n : String) : Pool.Steady revisiting n
      (.start (.start .default ()) [revisitingMain]) (List.replicate 9 0) :=
    ⟨fun _ _ hb => absurd hb List.not_mem_nil,
      nofun, nofun, nofun, nofun, nofun, nofun, nofun, nofun, trivial⟩
  obtain ⟨-, hmarked, -, -, hsuppressed, hdecides⟩ :=
    Pool.marks_mirror_builds revisiting .default () [revisitingMain] (List.replicate 9 0) hsteady
  refine ⟨rfl, (hmarked "a").mpr (by decide), hsuppressed.mpr (by decide), ?_⟩
  exact (hdecides .construct "a" "a" Code.done _ 0 _ (by decide) rfl rfl (.run rfl rfl)).1.mpr
    ⟨by decide, rfl⟩

end Wiring
