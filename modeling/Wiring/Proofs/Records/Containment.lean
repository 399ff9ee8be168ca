import Mathlib.Data.List.Permutation
import Wiring.Proofs.Records.Change

/-!
# Containers and the components that depend on their parts

A container should depend on each of its parts, so that a part is never destroyed before it. The
dependency is recorded along with a new containment. But a destruction withdraws dependencies and
containments one after the other, with hooks in between, and a hook may record a containment when
the dependencies of one of the two components are about to be withdrawn. Then the containment is
left without its dependency, and recording it once more changes nothing, since it is known.

## Main definitions

* `Wiring.Edges.Severed` — a containment without its dependency.
* `Wiring.Links.Command.Severs`, `Wiring.Links.Command.Reconciles` — the commands after which there
  is one, and there is none.

## Main results

* `Wiring.Edges.severed_obey_iff` — what a command does to a containment.
* `Wiring.Pool.severed_reached_iff` — when there is a containment without its dependency.
* `Wiring.Pool.container_depends_unless_severed` — what recording a containment achieves.
* `Wiring.Sample.not_dependent_reattaching` — a part that its container does not depend on.
-/

namespace Wiring

variable {v : Vocabulary}

/-! ### Containments without their dependency -/

/-- It is recorded that `outer` contains `inner`, but not that it depends on it. -/
def Edges.Severed (e : Edges) (inner outer : String) : Prop :=
  (outer, inner) ∈ e.parts ∧ (inner, outer) ∉ e.needs

namespace Links

namespace Command

/-- The command withdraws the dependency of `outer` on `inner` and leaves the containment. -/
def Severs (inner outer : String) : Command → Prop
  | .takeDependents n => n = inner
  | .scrub n => n = inner ∨ n = outer
  | .depend .. | .contain .. | .isDependent .. | .takeParts _ | .clear | .overview _ => False

/-- The command records the dependency of `outer` on `inner`, or withdraws the containment. -/
def Reconciles (inner outer : String) : Command → Prop
  | .depend a b => a = inner ∧ b = outer
  | .takeParts n => n = outer
  | .clear => True
  | .contain .. | .isDependent .. | .takeDependents _ | .scrub _ | .overview _ => False

end Command

/-- A dependent that is recorded is found. -/
theorem isDependent_of_mem {g : Links} {n candidate : String}
    (h : candidate ∈ g.dependentsOf n) : g.isDependent n candidate = true := by
  unfold isDependent reaches
  rw [dependentsOf, namesAt] at h
  split
  · next hs => cases hs
  · split
    · next hn =>
      rw [hn] at h
      cases h
    · next direct hn =>
      rw [hn] at h
      have hd : candidate ∈ direct := h
      simp [hd]

end Links

/-- There is a containment without its dependency after a command exactly if the command withdraws
the dependency of a recorded containment, or there was one before and the command does not put it
right. -/
theorem Edges.severed_obey_iff {e : Edges} {c : Links.Command} {inner outer : String} :
    (e.obey c).Severed inner outer ↔ c.Severs inner outer ∧ (outer, inner) ∈ e.parts ∨
      e.Severed inner outer ∧ ¬ c.Reconciles inner outer := by
  cases c with
  | depend a b =>
    simp only [obey, depend, Severed, Links.Command.Severs, Links.Command.Reconciles,
      Pairs.mem_insert, Prod.mk.injEq]
    grind
  | contain a b =>
    simp only [obey, contain, Links.Command.Severs, Links.Command.Reconciles]
    split
    · simp
    · -- a new containment comes with its dependency
      simp only [Severed, depend, Pairs.mem_insert, Prod.mk.injEq]
      grind
  | takeDependents n =>
    simp only [obey, takeDependents, Severed, Links.Command.Severs, Links.Command.Reconciles,
      Pairs.mem_filter]
    grind
  | takeParts n =>
    simp only [obey, takeParts, Severed, Links.Command.Severs, Links.Command.Reconciles,
      Pairs.mem_filter]
    grind
  | scrub n =>
    simp only [obey, scrub, Severed, Links.Command.Severs, Links.Command.Reconciles,
      Pairs.mem_filter]
    grind
  | clear => simp [obey, Severed, empty, Links.Command.Severs, Links.Command.Reconciles]
  | isDependent | overview =>
    simp [obey, Links.Command.Severs, Links.Command.Reconciles]

theorem Links.Shows.severed_iff {g : Links} {e : Edges} (h : g.Shows e) {inner outer : String} :
    e.Severed inner outer ↔ inner ∈ g.partsOf outer ∧ outer ∉ g.dependentsOf inner := by
  rw [Edges.Severed, h.mem_partsOf, h.mem_dependentsOf]

/-! ### Runs -/

namespace Pool

/-- The next step of the pool, if it is the turn of thread `i`, gives the records a command that
satisfies `C`. -/
def Commands (p : Pool v) (i : Nat) (C : Links.Command → Prop) : Prop :=
  ∃ t c, p.Takes i t ∧ t.command? = some c ∧ C c

variable (app : Application v) (o : Options) (w : v.World) (programs : List (Code v Unit))

/-- There is a containment without its dependency at some point of a run exactly if a step has
withdrawn the dependency while the containment was recorded, and no later one has recorded it or
withdrawn the containment. -/
theorem severed_reached_iff (inner outer : String) (schedule : List Nat) :
    (inner ∈ (reached app o w programs schedule).state.registry.links.partsOf outer ∧
        outer ∉ (reached app o w programs schedule).state.registry.links.dependentsOf inner) ↔
      ∃ l i, l ++ [i] <+: schedule ∧
        ((reached app o w programs l).Commands i (·.Severs inner outer) ∧
          inner ∈ (reached app o w programs l).state.registry.links.partsOf outer) ∧
        ∀ l' j, l ++ [i] <+: l' → l' ++ [j] <+: schedule →
          ¬ (reached app o w programs l').Commands j (·.Reconciles inner outer) := by
  refine holds_iff_since (P := fun l =>
    inner ∈ (reached app o w programs l).state.registry.links.partsOf outer ∧
      outer ∉ (reached app o w programs l).state.registry.links.dependentsOf inner)
    (Q := fun l i => (reached app o w programs l).Commands i (·.Severs inner outer) ∧
      inner ∈ (reached app o w programs l).state.registry.links.partsOf outer)
    (R := fun l i => (reached app o w programs l).Commands i (·.Reconciles inner outer))
    (fun h => List.not_mem_nil h.1) (fun l i => ?_) schedule
  obtain ⟨e, he⟩ := shows_reached app o w programs l
  rw [reached_concat]
  by_cases htakes : ∃ t, (reached app o w programs l).Takes i t
  · obtain ⟨t, ht⟩ := htakes
    have hcommands (C : Links.Command → Prop) :
        (reached app o w programs l).Commands i C ↔ ∃ c, t.command? = some c ∧ C c := by
      refine ⟨fun ⟨u, c, hu, hc⟩ => ?_, fun ⟨c, hc⟩ => ⟨t, c, ht, hc⟩⟩
      obtain rfl : t = u := Option.some.inj (ht.1.symm.trans hu.1)
      exact ⟨c, hc⟩
    rw [step_of_takes app ht, t.links_step app, hcommands, hcommands]
    cases hc : t.command? with
    | none => simp [Links.after]
    | some c =>
      rw [← he.severed_iff, ← (he.after (some c)).severed_iff, he.mem_partsOf]
      simpa using Edges.severed_obey_iff
  · have hnone (C : Links.Command → Prop) : ¬ (reached app o w programs l).Commands i C :=
      fun ⟨t, _, ht, _⟩ => htakes ⟨t, ht⟩
    rw [step_of_not_takes app (not_exists.mp htakes)]
    simp [hnone]

/-- **Containment and dependency.** Programs are run on a fresh registry, in any order of their
steps, and one of them records that `outer` contains `inner`. It is told that all is well, and
`inner` is a part of `outer` afterwards.

* The container depends on its part afterwards, as can be seen from either side and by the search
  for dependents, unless the containment was recorded before without this dependency; if it was,
  nothing changes, and the dependency is missing as before.
* A containment is there without its dependency exactly if a destruction has withdrawn the
  dependency while the containment was recorded, and since then no step has recorded the dependency
  by itself or withdrawn the containment. -/
theorem container_depends_unless_severed (schedule : List Nat) {i : Nat} {inner outer : String}
    {g : Goal} {next : Except Error Unit → Code v (g.Result v.Inst)} {stack : Stack v g}
    (hi : inner ≠ "") (ho : outer ≠ "")
    (ht : (reached app o w programs schedule).Takes i
      (.exec (.call (.contain inner outer) next) stack)) :
    let r := (reached app o w programs schedule).state.registry
    let r' := (reached app o w programs (schedule ++ [i])).state.registry
    let severed := inner ∈ r.links.partsOf outer ∧ outer ∉ r.links.dependentsOf inner
    ((Request.contain inner outer).answer r).reply = .ok () ∧
    inner ∈ r'.links.partsOf outer ∧
    (¬ severed → outer ∈ r'.links.dependentsOf inner ∧ inner ∈ r'.links.dependenciesOf outer ∧
      r'.links.isDependent inner outer = true) ∧
    (severed → r'.links = r.links ∧ outer ∉ r'.links.dependentsOf inner ∧
      inner ∉ r'.links.dependenciesOf outer) ∧
    (severed ↔ ∃ l j, l ++ [j] <+: schedule ∧
      ((reached app o w programs l).Commands j (·.Severs inner outer) ∧
        inner ∈ (reached app o w programs l).state.registry.links.partsOf outer) ∧
      ∀ l' k, l ++ [j] <+: l' → l' ++ [k] <+: schedule →
        ¬ (reached app o w programs l').Commands k (·.Reconciles inner outer)) := by
  intro r r' severed
  obtain ⟨e, he⟩ := shows_reached app o w programs schedule
  have hlinks : r'.links = (r.links.contain inner outer).2 := by
    simp only [r', reached_concat, step_of_takes app ht, Thread.step, execStep,
      State.registry_after, Request.answer]
    exact congrArg Registry.links (r.contain_of_ne hi ho).2
  have he' : r'.links.Shows (e.contain inner outer) := hlinks ▸ he.contain inner outer
  have hsevered : e.Severed inner outer ↔ severed := he.severed_iff
  refine ⟨(r.contain_of_ne hi ho).1, ?_, fun hnot => ?_, fun hs => ?_,
    severed_reached_iff app o w programs inner outer schedule⟩
  · rw [hlinks, Links.mem_partsOf_contain]
    exact .inr ⟨rfl, rfl⟩
  · have hneeds : (inner, outer) ∈ (e.contain inner outer).needs := by
      rw [Edges.contain]
      split
      · next hold => exact Decidable.byContradiction fun hn => hnot (hsevered.mp ⟨hold, hn⟩)
      · exact Pairs.mem_insert.mpr (.inr rfl)
    have hdep : outer ∈ r'.links.dependentsOf inner := he'.mem_dependentsOf.mpr hneeds
    exact ⟨hdep, he'.mem_dependenciesOf.mpr hneeds, Links.isDependent_of_mem hdep⟩
  · have hknown : inner ∈ Links.namesAt r.links.parts outer := hs.1
    have hsame : r'.links = r.links := by
      rw [hlinks, Links.contain, if_pos hknown]
    rw [hsame]
    refine ⟨rfl, hs.2, fun hback => hs.2 ?_⟩
    rw [he.mem_dependentsOf]
    exact he.mem_dependenciesOf.mp hback

end Pool

/-! ### A part that is attached again -/

namespace Sample

/-- An application whose hooks record that "box" contains "late". -/
def reattaching : Application vocabulary where
  body {g} _ :=
    match g with
    | .hook => do
      let _ ← .ask (.contain "late" "box")
      return .ok ()
    | .main => .done ()
    | .construct => .done (.ok (0 : Nat))
    | .producer => .done (0 : Nat)
    | .block => .done (.ok ())

/-- A program that destroys "box" together with its part "part", which has a hook, and then records
that "box" contains "late". -/
def reattachingMain : Code vocabulary Unit := do
  let _ ← .ask (.storeHook "part" "reattaching")
  let _ ← .ask (.contain "part" "box")
  .destroy "box" do
    let _ ← .ask (.contain "late" "box")

/-- A run of that program, after so many steps. -/
def reattachingRun (k : Nat) : Pool vocabulary :=
  .reached reattaching .default () [reattachingMain] (List.replicate k 0)

/-- The hook records the containment and with it the dependency. A later step of the destruction
withdraws the dependency alone, so that recording the containment again does not bring it back. -/
theorem container_depends_unless_severed_reattaching :
    (("late" : String) ≠ "" ∧ ("box" : String) ≠ "") ∧
    "box" ∈ (reattachingRun 11).state.registry.links.dependentsOf "late" ∧
    "late" ∈ (reattachingRun 17).state.registry.links.partsOf "box" ∧
    "box" ∉ (reattachingRun 17).state.registry.links.dependentsOf "late" ∧
    ∃ l j, l ++ [j] <+: List.replicate 16 0 ∧
      (Pool.reached reattaching .default () [reattachingMain] l).Commands j
        (·.Severs "late" "box") := by
  have hlate : ("late" : String) ≠ "" := by decide
  have hbox : ("box" : String) ≠ "" := by decide
  obtain ⟨-, -, hnew, -⟩ := Pool.container_depends_unless_severed reattaching .default ()
    [reattachingMain] (List.replicate 10 0) (i := 0) hlate hbox ⟨rfl, rfl⟩
  obtain ⟨-, hpart, -, hknown, hsince⟩ := Pool.container_depends_unless_severed reattaching
    .default () [reattachingMain] (List.replicate 16 0) (i := 0) hlate hbox ⟨rfl, rfl⟩
  have hsevered : "late" ∈ (reattachingRun 16).state.registry.links.partsOf "box" ∧
      "box" ∉ (reattachingRun 16).state.registry.links.dependentsOf "late" := by decide
  obtain ⟨l, j, hl, ⟨hcommands, -⟩, -⟩ := hsince.mp hsevered
  exact ⟨⟨hlate, hbox⟩, (hnew (by decide)).1, hpart, (hknown hsevered).2.1, l, j, hl, hcommands⟩

/-- The containment is recorded while nothing is being destroyed, and all is said to be well; yet
the container does not depend on its part afterwards. -/
theorem not_dependent_reattaching :
    (∃ next, (reattachingRun 16).Takes 0
      (.exec (g := .main) (.call (.contain "late" "box") next) .top)) ∧
    ((Request.contain "late" "box").answer (reattachingRun 16).state.registry).reply = .ok () ∧
    (reattachingRun 17).state.registry.links.partsOf "box" = ["late"] ∧
    (reattachingRun 17).state.registry.links.dependentsOf "late" = [] ∧
    (reattachingRun 17).state.registry.links.dependenciesOf "box" = [] ∧
    (reattachingRun 17).state.registry.links.isDependent "late" "box" = false :=
  ⟨⟨_, rfl, rfl⟩, by decide, by decide, by decide, by decide, by cbv⟩

end Sample

end Wiring
