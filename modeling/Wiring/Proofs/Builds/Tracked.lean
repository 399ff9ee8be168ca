import Wiring.Proofs.Builds.Success

/-!
# Names that are never excluded

If a name is never excluded from tracking, its mark tells whether a build of it is open: the build
marks the name when it begins and takes the mark away when it ends, and no second build can begin in
between. Most of what can be said about a name over the runs of a pool is proved along with this,
step by step (`Wiring.Pool.tracked_induction`).

## Main definitions

* `Wiring.Pool.NeverExcludes` — a stretch of a run in which a name is never excluded.
* `Wiring.Pool.Tracked` — the mark of a name tells whether a build of it is open.

## Main results

* `Wiring.Pool.tracked_reached` — a name that is never excluded is tracked.
* `Wiring.Pool.tracked_induction` — what each step keeps while a name is tracked, every run keeps.
-/

namespace Wiring

variable {v : Vocabulary}

namespace Pool

/-! ### Stretches without an exclusion -/

/-- At no point of the steps of a schedule is `n` excluded from tracking. -/
def NeverExcludes (app : Application v) (n : String) : Pool v → List Nat → Prop
  | p, [] => p.state.registry.marks.isExcluded n = false
  | p, i :: rest =>
    p.state.registry.marks.isExcluded n = false ∧ NeverExcludes app n (p.step app i) rest

instance instDecidableNeverExcludes (app : Application v) (n : String) :
    (p : Pool v) → (l : List Nat) → Decidable (NeverExcludes app n p l)
  | p, [] => inferInstanceAs (Decidable (p.state.registry.marks.isExcluded n = false))
  | p, i :: rest =>
    have := instDecidableNeverExcludes app n (p.step app i) rest
    inferInstanceAs (Decidable (_ ∧ _))

namespace NeverExcludes

variable {app : Application v} {n : String} {p : Pool v} {l m : List Nat}

theorem isExcluded_eq_false (h : NeverExcludes app n p l) :
    p.state.registry.marks.isExcluded n = false := by
  cases l with
  | nil => exact h
  | cons i rest => exact h.1

theorem of_append (h : NeverExcludes app n p (l ++ m)) :
    NeverExcludes app n p l ∧ NeverExcludes app n (p.run app l) m := by
  induction l generalizing p with
  | nil => exact ⟨h.isExcluded_eq_false, h⟩
  | cons i l ih => exact ⟨⟨h.1, (ih h.2).1⟩, (ih h.2).2⟩

/-- The exclusion of a name that is never excluded does not change at all. -/
theorem steady (h : NeverExcludes app n p l) (hp : p.Serial) : Steady app n p l := by
  induction l generalizing p with
  | nil => trivial
  | cons i rest ih =>
    refine ⟨fun htoggled => ?_, ih h.2 (serial_step app hp i)⟩
    have hnext := h.2.isExcluded_eq_false
    rw [(buildChange_step app hp i).marks] at hnext
    cases hc : p.buildChange i with
    | exclude k on =>
      rw [hc] at htoggled hnext
      rw [Build.Change.toggled] at htoggled
      split at htoggled
      · cases htoggled
      · next hon =>
        obtain rfl := Option.some.inj htoggled
        rw [Build.Change.marks, Marks.isExcluded_setExcluded, if_pos rfl] at hnext
        exact absurd (h.1.trans hnext.symm) hon
    | keep | begin | finish =>
      rw [hc] at htoggled
      cases htoggled

end NeverExcludes

/-! ### Tracked names -/

/-- `n` is not excluded; it is marked exactly while a build of it is open, and there is never more
than one. -/
structure Tracked (p : Pool v) (n : String) : Prop where
  included : p.state.registry.marks.isExcluded n = false
  marked_iff : p.state.registry.marks.isMarked n = true ↔ ∃ b ∈ p.builds, b.name = n
  count_le : (p.builds.map Build.name).count n ≤ 1

/-- The open builds of a tracked name can be closed in good order. -/
theorem Tracked.finishes {p : Pool v} {n : String} (h : p.Tracked n)
    (hopen : ∃ b ∈ p.builds, b.name = n) : p.state.registry.marks.Finishes n :=
  .inr (h.marked_iff.mpr hopen)

section Reached

variable (app : Application v) (o : Options) (w : v.World) (programs : List (Code v Unit))
  {n : String} {schedule : List Nat}

/-- A name that is never excluded is tracked. -/
theorem tracked_reached (h : NeverExcludes app n (start (.start o w) programs) schedule) :
    (reached app o w programs schedule).Tracked n := by
  have hmirrors := mirrors_reached app o w programs (h.steady (serial_start ..))
  have hnames := map_name_episodes app o w programs schedule
  set l := episodes app (start (.start o w) programs) schedule
  have hx : (reached app o w programs schedule).state.registry.marks.isExcluded n = false :=
    (NeverExcludes.of_append (m := []) (by rwa [List.append_nil])).2
  -- all episodes of `n` are tracked
  have htracked : ∀ e ∈ l, e.name = n ↔ e = ⟨n, true⟩ := fun e he => by
    refine ⟨fun hn => ?_, fun hn => by rw [hn]⟩
    have ht := hmirrors.tracked_eq e he hn
    rw [hx] at ht
    cases e
    simp_all
  refine ⟨hx, ?_, ?_⟩
  · rw [hmirrors.marked_iff, ← List.mem_map, ← hnames, List.mem_map]
    exact ⟨fun he => ⟨_, he, rfl⟩, fun ⟨e, he, hn⟩ => (htracked e he).mp hn ▸ he⟩
  · calc ((reached app o w programs schedule).builds.map Build.name).count n
        = (l.map Episode.name).count n := by rw [hnames]
      _ = l.count ⟨n, true⟩ := by
          rw [List.count, List.countP_map, List.count]
          exact List.countP_congr fun e he => by simp [htracked e he]
      _ ≤ 1 := hmirrors.count_le

/-- What holds at the start and is kept by every step while `n` is tracked, holds of every run in
which `n` is never excluded. -/
theorem tracked_induction {P : Pool v → Prop} (hstart : P (start (.start o w) programs))
    (hstep : ∀ p i t, p.Collecting → p.Tracked n → p.Takes i t → P p → P (p.step app i))
    (h : NeverExcludes app n (start (.start o w) programs) schedule) :
    P (reached app o w programs schedule) := by
  induction schedule using List.reverseRecOn with
  | nil => exact hstart
  | append_singleton l i ih =>
    have hl := h.of_append.1
    rw [reached_concat]
    by_cases ht : ∃ t, (reached app o w programs l).Takes i t
    · obtain ⟨t, ht⟩ := ht
      exact hstep _ i t (collecting_reached app o w programs l)
        (tracked_reached app o w programs hl) ht (ih hl)
    · rw [step_of_not_takes app (not_exists.mp ht)]
      exact ih hl

end Reached

end Pool

end Wiring
