import Wiring.Proofs.Tiers.Index

/-!
# What a failed construct leaves of its own name

A construct fails if it returns an error that no final instance makes up for, or if a panic leaves
it. Either way the end of its build discards what is staged for the name, in one step with the end
of the request. What ran inside the build is of no importance, not even whether the build is still
tracked when it ends: a construct that changes the exclusion of its own name only changes the error
that its request is answered with.

## Main definitions

* `Wiring.Store.Cleaned` — what the clean-up of a name makes of the tiers.

## Main results

* `Wiring.Registry.settle_of_failed` — an error ends a build as a panic does.
* `Wiring.Store.Indexed.cleaned_discard` — what is staged goes, and what is final stays.
* `Wiring.Pool.failed_construct_cleaned` — both, over all runs.
-/

namespace Wiring

/-! ### Discarding what is staged -/

namespace Store

variable {ι φ : Type}

/-- What the clean-up of `n` makes of the tiers: nothing is staged for `n`, which is registered if
and only if it is final; the final tier and all other names are as they were. -/
structure Cleaned (n : String) (s s' : Store ι φ) : Prop where
  early?_eq : s'.early? n = none
  producers_eq : s'.producers.find? n = none
  registered_iff : n ∈ s'.registered ↔ s'.final? n ≠ none
  finals_eq : s'.finals = s.finals
  others : ∀ m, m ≠ n → s'.early? m = s.early? m ∧
    s'.producers.find? m = s.producers.find? m ∧ (m ∈ s'.registered ↔ m ∈ s.registered)

/-- If no final name is missing in the index, discarding what is staged cleans up. -/
theorem Indexed.cleaned_discard {s : Store ι φ} (h : s.Indexed) (n : String) :
    Cleaned n s (s.discard n) where
  early?_eq := by simp [discard, early?]
  producers_eq := by simp [discard]
  registered_iff := by
    rw [registered_discard, final?_discard, isFinal_iff]
    exact ⟨fun hn => hn.2 rfl, fun hf => ⟨h n (.inl hf), fun _ => hf⟩⟩
  finals_eq := rfl
  others m hm := by
    refine ⟨?_, ?_, ?_⟩
    · simp [discard, early?, Table.find?_erase, hm.symm]
    · simp [discard, Table.find?_erase, hm.symm]
    · simp [registered_discard, hm]

end Store

variable {v : Vocabulary}

/-! ### The end of a failed build -/

namespace Registry

variable {r : v.Registry} {n : String}

/-- An error that no final instance makes up for ends a build as a panic does, and nothing is
reported. The request is answered with this error, perhaps with others attached, or with another one
that does not say that somebody was first. -/
theorem settle_of_failed {e : Error} (outermost : Bool)
    (h : e.isRace n = true → r.store.final? n = none) :
    ∃ e', r.settle n outermost (.error e) = ⟨.error e', r.abandon n outermost, none⟩ ∧
      (e' = e ∨ ∀ m, e'.isRace m = false) := by
  obtain ⟨e', he', hrace⟩ : ∃ e', r.outcome n outermost (.error e) = .failed e' ∧
      (e' = e ∨ ∀ m, e'.isRace m = false) := by
    rw [outcome]
    split
    · next hrace =>
      rw [h hrace]
      exact ⟨e, rfl, .inl rfl⟩
    · refine ⟨_, rfl, ?_⟩
      cases e with
      | creationFailed => exact .inr fun _ => rfl
      | _ => exact .inl rfl
  cases hm : r.marks.finish n with
  | error e₀ =>
    obtain ⟨-, -, rfl⟩ := Marks.finish_eq_error_iff.mp hm
    exact ⟨.notInCreation n, by simp only [settle, he', hm]; rfl, .inr fun _ => rfl⟩
  | ok m => exact ⟨e', by simp only [settle, he', hm]; rfl, hrace⟩

end Registry

/-! ### Runs -/

namespace Pool

/-- **Failed constructs.** Programs are run on a fresh registry, in any order of their steps. At
every point of the run where a construct of `n` has failed, whatever has run inside it, the next
step of its thread ends the request and cleans up `n`:

* where the construct has returned an error, the request is answered with an error, unless the
  error says that somebody was first and there is a final instance of `n`;
* where a panic has left the construct, the panic goes on below the request. -/
theorem failed_construct_cleaned (app : Application v) (o : Options) (w : v.World)
    (programs : List (Code v Unit)) (schedule : List Nat) (i : Nat) (g : Goal) (n : String)
    (outermost : Bool) (resume : Except Error v.Inst → Code v (g.Result v.Inst))
    (rest : Stack v g) :
    let p := reached app o w programs schedule
    (∀ e, p.threads[i]? = some (.exec (g := .construct) (.done (.error e))
        (.building n outermost resume rest)) →
      (e.isRace n = true → p.store.final? n = none) →
      Store.Cleaned n p.store (p.step app i).store ∧
        ∃ e', (p.step app i).threads[i]? = some (.exec (resume (.error e')) rest)) ∧
    ∀ q, p.threads[i]? = some (.unwind q (.building n outermost resume rest)) →
      Store.Cleaned n p.store (p.step app i).store ∧
        (p.step app i).threads[i]? = some (.unwind q rest) := by
  intro p
  have hindexed : p.store.Indexed := indexed_run app Store.indexed_empty schedule
  refine ⟨fun e hi hrace => ?_, fun q hi => ?_⟩
  · have hlt : i < p.threads.length := (List.getElem?_eq_some_iff.mp hi).1
    obtain ⟨e', he', -⟩ := Registry.settle_of_failed outermost hrace
    rw [step_of_construct_done app hi, he']
    exact ⟨hindexed.cleaned_discard n, e', List.getElem?_set_self hlt⟩
  · have htakes : p.Takes i (.unwind q (.building n outermost resume rest)) :=
      ⟨hi, by simp [mayStep, Thread.wantsLock]⟩
    rw [getElem?_step_self app htakes, step_of_takes app htakes]
    exact ⟨hindexed.cleaned_discard n, rfl⟩

end Pool

/-! ### A construct that fails after its name became final -/

namespace Sample

/-- An application with two constructs. That of "a" publishes an early reference, looks it up, and
returns an error; the producer registers instance 1 as "a" and returns instance 2. That of "b"
publishes an early reference, includes "b" in tracking, and panics. -/
def faltering : Application vocabulary where
  body {g} (c : String) :=
    match g with
    | .construct => do
      let _ ← .ask (.publish c c)
      let _ ← .obtain c
      if c = "a" then return .error (.creationFailed "a" "gave up" [])
      let _ ← .ask (.setExcluded c false)
      .panic (.text "gave up")
    | .producer => do
      let _ ← .ask (.register c (1 : Nat))
      return (2 : Nat)
    | .main => return ()
    | .hook | .block => return .ok ()

/-- A program that asks for "a", excludes "b" from tracking, and asks for "b". -/
def falteringMain : Code vocabulary Unit := do
  let _ ← .obtainOrCreate "a" "a"
  let _ ← .ask (.setExcluded "b" true)
  let _ ← .obtainOrCreate "b" "b"

/-- A run of that program, after so many steps. -/
def falteringRun (k : Nat) : Pool vocabulary :=
  .reached faltering .default () [falteringMain] (List.replicate k 0)

/-- Both constructs fail while something is staged for their names. Afterwards "a" has the instance
that was registered, and "b" is unknown. -/
theorem failed_construct_cleaned_faltering :
    ((falteringRun 11).store.isStaged "a" = true ∧
      Store.Cleaned "a" (falteringRun 11).store (falteringRun 12).store ∧
      (falteringRun 12).store.final? "a" = some (1 : Nat)) ∧
    (falteringRun 22).store.isStaged "b" = true ∧
      Store.Cleaned "b" (falteringRun 22).store (falteringRun 23).store ∧
      (falteringRun 23).store.names = ["a"] := by
  obtain ⟨ha, -⟩ := (Pool.failed_construct_cleaned faltering .default () [falteringMain]
    (List.replicate 11 0) 0 .main "a" true _ .top).1 _ rfl nofun
  obtain ⟨hb, -⟩ := (Pool.failed_construct_cleaned faltering .default () [falteringMain]
    (List.replicate 22 0) 0 .main "b" true _ .top).2 _ rfl
  exact ⟨⟨rfl, ha, rfl⟩, rfl, hb, rfl⟩

end Sample

end Wiring
