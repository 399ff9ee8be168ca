import Wiring.Proofs.Builds.Sheltered

/-!
# The index of registered names

Beside the tiers, the store keeps the list of the names that came in. Every change of the tiers
keeps the list in step: a name that is bound or staged for the first time goes to its end, and a
name that goes is taken out where it stands. What is left to see is that no name is left behind. A
name that is registered without being final is being built, since only a build can stage a name, and
no build ends without taking the name out or leaving it final.

## Main definitions

* `Wiring.Store.Indexed` — what is final or has a producer is registered.

## Main results

* `Wiring.Store.names_apply` — a change puts one name at the end, or takes names out.
* `Wiring.Pool.names_exact` — which names are registered, and in which order, over all runs.
-/

namespace Wiring

/-! ### Changes of the tiers -/

/-- A name that comes in goes to the end, unless it was there. -/
theorem Names.toList_insert_cases (k : Names) (n : String) :
    (∃ m, m ∉ k.toList ∧ (k.insert n).toList = k.toList ++ [m]) ∨
      ∃ keep : String → Bool, (k.insert n).toList = k.toList.filter keep := by
  rw [toList_insert]
  split
  · exact .inr ⟨fun _ => true, by simp⟩
  · next hn => exact .inl ⟨n, hn, rfl⟩

namespace Store

variable {ι φ : Type} {s : Store ι φ}

theorem nodup_names (s : Store ι φ) : s.names.Nodup := s.registered.nodup

/-- What is final or has a producer is registered. -/
def Indexed (s : Store ι φ) : Prop :=
  ∀ n, s.final? n ≠ none ∨ s.producers.find? n ≠ none → n ∈ s.registered

theorem indexed_empty : (empty : Store ι φ).Indexed := fun _ h => h.elim (absurd rfl) (absurd rfl)

/-- Every change keeps the index complete. -/
theorem Indexed.apply (h : s.Indexed) (c : Change ι φ) : (c.apply s).Indexed := by
  intro m hm
  cases c with
  | keep => exact h m hm
  | put n i =>
    refine Names.mem_insert.mpr (or_iff_not_imp_right.mpr fun hmn => h m ?_)
    simpa [Change.apply, put, final?, Ne.symm hmn, Table.find?_insert, Table.find?_erase] using hm
  | offer n p =>
    rw [Change.apply, offer] at hm ⊢
    cases hf : s.isFinal n with
    | true => exact h m (by simpa [hf] using hm)
    | false =>
      refine Names.mem_insert.mpr (or_iff_not_imp_right.mpr fun hmn => h m ?_)
      simpa [hf, final?, Ne.symm hmn, Table.find?_insert] using hm
  | fetch n =>
    refine h m (hm.imp_right fun hp hnone => hp ?_)
    simp [Change.apply, fetch, Table.find?_erase, hnone]
  | memoize n i =>
    rw [Change.apply, memoize] at hm ⊢
    cases he : s.early? n with
    | some e => exact h m (by simpa [he] using hm)
    | none => exact h m (by simpa [he, final?] using hm)
  | remove n =>
    have hnm : n ≠ m := by
      rintro rfl
      simp [Change.apply, remove, final?] at hm
    refine Names.mem_erase.mpr ⟨h m ?_, hnm.symm⟩
    simpa [Change.apply, remove, final?, hnm, Table.find?_erase] using hm
  | discard n =>
    have hregistered : m ∈ s.registered := h m <| hm.imp_right fun hp hnone => hp <| by
      simp [Change.apply, discard, Table.find?_erase, hnone]
    refine (registered_discard s).mpr ⟨hregistered, ?_⟩
    rintro rfl
    exact isFinal_iff.mpr (by simpa [Change.apply, discard, final?] using hm)
  | clear => exact indexed_empty m hm

/-- A change puts one name that was not registered at the end of the index, or takes names out of
it. -/
theorem names_apply (s : Store ι φ) (c : Change ι φ) :
    (∃ n, n ∉ s.names ∧ (c.apply s).names = s.names ++ [n]) ∨
      ∃ keep : String → Bool, (c.apply s).names = s.names.filter keep := by
  have hsame : ∃ keep : String → Bool, s.names = s.names.filter keep := ⟨fun _ => true, by simp⟩
  cases c with
  | put n i => exact s.registered.toList_insert_cases n
  | offer n p =>
    rw [Change.apply, offer]
    split
    · exact .inr hsame
    · exact s.registered.toList_insert_cases n
  | keep | fetch => exact .inr hsame
  | memoize n i =>
    rw [Change.apply, memoize]
    split <;> exact .inr hsame
  | remove n => exact .inr ⟨(· ≠ n), s.registered.toList_erase n⟩
  | discard n =>
    rw [Change.apply, discard]
    cases s.isFinal n with
    | true => exact .inr hsame
    | false => exact .inr ⟨(· ≠ n), s.registered.toList_erase n⟩
  | clear => exact .inr ⟨fun _ => false, by simp [Change.apply, clear, names, empty]⟩

/-- Names that stay registered keep their order. -/
theorem sublist_names_apply {ks : List String} {c : Change ι φ} (hks : ks.Sublist s.names)
    (hstay : ∀ k ∈ ks, k ∈ (c.apply s).names) : ks.Sublist (c.apply s).names := by
  obtain ⟨n, -, hnames⟩ | ⟨keep, hnames⟩ := s.names_apply c
  · rw [hnames]
    exact hks.trans (List.sublist_append_left ..)
  · rw [hnames] at hstay ⊢
    have hkept : ks.filter keep = ks :=
      List.filter_eq_self.mpr fun k hk => (List.mem_filter.mp (hstay k hk)).2
    exact hkept ▸ hks.filter keep

end Store

variable {v : Vocabulary}

/-! ### Runs -/

namespace Pool

/-- A step of a pool changes the tiers as one change does. -/
theorem exists_store_step (app : Application v) (p : Pool v) (i : Nat) :
    ∃ c : v.Change, (p.step app i).store = c.apply p.store := by
  by_cases ht : ∃ t, p.Takes i t
  · obtain ⟨t, ht⟩ := ht
    exact ⟨t.storeChange p.state, by rw [step_of_takes app ht, store, t.store_step]⟩
  · exact ⟨.keep, by rw [step_of_not_takes app (not_exists.mp ht)]; rfl⟩

theorem indexed_run (app : Application v) {p : Pool v} (h : p.store.Indexed)
    (schedule : List Nat) : (p.run app schedule).store.Indexed := by
  refine run_induction (P := fun p => p.store.Indexed) (fun p i t _ hp => ?_) h schedule
  rw [store, t.store_step]
  exact hp.apply _

/-- Names that stay registered over a stretch of a run keep their order. -/
theorem sublist_names_run (app : Application v) {p : Pool v} {ks : List String} {m : List Nat}
    (hks : ks.Sublist p.store.names)
    (hstay : ∀ m', m' <+: m → ∀ k ∈ ks, k ∈ (p.run app m').store.names) :
    ks.Sublist (p.run app m).store.names := by
  induction m using List.reverseRecOn with
  | nil => exact hks
  | append_singleton m i ih =>
    have hbefore := ih fun m' hm' => hstay m' (hm'.trans (List.prefix_append ..))
    have hafter := hstay _ List.prefix_rfl
    obtain ⟨c, hc⟩ := exists_store_step app (p.run app m) i
    rw [run_concat, hc] at hafter ⊢
    exact Store.sublist_names_apply hbefore hafter

/-- **Registered names.** Programs are run on a fresh registry, in any order of their steps, and no
name is ever excluded from tracking. At every point of the run:

* no name is registered twice, and the count of the registered names is their number;
* a name that is final, or has a producer that waits, is registered;
* a registered name is final or being built; so as long as no build is open, which is the case
  whenever no request is in progress, the registered names are the final ones;
* names that were registered at all times since some earlier point are in the order in which they
  were then;
* if the next step brings names in, it is one name, which goes to the end; otherwise it leaves the
  names as they are or takes some out. -/
theorem names_exact (app : Application v) (o : Options) (w : v.World)
    (programs : List (Code v Unit)) (schedule : List Nat)
    (h : ∀ n, NeverExcludes app n (start (.start o w) programs) schedule) :
    let p := reached app o w programs schedule
    p.store.names.Nodup ∧ p.store.count = p.store.names.length ∧
    (∀ n, p.store.final? n ≠ none ∨ p.store.producers.find? n ≠ none → n ∈ p.store.names) ∧
    (∀ n ∈ p.store.names, p.store.final? n ≠ none ∨ ∃ b ∈ p.builds, b.name = n) ∧
    (p.builds = [] → ∀ n, n ∈ p.store.names ↔ p.store.final? n ≠ none) ∧
    (∀ l m (ks : List String), schedule = l ++ m →
      ks.Sublist (reached app o w programs l).store.names →
      (∀ m', m' <+: m → ∀ k ∈ ks, k ∈ (reached app o w programs (l ++ m')).store.names) →
      ks.Sublist p.store.names) ∧
    ∀ i, (∃ n, n ∉ p.store.names ∧ (p.step app i).store.names = p.store.names ++ [n]) ∨
      ∃ keep : String → Bool, (p.step app i).store.names = p.store.names.filter keep := by
  intro p
  have hindexed : p.store.Indexed := indexed_run app Store.indexed_empty schedule
  have hbound : ∀ n ∈ p.store.names, p.store.final? n ≠ none ∨ ∃ b ∈ p.builds, b.name = n :=
    fun n hn => ((sheltered_reached app o w programs (h n)).bound (.inl hn)).imp_right
      (tracked_reached app o w programs (h n)).marked_iff.mp
  refine ⟨p.store.nodup_names, rfl, hindexed, hbound, fun hnone n => ?_, ?_, fun i => ?_⟩
  · refine ⟨fun hn => (hbound n hn).resolve_right ?_, fun hf => hindexed n (.inl hf)⟩
    rw [hnone]
    exact fun ⟨b, hb, _⟩ => absurd hb List.not_mem_nil
  · rintro l m ks rfl hks hstay
    simp only [reached_append] at hstay
    rw [show p = _ from reached_append ..]
    exact sublist_names_run app hks hstay
  · obtain ⟨c, hc⟩ := exists_store_step app p i
    rw [hc]
    exact p.store.names_apply c

end Pool

/-! ### A build inside a build -/

namespace Sample

/-- An application in which the construct of "a" publishes an early reference and asks for "b". -/
def nesting : Application vocabulary where
  body {g} (c : String) :=
    match g with
    | .construct =>
      if c = "a" then do
        let _ ← .ask (.publish "a" "early")
        .obtainOrCreate "b" "b"
      else .done (.ok (2 : Nat))
    | .producer => .done (1 : Nat)
    | .main => .done ()
    | .hook | .block => .done (.ok ())

/-- A run of a program that asks for "a", after so many steps. -/
def nestingRun (k : Nat) : Pool vocabulary :=
  .reached nesting .default () [do let _ ← .obtainOrCreate "a" "a"] (List.replicate k 0)

/-- After ten steps "b" is final, and "a" has been registered before it, but is still being built.
When the build is over, both are final. -/
theorem names_exact_nesting :
    (nestingRun 10).store.names = ["a", "b"] ∧
    (∃ b ∈ (nestingRun 10).builds, b.name = "a") ∧
    (∀ n, n ∈ (nestingRun 11).store.names ↔ (nestingRun 11).store.final? n ≠ none) ∧
    ["a", "b"].Sublist (nestingRun 11).store.names := by
  obtain ⟨-, -, -, hbound, -⟩ := Pool.names_exact nesting .default ()
    [do let _ ← .obtainOrCreate "a" "a"] (List.replicate 10 0)
    fun _ => ⟨rfl, rfl, rfl, rfl, rfl, rfl, rfl, rfl, rfl, rfl, rfl⟩
  obtain ⟨-, -, -, -, hrest, horder, -⟩ := Pool.names_exact nesting .default ()
    [do let _ ← .obtainOrCreate "a" "a"] (List.replicate 11 0)
    fun _ => ⟨rfl, rfl, rfl, rfl, rfl, rfl, rfl, rfl, rfl, rfl, rfl, rfl⟩
  refine ⟨by decide, ?_, hrest (by decide), ?_⟩
  · exact (hbound "a" (by decide)).resolve_left (absurd rfl)
  · refine horder (List.replicate 10 0) [0] ["a", "b"] rfl (by decide) fun m' hm' => ?_
    obtain rfl | rfl : m' = [] ∨ m' = [0] := by simpa [List.prefix_cons_iff] using hm'
    · decide
    · decide

end Sample

end Wiring
