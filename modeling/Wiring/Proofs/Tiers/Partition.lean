import Wiring.Proofs.Tiers.Index

/-!
# The tiers share out the registered names

Seen from outside, between two operations, the store is in a simpler state than it is while a
producer runs: each registered name is in exactly one tier, and there are no other names in the
tiers. So the index of registered names says nothing about which names there are. What it adds is
their order: the names stand in the order in which they came in, where a name that went and came
back counts from its return, and a name that only changes its tier keeps its place.

## Main definitions

* `Wiring.Store.Operation` — what can be asked of a store, with producers that are run on the spot.
* `Wiring.Store.after` — the store after some operations.
* `Wiring.Store.Partitioned` — the registered names are in one tier each, and the others in none.
* `Wiring.Store.CameIn` — when a name came in that is still there.
* `Wiring.Store.Arrivals` — the registered names are in the order in which they came in.

## Main results

* `Wiring.Store.Partitioned.apply` — every operation keeps the registered names in one tier each.
* `Wiring.Store.Arrivals.filter`, `Wiring.Store.Arrivals.concat` — and it keeps them in order.
* `Wiring.Store.tiers_partition_names` — both, after any operations.
-/

namespace Wiring

namespace Store

variable {ι φ : Type}

/-! ### Operations -/

/-- What can be asked of a store. -/
inductive Operation (ι φ : Type) where
  | put (n : String) (i : ι)
  | offer (n : String) (p : φ)
  /-- An early lookup. A producer that it meets is run on the spot, and makes `make p`. -/
  | obtain (n : String) (make : φ → ι)
  | remove (n : String)
  | discard (n : String)
  | clear
  /-- A question, which leaves the store alone. -/
  | look

/-- The store after an operation. -/
def Operation.apply (s : Store ι φ) : Operation ι φ → Store ι φ
  | .put n i => s.put n i
  | .offer n p => (s.offer n p).2
  | .obtain n make =>
    match s.seek n with
    | .nothing | .early _ => s
    | .pending p rest => (rest.memoize n (make p)).2
  | .remove n => (s.remove n).2
  | .discard n => s.discard n
  | .clear => s.clear
  | .look => s

/-- The store after some operations, empty at first. -/
def after (operations : List (Operation ι φ)) : Store ι φ :=
  operations.foldl Operation.apply empty

theorem after_concat (operations : List (Operation ι φ)) (op : Operation ι φ) :
    after (operations ++ [op]) = op.apply (after operations) :=
  List.foldl_concat ..

variable {s : Store ι φ} {n : String}

/-- The producer that an early lookup meets gives way to what it makes. -/
theorem apply_obtain_of_producer {p : φ} (he : s.early? n = none)
    (hp : s.producers.find? n = some p) (make : φ → ι) :
    (Operation.obtain n make).apply s =
      { s with early := s.early.insert n (make p), producers := s.producers.erase n } := by
  have hnone : (s.fetch n).early? n = none := he
  have hseek : s.seek n = .pending p (s.fetch n) := by
    simp only [seek, he, hp]
    rfl
  simp only [Operation.apply, hseek, memoize, hnone]
  rfl

/-- An early lookup changes nothing, unless it meets a producer. -/
theorem apply_obtain (make : φ → ι) :
    (Operation.obtain n make).apply s = s ∨
      ∃ p, s.early? n = none ∧ s.producers.find? n = some p ∧
        (Operation.obtain n make).apply s =
          { s with early := s.early.insert n (make p), producers := s.producers.erase n } := by
  cases h : s.seek n with
  | nothing | early i => exact .inl (by rw [Operation.apply, h])
  | pending p rest =>
    obtain ⟨he, hp, -⟩ := seek_eq_pending h
    exact .inr ⟨p, he, hp, apply_obtain_of_producer he hp make⟩

/-- An operation puts one name that was not registered at the end of the index, or takes names out
of it. -/
theorem names_operation (s : Store ι φ) (op : Operation ι φ) :
    (∃ n, n ∉ s.names ∧ (op.apply s).names = s.names ++ [n]) ∨
      ∃ keep : String → Bool, (op.apply s).names = s.names.filter keep := by
  cases op with
  | put n i => exact s.names_apply (.put n i)
  | offer n p => exact s.names_apply (.offer n p)
  | obtain n make =>
    obtain h | ⟨p, -, -, h⟩ := apply_obtain (s := s) (n := n) make
    · rw [h]
      exact s.names_apply .keep
    · rw [h]
      exact s.names_apply .keep
  | remove n => exact s.names_apply (.remove n)
  | discard n => exact s.names_apply (.discard n)
  | clear => exact s.names_apply .clear
  | look => exact s.names_apply .keep

/-! ### One tier for each registered name -/

/-- In how many tiers `n` is. -/
def tierCount (s : Store ι φ) (n : String) : Nat :=
  (s.isFinal n).toNat + (s.early.contains n).toNat + (s.producers.contains n).toNat

theorem tierCount_put (s : Store ι φ) (n m : String) (i : ι) :
    (s.put n i).tierCount m = if n = m then 1 else s.tierCount m := by
  by_cases h : n = m <;>
    simp [tierCount, isFinal, put, Table.contains_insert, Table.contains_erase, h]

theorem tierCount_offer {n : String} (hn : s.isFinal n = false) (m : String) (p : φ) :
    (s.offer n p).2.tierCount m = if n = m then 1 else s.tierCount m := by
  have hfinal : s.finals.contains n = false := hn
  by_cases h : n = m
  · subst h
    simp [tierCount, isFinal, offer, hfinal, Table.contains_insert, Table.contains_erase]
  · simp [tierCount, isFinal, offer, hfinal, Table.contains_insert, Table.contains_erase, h]

theorem tierCount_remove (s : Store ι φ) (n m : String) :
    (s.remove n).2.tierCount m = if n = m then 0 else s.tierCount m := by
  by_cases h : n = m <;> simp [tierCount, isFinal, remove, Table.contains_erase, h]

theorem tierCount_discard (s : Store ι φ) (n m : String) :
    (s.discard n).tierCount m = if n = m then (s.isFinal n).toNat else s.tierCount m := by
  by_cases h : n = m
  · subst h
    simp [tierCount, isFinal, discard, Table.contains_erase]
  · simp [tierCount, isFinal, discard, Table.contains_erase, h]

/-- An early lookup takes a name from one tier to another. -/
theorem tierCount_obtain (make : φ → ι) (m : String) :
    ((Operation.obtain n make).apply s).tierCount m = s.tierCount m := by
  obtain h | ⟨p, he, hp, h⟩ := apply_obtain (s := s) (n := n) make
  · rw [h]
  · rw [h]
    have hearly : s.early.contains n = false := by
      rw [Table.contains, show s.early.find? n = none from he, Option.isSome_none]
    have hpending : s.producers.contains n = true := by rw [Table.contains, hp, Option.isSome_some]
    by_cases hnm : n = m
    · subst hnm
      simp [tierCount, isFinal, Table.contains_insert, Table.contains_erase, hearly, hpending]
    · simp [tierCount, isFinal, Table.contains_insert, Table.contains_erase, hnm]

theorem tierCount_eq_zero_iff : s.tierCount n = 0 ↔
    n ∉ s.finals.keys ∧ n ∉ s.early.keys ∧ n ∉ s.producers.keys := by
  simp only [Table.mem_keys_iff]
  simp [tierCount, isFinal, Table.contains, and_assoc]

/-- Every registered name is in one tier, and no other name is in any. -/
def Partitioned (s : Store ι φ) : Prop :=
  ∀ n, s.tierCount n = if n ∈ s.registered then 1 else 0

namespace Partitioned

theorem empty : (Store.empty : Store ι φ).Partitioned := fun _ => rfl

theorem mem_names_iff (h : s.Partitioned) :
    n ∈ s.names ↔ n ∈ s.finals.keys ∨ n ∈ s.early.keys ∨ n ∈ s.producers.keys := by
  have hzero : s.tierCount n = 0 ↔ n ∉ s.registered := by
    rw [h n]
    split <;> simp [*]
  rw [tierCount_eq_zero_iff] at hzero
  rw [names, Names.mem_toList]
  tauto

/-- No name is in two tiers. -/
theorem disjoint (h : s.Partitioned) : s.finals.keys.Disjoint s.early.keys ∧
    s.finals.keys.Disjoint s.producers.keys ∧ s.early.keys.Disjoint s.producers.keys := by
  have hle (n : String) : s.tierCount n ≤ 1 := by
    rw [h n]
    split <;> omega
  refine ⟨fun n h₁ h₂ => ?_, fun n h₁ h₂ => ?_, fun n h₁ h₂ => ?_⟩ <;>
  · rw [Table.mem_keys_iff] at h₁ h₂
    have hn := hle n
    simp only [tierCount, isFinal, Table.contains, h₁, h₂, Bool.toNat_true] at hn
    omega

/-- The tiers together have as many names as the index. -/
theorem count_eq (h : s.Partitioned) :
    s.count = s.finals.size + s.early.size + s.producers.size := by
  obtain ⟨hearly, hproducers, hstaged⟩ := h.disjoint
  have hnodup : (s.finals.keys ++ (s.early.keys ++ s.producers.keys)).Nodup := by
    refine s.finals.keys_nodup.append (s.early.keys_nodup.append s.producers.keys_nodup hstaged) ?_
    exact List.disjoint_append_right.mpr ⟨hearly, hproducers⟩
  have hperm : s.names.Perm (s.finals.keys ++ (s.early.keys ++ s.producers.keys)) :=
    (List.perm_ext_iff_of_nodup s.nodup_names hnodup).mpr fun n => by
      rw [h.mem_names_iff, List.mem_append, List.mem_append]
  calc s.count
    _ = (s.finals.keys ++ (s.early.keys ++ s.producers.keys)).length := hperm.length_eq
    _ = s.finals.size + s.early.size + s.producers.size := by
      simp [Table.keys, Table.size, Nat.add_assoc]

/-- Every operation keeps each registered name in one tier. -/
theorem apply (h : s.Partitioned) (op : Operation ι φ) : (op.apply s).Partitioned := by
  intro m
  have hm := h m
  cases op with
  | put n i =>
    rw [Operation.apply, tierCount_put]
    by_cases hnm : n = m
    · simp [put, hnm]
    · simp [put, hnm, Ne.symm hnm, hm]
  | offer n p =>
    rw [Operation.apply]
    cases hn : s.isFinal n with
    | true => simpa [offer, hn] using hm
    | false =>
      have hregistered : (s.offer n p).2.registered = s.registered.insert n := by simp [offer, hn]
      rw [tierCount_offer hn, hregistered]
      by_cases hnm : n = m
      · simp [hnm]
      · simp [hnm, Ne.symm hnm, hm]
  | obtain n make =>
    rw [tierCount_obtain, hm]
    obtain hsame | ⟨p, -, -, hmade⟩ := apply_obtain (s := s) (n := n) make
    · rw [hsame]
    · rw [hmade]
  | remove n =>
    rw [Operation.apply, tierCount_remove]
    by_cases hnm : n = m
    · simp [remove, hnm]
    · simp [remove, hnm, Ne.symm hnm, hm]
  | discard n =>
    rw [Operation.apply, tierCount_discard]
    by_cases hnm : n = m
    · subst hnm
      cases hf : s.isFinal n with
      | false => simp [registered_discard, hf]
      | true =>
        have hregistered : n ∈ s.registered := h.mem_names_iff.mpr (.inl (Table.mem_keys_iff.mpr hf))
        simp [registered_discard, hf, hregistered]
    · simp [registered_discard, hnm, Ne.symm hnm, hm]
  | clear => rfl
  | look => exact hm

theorem after (operations : List (Operation ι φ)) : (Store.after operations).Partitioned := by
  induction operations using List.reverseRecOn with
  | nil => exact empty
  | append_singleton operations op ih => exact after_concat operations op ▸ ih.apply op

end Partitioned

/-! ### The order of the registered names -/

/-- `n` came in with operation `k`, counted from 0, and has been in one of the tiers ever since. -/
structure CameIn (operations : List (Operation ι φ)) (n : String) (k : Nat) : Prop where
  lt : k < operations.length
  absent : ¬ (after (operations.take k)).Holds n
  since : ∀ j, k < j → j ≤ operations.length → (after (operations.take j)).Holds n

variable {operations : List (Operation ι φ)} {op : Operation ι φ} {k : Nat}

/-- A name that is still there after one more operation came in when it did. -/
theorem CameIn.concat (h : CameIn operations n k)
    (hn : (after (operations ++ [op])).Holds n) : CameIn (operations ++ [op]) n k := by
  have hlt := h.lt
  refine ⟨by simp; omega, ?_, fun j hkj hj => ?_⟩
  · rw [List.take_append_of_le_length hlt.le]
    exact h.absent
  · rw [List.length_append, List.length_singleton] at hj
    obtain hj | rfl := Nat.lt_succ_iff_lt_or_eq.mp (Nat.lt_succ_of_le hj)
    · rw [List.take_append_of_le_length (Nat.le_of_lt_succ hj)]
      exact h.since j hkj (Nat.le_of_lt_succ hj)
    · rwa [List.take_of_length_le (by simp)]

/-- A name that was not there before the last operation came in with it. -/
theorem CameIn.last (hbefore : ¬ (after operations).Holds n)
    (hn : (after (operations ++ [op])).Holds n) :
    CameIn (operations ++ [op]) n operations.length := by
  refine ⟨by simp, by simpa using hbefore, fun j hkj hj => ?_⟩
  rwa [List.take_of_length_le (by simpa using Nat.succ_le_of_lt hkj)]

theorem Partitioned.mem_names_iff_holds (h : s.Partitioned) : n ∈ s.names ↔ s.Holds n := by
  simp only [h.mem_names_iff, Table.mem_keys_iff]
  simp [Holds, final?, isStaged, Table.contains, Option.isSome_iff_ne_none]

/-- `arrived` tells when the registered names came in, and they are in that order. -/
structure Arrivals (operations : List (Operation ι φ)) (arrived : String → Nat) : Prop where
  cameIn : ∀ n ∈ (after operations).names, CameIn operations n (arrived n)
  sorted : (after operations).names.Pairwise fun a b => arrived a < arrived b

namespace Arrivals

variable {arrived : String → Nat}

theorem cameIn_concat (h : Arrivals operations arrived) (hn : n ∈ (after operations).names)
    (hn' : n ∈ (after (operations ++ [op])).names) : CameIn (operations ++ [op]) n (arrived n) :=
  (h.cameIn n hn).concat ((Partitioned.after _).mem_names_iff_holds.mp hn')

/-- The names that an operation leaves are in order. -/
theorem filter (h : Arrivals operations arrived) {keep : String → Bool}
    (hnames : (after (operations ++ [op])).names = (after operations).names.filter keep) :
    Arrivals (operations ++ [op]) arrived := by
  refine ⟨fun n hn => h.cameIn_concat ?_ hn, hnames ▸ h.sorted.filter keep⟩
  rw [hnames] at hn
  exact List.mem_of_mem_filter hn

/-- A name that an operation brings in comes after the others. -/
theorem concat (h : Arrivals operations arrived) {m : String} (hm : m ∉ (after operations).names)
    (hnames : (after (operations ++ [op])).names = (after operations).names ++ [m]) :
    Arrivals (operations ++ [op]) (Function.update arrived m operations.length) := by
  have hold (n : String) (hn : n ∈ (after operations).names) :
      Function.update arrived m operations.length n = arrived n :=
    Function.update_of_ne (fun hnm : n = m => hm (hnm ▸ hn)) _ _
  have hbefore : ¬ (after operations).Holds m := fun hholds =>
    hm ((Partitioned.after operations).mem_names_iff_holds.mpr hholds)
  have hafter : (after (operations ++ [op])).Holds m :=
    (Partitioned.after _).mem_names_iff_holds.mp (by simp [hnames])
  constructor
  · intro n hn
    obtain hmem | rfl : n ∈ (after operations).names ∨ n = m := by simpa [hnames] using hn
    · rw [hold n hmem]
      exact h.cameIn_concat hmem hn
    · rw [Function.update_self]
      exact .last hbefore hafter
  · rw [hnames, List.pairwise_append]
    refine ⟨h.sorted.imp_of_mem fun ha hb hab => ?_, List.pairwise_singleton .., fun a ha b hb => ?_⟩
    · rwa [hold _ ha, hold _ hb]
    · obtain rfl := List.mem_singleton.mp hb
      rw [hold a ha, Function.update_self]
      exact (h.cameIn a ha).lt

end Arrivals

/-- The registered names are in the order in which they came in. -/
theorem exists_arrivals (operations : List (Operation ι φ)) :
    ∃ arrived, Arrivals operations arrived := by
  induction operations using List.reverseRecOn with
  | nil => exact ⟨fun _ => 0, fun n hn => absurd hn List.not_mem_nil, .nil⟩
  | append_singleton operations op ih =>
    obtain ⟨arrived, h⟩ := ih
    obtain ⟨m, hm, hnames⟩ | ⟨keep, hnames⟩ := names_operation (after operations) op
    · exact ⟨_, h.concat hm (after_concat operations op ▸ hnames)⟩
    · exact ⟨_, h.filter (after_concat operations op ▸ hnames)⟩

/-- **The tiers share out the registered names.** Operations are asked of a store that is empty at
first, and the producers that lookups meet are run on the spot.

* No name is in two tiers, and the registered names are the names in the tiers.
* No name is registered twice, and the count of the registered names is their number, which is that
  of the names in the tiers.
* The registered names are in the order in which they came in: each of them was in no tier before a
  certain operation and has been in one ever since, and the operations of names further back are
  later.
* A lookup that meets a producer leaves the index as it is, while the name goes from the tier of
  producers to that of early instances; an instance for a name that was staged leaves it as it is,
  too, while the name becomes final. -/
theorem tiers_partition_names (operations : List (Operation ι φ)) :
    let s := after operations
    (s.finals.keys.Disjoint s.early.keys ∧ s.finals.keys.Disjoint s.producers.keys ∧
      s.early.keys.Disjoint s.producers.keys) ∧
    (∀ n, n ∈ s.names ↔ n ∈ s.finals.keys ∨ n ∈ s.early.keys ∨ n ∈ s.producers.keys) ∧
    s.names.Nodup ∧
    (s.count = s.names.length ∧ s.count = s.finals.size + s.early.size + s.producers.size) ∧
    (∃ arrived : String → Nat, (∀ n ∈ s.names, CameIn operations n (arrived n)) ∧
      s.names.Pairwise fun a b => arrived a < arrived b) ∧
    (∀ n p make, s.producers.find? n = some p →
      let s' := (Operation.obtain n make).apply s
      s'.producers.find? n = none ∧ s'.early? n = some (make p) ∧ s'.names = s.names) ∧
    ∀ n i, s.isStaged n = true →
      let s' := (Operation.put n i).apply s
      s'.isStaged n = false ∧ s'.final? n = some i ∧ s'.names = s.names := by
  intro s
  have h : s.Partitioned := .after operations
  obtain ⟨arrived, harrived⟩ := exists_arrivals operations
  refine ⟨h.disjoint, fun n => h.mem_names_iff, s.nodup_names, ⟨rfl, h.count_eq⟩,
    ⟨arrived, harrived.cameIn, harrived.sorted⟩, fun n p make hp => ?_, fun n i hn => ?_⟩
  · have he : s.early? n = none := by
      by_contra hsome
      exact h.disjoint.2.2 (Table.mem_keys_iff.mpr (Option.isSome_iff_ne_none.mpr hsome))
        (Table.mem_keys_iff.mpr (Option.isSome_of_eq_some hp))
    rw [apply_obtain_of_producer he hp]
    exact ⟨s.producers.find?_erase_self n, s.early.find?_insert_self n _, rfl⟩
  · have hmem : n ∈ s.registered := h.mem_names_iff_holds.mpr (.inr hn)
    refine ⟨by simp [Operation.apply, isStaged_put], by simp [Operation.apply, final?_put], ?_⟩
    exact (Names.toList_insert ..).trans (if_pos hmem)

/-- A name that comes back goes to the end, and one that becomes final stays where it was. -/
example : (after [.put "c" 3, .offer "a" 1, .put "b" 2, .obtain "a" id, .remove "c", .put "a" 4,
    .put "c" 5] : Store Nat Nat).names = ["a", "b", "c"] := by decide

end Store

end Wiring
