import Wiring.Names
import Wiring.Table
import Wiring.Text.Shape

/-!
# The tiers of instances

A component is bound to its name in one of three tiers: *final* once it is built, *early* when its
half-built instance was shown to a peer, *pending* while only the producer of that early reference
is known. The index of registered names remembers in which order names came in.

Producers are mere data here: a lookup that needs one hands it to the caller, who runs it and
reports the result. In between anything may happen to the store.

## Main definitions

* `Wiring.Store` — the tiers and the index.
* `Wiring.Store.put`, `Wiring.Store.offer` — binding a final instance, offering a producer.
* `Wiring.Store.seek`, `Wiring.Store.memoize` — the two halves of an early lookup.
* `Wiring.Store.remove`, `Wiring.Store.discard`, `Wiring.Store.clear` — the ways out.

## Main statements

* `final?_put`, `final?_remove` and their relatives — only `put` makes a name final, and only
  `remove` and `clear` undo it.
* `isStaged_put`, `isStaged_offer` and their relatives — `offer` and `memoize` stage a name; every
  other change of a name unstages it.
-/

namespace Wiring

/-- Instances `ι` by name and tier, with producers `φ` of early references. -/
structure Store (ι φ : Type) where
  finals : Table String ι
  early : Table String ι
  producers : Table String φ
  /-- The names that came in, in order. -/
  registered : Names

namespace Store

variable {ι φ : Type}

/-- The store without names. -/
def empty : Store ι φ := ⟨.empty, .empty, .empty, .empty⟩

instance : Inhabited (Store ι φ) := ⟨empty⟩

/-! ### Reading -/

/-- The final instance of `n`. -/
def final? (s : Store ι φ) (n : String) : Option ι := s.finals.find? n

/-- Whether `n` is final. -/
def isFinal (s : Store ι φ) (n : String) : Bool := s.finals.contains n

/-- The early instance of `n`, if one was produced. -/
def early? (s : Store ι φ) (n : String) : Option ι := s.early.find? n

/-- Whether `n` has an early instance or a producer of one. -/
def isStaged (s : Store ι φ) (n : String) : Bool := s.early.contains n || s.producers.contains n

/-- The registered names in order. -/
def names (s : Store ι φ) : List String := s.registered.toList

/-- The number of registered names. -/
def count (s : Store ι φ) : Nat := s.registered.size

/-- The number of final instances. -/
def finalCount (s : Store ι φ) : Nat := s.finals.size

/-! ### Binding -/

/-- Makes `i` the final instance of `n`; whatever was staged for `n` is dropped. -/
def put (s : Store ι φ) (n : String) (i : ι) : Store ι φ where
  finals := s.finals.insert n i
  early := s.early.erase n
  producers := s.producers.erase n
  registered := s.registered.insert n

/-- Offers a producer for the early reference of `n`. A final name refuses it; otherwise it replaces
an earlier producer and an early instance made by one. -/
def offer (s : Store ι φ) (n : String) (p : φ) : Bool × Store ι φ :=
  if s.isFinal n then (false, s)
  else (true, { s with
    early := s.early.erase n
    producers := s.producers.insert n p
    registered := s.registered.insert n })

/-! ### Early lookup -/

/-- What an early lookup meets. -/
inductive Sight (ι φ : Type) where
  /-- Nothing is staged. -/
  | nothing
  /-- An early instance was produced before. -/
  | early (i : ι)
  /-- A producer waits; it has been taken out of the store. -/
  | pending (p : φ) (rest : Store ι φ)

/-- Looks for an early reference of `n`; a producer that is found leaves the store at once, so it is
never found again. -/
def seek (s : Store ι φ) (n : String) : Sight ι φ :=
  match s.early? n with
  | some i => .early i
  | none =>
    match s.producers.find? n with
    | some p => .pending p { s with producers := s.producers.erase n }
    | none => .nothing

/-- Reports what the producer of `n` made. The first report stays; the answer is what stays. -/
def memoize (s : Store ι φ) (n : String) (produced : ι) : ι × Store ι φ :=
  match s.early? n with
  | some i => (i, s)
  | none => (produced, { s with early := s.early.insert n produced })

/-! ### Ways out -/

/-- Forgets `n` altogether; the answer is the final instance it had. -/
def remove (s : Store ι φ) (n : String) : Option ι × Store ι φ :=
  (s.final? n,
    { finals := s.finals.erase n
      early := s.early.erase n
      producers := s.producers.erase n
      registered := s.registered.erase n })

/-- Forgets what is staged for `n`; the name stays registered only if it is final. -/
def discard (s : Store ι φ) (n : String) : Store ι φ where
  finals := s.finals
  early := s.early.erase n
  producers := s.producers.erase n
  registered := if s.isFinal n then s.registered else s.registered.erase n

/-- Forgets everything. -/
def clear (_ : Store ι φ) : Store ι φ := empty

/-! ### Final instances after a change -/

theorem final?_put (s : Store ι φ) (n m : String) (i : ι) :
    (s.put n i).final? m = if n = m then some i else s.final? m :=
  Table.find?_insert s.finals n m i

theorem final?_remove (s : Store ι φ) (n m : String) :
    (s.remove n).2.final? m = if n = m then none else s.final? m :=
  Table.find?_erase s.finals n m

@[simp] theorem final?_discard (s : Store ι φ) (n m : String) :
    (s.discard n).final? m = s.final? m := rfl

@[simp] theorem final?_clear (s : Store ι φ) (m : String) : s.clear.final? m = none := rfl

@[simp] theorem final?_offer (s : Store ι φ) (n m : String) (p : φ) :
    (s.offer n p).2.final? m = s.final? m := by
  unfold offer
  split <;> rfl

@[simp] theorem final?_memoize (s : Store ι φ) (n m : String) (i : ι) :
    (s.memoize n i).2.final? m = s.final? m := by
  unfold memoize
  split <;> rfl

/-- What a report is answered with is memoized. -/
theorem early?_memoize (s : Store ι φ) (n : String) (i : ι) :
    (s.memoize n i).2.early? n = some (s.memoize n i).1 := by
  unfold memoize
  split
  · assumption
  · simp [early?]

theorem isFinal_eq_false_iff {s : Store ι φ} {n : String} :
    s.isFinal n = false ↔ s.final? n = none := by
  simp [isFinal, Table.contains, final?]

theorem isStaged_eq_false_iff {s : Store ι φ} {n : String} :
    s.isStaged n = false ↔ s.early? n = none ∧ s.producers.find? n = none := by
  simp [isStaged, Table.contains, early?]

/-! ### Staged names after a change -/

theorem isStaged_put (s : Store ι φ) (n m : String) (i : ι) :
    (s.put n i).isStaged m = (!decide (n = m) && s.isStaged m) := by
  simp [put, isStaged, Table.contains_erase, Bool.and_or_distrib_left]

theorem isStaged_offer (s : Store ι φ) (n m : String) (p : φ) :
    (s.offer n p).2.isStaged m = (!s.isFinal n && decide (n = m) || s.isStaged m) := by
  unfold offer
  split
  · simp_all
  · by_cases h : n = m <;> simp_all [isStaged, Table.contains_erase, Table.contains_insert]

theorem isStaged_memoize (s : Store ι φ) (n m : String) (i : ι) :
    (s.memoize n i).2.isStaged m = (decide (n = m) || s.isStaged m) := by
  unfold memoize
  split
  · next e he =>
    by_cases h : n = m
    · subst h
      simp [isStaged, Table.contains, show s.early.find? n = some e from he]
    · simp [h]
  · simp [isStaged, Table.contains_insert, Bool.or_assoc]

theorem isStaged_remove (s : Store ι φ) (n m : String) :
    (s.remove n).2.isStaged m = (!decide (n = m) && s.isStaged m) := by
  simp [remove, isStaged, Table.contains_erase, Bool.and_or_distrib_left]

theorem isStaged_discard (s : Store ι φ) (n m : String) :
    (s.discard n).isStaged m = (!decide (n = m) && s.isStaged m) := by
  simp [discard, isStaged, Table.contains_erase, Bool.and_or_distrib_left]

@[simp] theorem isStaged_clear (s : Store ι φ) (m : String) : s.clear.isStaged m = false := rfl

/-- What the store looks like when it is inspected. -/
def shape (s : Store ι φ) : Text.Shape :=
  .record "InstanceCache" [("finals", .number s.finalCount), ("registered", .number s.count)]

end Store

end Wiring
