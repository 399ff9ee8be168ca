import Wiring.Names
import Wiring.Table

/-!
# Dependency and containment records

A dependency record says that one component needs another, a containment record that one component
is part of another. Dependencies are kept in both directions, so that the dependents of a name and
its dependencies can both be listed in the order of recording. A name without records has no entry.

## Main definitions

* `Wiring.Links` — the records.
* `Wiring.Links.depend`, `Wiring.Links.contain` — recording; a containment is also a dependency of
  the container on its part.
* `Wiring.Links.isDependent` — transitive dependents, by a search that passes each name once.
* `Wiring.Links.takeDependents`, `Wiring.Links.takeParts`, `Wiring.Links.scrub` — withdrawing
  records.

## Main statements

* `Wiring.Links.mem_dependentsOf_depend` and its relatives — which dependents and parts are listed
  after each of these.
-/

namespace Wiring

/-- The dependency records in both directions, and the containment records. -/
structure Links where
  /-- The names that depend on a name. -/
  dependents : Table String Names
  /-- The names that a name depends on. -/
  dependencies : Table String Names
  /-- The parts of a container. -/
  parts : Table String Names

namespace Links

/-- No records. -/
def empty : Links := ⟨.empty, .empty, .empty⟩

instance : Inhabited Links := ⟨empty⟩

/-! ### Entries -/

/-- The names recorded under `key`. -/
def namesAt (t : Table String Names) (key : String) : Names := (t.find? key).getD .empty

/-- Records `name` under `key`. -/
def link (t : Table String Names) (key name : String) : Table String Names :=
  t.insert key ((namesAt t key).insert name)

/-- Withdraws `name` from under `key`; an entry that becomes empty goes. -/
def unlink (t : Table String Names) (key name : String) : Table String Names :=
  match t.find? key with
  | none => t
  | some s => if (s.erase name).isEmpty then t.erase key else t.insert key (s.erase name)

/-- Withdraws `name` from under each of the keys. -/
def unlinkAll (t : Table String Names) (keys : List String) (name : String) :
    Table String Names :=
  keys.foldl (fun t key => unlink t key name) t

/-! ### Recording -/

/-- Records that `dependent` needs `dependency`; tells whether that is new. -/
def depend (g : Links) (dependency dependent : String) : Bool × Links :=
  if dependent ∈ namesAt g.dependents dependency then (false, g)
  else (true, { g with
    dependents := link g.dependents dependency dependent
    dependencies := link g.dependencies dependent dependency })

/-- Records that `inner` is a part of `outer`; tells whether that is new. Only a new containment
also records that `outer` depends on `inner`. -/
def contain (g : Links) (inner outer : String) : Bool × Links :=
  if inner ∈ namesAt g.parts outer then (false, g)
  else (true, (({ g with parts := link g.parts outer inner } : Links).depend inner outer).2)

/-! ### Questions -/

/-- Whether an entry for the dependents of `n` exists. -/
def hasDependents (g : Links) (n : String) : Bool := g.dependents.contains n

/-- The dependents of `n` in the order of recording. -/
def dependentsOf (g : Links) (n : String) : List String := (namesAt g.dependents n).toList

/-- What `n` depends on, in the order of recording. -/
def dependenciesOf (g : Links) (n : String) : List String := (namesAt g.dependencies n).toList

/-- The parts of `outer` in the order of recording. -/
def partsOf (g : Links) (outer : String) : List String := (namesAt g.parts outer).toList

/-- The names with an entry that the search has not passed yet. -/
def unseen (t : Table String Names) (seen : List String) : List String :=
  t.keys.filter (· ∉ seen)

theorem length_unseen_cons_le (t : Table String Names) (seen : List String) (n : String) :
    (unseen t (n :: seen)).length ≤ (unseen t seen).length := by
  have h : unseen t (n :: seen) = (unseen t seen).filter (· ≠ n) := by
    simp only [unseen, List.filter_filter]
    exact List.filter_congr fun x _ => by simp
  rw [h]
  exact List.length_filter_le _ _

theorem length_unseen_cons_lt {t : Table String Names} {seen : List String} {n : String}
    (hn : n ∈ t.keys) (hs : n ∉ seen) :
    (unseen t (n :: seen)).length < (unseen t seen).length := by
  have h : unseen t (n :: seen) = (unseen t seen).filter (· ≠ n) := by
    simp only [unseen, List.filter_filter]
    exact List.filter_congr fun x _ => by simp
  rw [h]
  refine List.length_filter_lt_length_iff_exists.mpr ⟨n, ?_, by simp⟩
  simp [unseen, hn, hs]

/-- Depth-first search from the names to visit: whether one of the names passed has `candidate`
among its direct dependents. A name that was passed before is not passed again. -/
def reaches (t : Table String Names) (candidate : String) (visit seen : List String) : Bool :=
  match visit with
  | [] => false
  | n :: rest =>
    if _ : n ∈ seen then reaches t candidate rest seen
    else
      match _ : t.find? n with
      | none => reaches t candidate rest (n :: seen)
      | some direct =>
        candidate ∈ direct || reaches t candidate (direct.toList ++ rest) (n :: seen)
termination_by ((unseen t seen).length, visit.length)
decreasing_by
  · exact Prod.Lex.right _ (Nat.lt_succ_self _)
  · rcases Nat.lt_or_eq_of_le (length_unseen_cons_le t seen n) with h | h
    · exact Prod.Lex.left _ _ h
    · exact h ▸ Prod.Lex.right _ (Nat.lt_succ_self _)
  · have hd : t.find? n = some direct := ‹_›
    have hn : n ∈ t.keys := Table.mem_keys_iff.mpr (by simp [hd])
    exact Prod.Lex.left _ _ (length_unseen_cons_lt hn ‹n ∉ seen›)

/-- Whether `candidate` depends on `n`, directly or through others. -/
def isDependent (g : Links) (n candidate : String) : Bool := reaches g.dependents candidate [n] []

/-! ### Withdrawing -/

/-- Withdraws every record of a dependent of `n`; the answer lists the dependents. -/
def takeDependents (g : Links) (n : String) : List String × Links :=
  (g.dependentsOf n,
    { g with
      dependents := g.dependents.erase n
      dependencies := unlinkAll g.dependencies (g.dependentsOf n) n })

/-- Withdraws every containment record of `outer`; the answer lists the parts. -/
def takeParts (g : Links) (outer : String) : List String × Links :=
  (g.partsOf outer, { g with parts := g.parts.erase outer })

/-- Withdraws every dependency record of `n`, first those where others depend on it, then those
where it depends on others. Containment records stay. -/
def scrub (g : Links) (n : String) : Links :=
  let taken := (g.takeDependents n).2
  { taken with
    dependents := unlinkAll taken.dependents (taken.dependenciesOf n) n
    dependencies := taken.dependencies.erase n }

/-- Withdraws every record. -/
def clear (_ : Links) : Links := empty

/-! ### Records after a change -/

theorem mem_namesAt_link {t : Table String Names} {key name k n : String} :
    n ∈ namesAt (link t key name) k ↔ n ∈ namesAt t k ∨ key = k ∧ n = name := by
  by_cases h : key = k
  · subst h
    simp [namesAt, link]
  · simp [namesAt, link, Table.find?_insert_of_ne _ _ h, h]

theorem mem_namesAt_erase {t : Table String Names} {key k n : String} :
    n ∈ namesAt (t.erase key) k ↔ n ∈ namesAt t k ∧ key ≠ k := by
  by_cases h : key = k
  · subst h
    simp [namesAt, ← Names.mem_toList]
  · simp [namesAt, Table.find?_erase_of_ne _ h, h]

theorem mem_namesAt_unlink {t : Table String Names} {key name k n : String} :
    n ∈ namesAt (unlink t key name) k ↔ n ∈ namesAt t k ∧ ¬ (key = k ∧ n = name) := by
  unfold unlink
  cases ht : t.find? key with
  | none =>
    refine ⟨fun hn => ⟨hn, ?_⟩, fun hn => hn.1⟩
    rintro ⟨rfl, rfl⟩
    simp [namesAt, ht, ← Names.mem_toList] at hn
  | some s =>
    simp only
    by_cases hk : key = k
    · subst hk
      have hs : namesAt t key = s := by simp [namesAt, ht]
      split
      · next he =>
        -- the entry goes as a whole, because nothing else is recorded in it
        have hnil : (s.erase name).toList = [] := List.isEmpty_iff.mp he
        have hall (hn : n ∈ s) : n = name := by
          refine Decidable.byContradiction fun hne => ?_
          have hmem : n ∈ (s.erase name).toList := Names.mem_erase.mpr ⟨hn, hne⟩
          rw [hnil] at hmem
          cases hmem
        rw [mem_namesAt_erase, hs]
        simpa using hall
      · rw [hs, namesAt, Table.find?_insert_self]
        simp
    · split
      · simp [mem_namesAt_erase, hk]
      · simp [namesAt, Table.find?_insert_of_ne _ _ hk, hk]

theorem mem_namesAt_unlinkAll {t : Table String Names} {keys : List String} {name k n : String} :
    n ∈ namesAt (unlinkAll t keys name) k ↔ n ∈ namesAt t k ∧ ¬ (k ∈ keys ∧ n = name) := by
  induction keys generalizing t with
  | nil => simp [unlinkAll]
  | cons key keys ih =>
    have h : unlinkAll t (key :: keys) name = unlinkAll (unlink t key name) keys name := rfl
    rw [h, ih, mem_namesAt_unlink, and_assoc, ← not_or, ← or_and_right, List.mem_cons,
      @eq_comm _ key k]

theorem mem_dependentsOf_depend {g : Links} {dependency dependent a b : String} :
    b ∈ (g.depend dependency dependent).2.dependentsOf a ↔
      b ∈ g.dependentsOf a ∨ dependency = a ∧ b = dependent := by
  unfold depend
  split
  · next h =>
    refine ⟨Or.inl, ?_⟩
    rintro (hb | ⟨rfl, rfl⟩)
    · exact hb
    · exact h
  · exact mem_namesAt_link

@[simp] theorem partsOf_depend (g : Links) (dependency dependent a : String) :
    (g.depend dependency dependent).2.partsOf a = g.partsOf a := by
  unfold depend
  split <;> rfl

theorem mem_partsOf_contain {g : Links} {inner outer a b : String} :
    b ∈ (g.contain inner outer).2.partsOf a ↔ b ∈ g.partsOf a ∨ outer = a ∧ b = inner := by
  unfold contain
  split
  · next h =>
    refine ⟨Or.inl, ?_⟩
    rintro (hb | ⟨rfl, rfl⟩)
    · exact hb
    · exact h
  · rw [partsOf_depend]
    exact mem_namesAt_link

/-- Recording a containment withdraws no dependency, and a new one is also a dependency. -/
theorem mem_dependentsOf_contain {g : Links} {inner outer a b : String} :
    b ∈ (g.contain inner outer).2.dependentsOf a ↔
      b ∈ g.dependentsOf a ∨ inner ∉ g.partsOf outer ∧ inner = a ∧ b = outer := by
  unfold contain
  split
  · next h => simp [partsOf, Names.mem_toList, h]
  · next h =>
    rw [mem_dependentsOf_depend]
    simp [partsOf, dependentsOf, Names.mem_toList, h]

theorem mem_dependentsOf_takeDependents {g : Links} {n a b : String} :
    b ∈ (g.takeDependents n).2.dependentsOf a ↔ b ∈ g.dependentsOf a ∧ n ≠ a :=
  mem_namesAt_erase

@[simp] theorem partsOf_takeDependents (g : Links) (n a : String) :
    (g.takeDependents n).2.partsOf a = g.partsOf a := rfl

@[simp] theorem dependentsOf_takeParts (g : Links) (outer a : String) :
    (g.takeParts outer).2.dependentsOf a = g.dependentsOf a := rfl

theorem mem_partsOf_takeParts {g : Links} {outer a b : String} :
    b ∈ (g.takeParts outer).2.partsOf a ↔ b ∈ g.partsOf a ∧ outer ≠ a :=
  mem_namesAt_erase

/-- Among dependents, only records that `n` is in are withdrawn. -/
theorem mem_dependentsOf_scrub {g : Links} {n a b : String} :
    b ∈ (g.scrub n).dependentsOf a ↔
      b ∈ g.dependentsOf a ∧ n ≠ a ∧ ¬ (a ∈ (g.takeDependents n).2.dependenciesOf n ∧ b = n) := by
  refine Iff.trans mem_namesAt_unlinkAll ?_
  rw [← and_assoc]
  exact and_congr_left' mem_dependentsOf_takeDependents

@[simp] theorem partsOf_scrub (g : Links) (n a : String) :
    (g.scrub n).partsOf a = g.partsOf a := rfl

@[simp] theorem dependentsOf_clear (g : Links) (a : String) : g.clear.dependentsOf a = [] := rfl

@[simp] theorem partsOf_clear (g : Links) (a : String) : g.clear.partsOf a = [] := rfl

end Links

end Wiring
