/-!
# Lists of names in order of arrival

A `Names` is a duplicate-free list of component names. A name that arrives is put at the end, a name
that is already there keeps its place, and removing a name leaves the order of the others alone.

## Main definitions

* `Wiring.Names` — the lists, with the proof that no name occurs twice.
* `Wiring.Names.insert`, `Wiring.Names.erase` — arrival and removal.
-/

namespace Wiring

/-- A duplicate-free list of names, the earliest arrival first. -/
structure Names where
  toList : List String
  nodup : toList.Nodup

namespace Names

/-- The list without names. -/
def empty : Names := ⟨[], List.nodup_nil⟩

instance : Inhabited Names := ⟨empty⟩

instance : Membership String Names := ⟨fun s n => n ∈ s.toList⟩

theorem mem_toList {s : Names} {n : String} : n ∈ s.toList ↔ n ∈ s := Iff.rfl

instance (n : String) (s : Names) : Decidable (n ∈ s) :=
  inferInstanceAs (Decidable (n ∈ s.toList))

/-- Whether there is no name. -/
def isEmpty (s : Names) : Bool := s.toList.isEmpty

/-- The number of names. -/
def size (s : Names) : Nat := s.toList.length

private theorem nodup_concat {l : List String} {n : String} (hl : l.Nodup) (hn : n ∉ l) :
    (l ++ [n]).Nodup :=
  List.nodup_append.mpr ⟨hl, List.nodup_cons.mpr ⟨by simp, List.nodup_nil⟩,
    fun a ha b hb hab => hn (by simpa [← List.mem_singleton.mp hb, ← hab] using ha)⟩

/-- Puts `n` at the end, unless it is there already. -/
def insert (s : Names) (n : String) : Names :=
  if h : n ∈ s.toList then s else ⟨s.toList ++ [n], nodup_concat s.nodup h⟩

/-- Takes `n` out and closes the gap. -/
def erase (s : Names) (n : String) : Names :=
  ⟨s.toList.filter (· ≠ n), s.nodup.filter _⟩

@[simp] theorem toList_empty : empty.toList = [] := rfl

theorem toList_insert (s : Names) (n : String) :
    (s.insert n).toList = if n ∈ s then s.toList else s.toList ++ [n] := by
  by_cases h : n ∈ s.toList
  · simp [insert, h, ← mem_toList]
  · simp [insert, h, ← mem_toList]

@[simp] theorem toList_erase (s : Names) (n : String) :
    (s.erase n).toList = s.toList.filter (· ≠ n) := rfl

@[simp] theorem mem_insert {s : Names} {n m : String} : m ∈ s.insert n ↔ m ∈ s ∨ m = n := by
  rw [← mem_toList, toList_insert]
  split
  · next h => exact ⟨Or.inl, fun h' => h'.elim id (fun e => e ▸ h)⟩
  · simp [mem_toList]

@[simp] theorem mem_erase {s : Names} {n m : String} : m ∈ s.erase n ↔ m ∈ s ∧ m ≠ n := by
  simp [← mem_toList]

end Names

end Wiring
