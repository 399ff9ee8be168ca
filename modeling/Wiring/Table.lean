/-!
# Tables in order of arrival

A `Table κ α` binds keys to values. A new key goes to the end; binding a key again replaces its
value and keeps its place; removing a key leaves the order of the others alone.

## Main definitions

* `Wiring.Table` — the tables, with the proof that no key is bound twice.
* `Wiring.Table.find?`, `Wiring.Table.insert`, `Wiring.Table.erase` — reading, binding and removal.

## Main statements

* `find?_insert`, `find?_erase` — what a binding and a removal do to every reading;
  `contains_insert`, `contains_erase` are the same for the question whether a key is bound.
* `keys_insert`, `keys_erase` — what they do to the order of the keys.
* `values_perm`, `values_insert_perm` — what they do to the values, up to their order.
-/

namespace Wiring

variable {κ α : Type}

/-- A list of bindings without a repeated key, the earliest arrival first. -/
structure Table (κ α : Type) where
  entries : List (κ × α)
  nodup : (entries.map Prod.fst).Nodup

namespace Table

/-- The table without bindings. -/
def empty : Table κ α := ⟨[], List.nodup_nil⟩

instance : Inhabited (Table κ α) := ⟨⟨[], List.nodup_nil⟩⟩

/-- The bound keys in order. -/
def keys (t : Table κ α) : List κ := t.entries.map Prod.fst

/-- The values in the order of their keys. -/
def values (t : Table κ α) : List α := t.entries.map Prod.snd

/-- The number of bindings. -/
def size (t : Table κ α) : Nat := t.entries.length

@[simp] theorem keys_empty : (empty : Table κ α).keys = [] := rfl

theorem keys_nodup (t : Table κ α) : t.keys.Nodup := t.nodup

private theorem nodup_filter (p : κ × α → Bool) {l : List (κ × α)}
    (h : (l.map Prod.fst).Nodup) : ((l.filter p).map Prod.fst).Nodup :=
  h.sublist ((List.filter_sublist).map _)

variable [DecidableEq κ]

/-- The first value bound to `k` in a list of bindings. -/
def findIn (k : κ) : List (κ × α) → Option α
  | [] => none
  | (k', a) :: rest => if k' = k then some a else findIn k rest

/-- Replaces the value of `k` in a list of bindings, or appends the binding. -/
def insertIn (k : κ) (a : α) : List (κ × α) → List (κ × α)
  | [] => [(k, a)]
  | (k', a') :: rest => if k' = k then (k, a) :: rest else (k', a') :: insertIn k a rest

theorem map_fst_insertIn (k : κ) (a : α) (l : List (κ × α)) :
    (insertIn k a l).map Prod.fst =
      if k ∈ l.map Prod.fst then l.map Prod.fst else l.map Prod.fst ++ [k] := by
  induction l with
  | nil => rfl
  | cons b l ih =>
    by_cases hb : b.1 = k
    · simp [insertIn, hb]
    · have hk : ¬ k = b.1 := fun e => hb e.symm
      simp only [insertIn, hb, if_false, List.map_cons, ih, List.mem_cons, hk, false_or]
      split <;> rfl

private theorem nodup_insertIn (k : κ) (a : α) {l : List (κ × α)}
    (h : (l.map Prod.fst).Nodup) : ((insertIn k a l).map Prod.fst).Nodup := by
  rw [map_fst_insertIn]
  split
  · exact h
  · next hk =>
    exact List.nodup_append.mpr ⟨h, List.nodup_cons.mpr ⟨by simp, List.nodup_nil⟩,
      fun x hx y hy hxy => hk (by simpa [← List.mem_singleton.mp hy, ← hxy] using hx)⟩

/-- The value bound to `k`. -/
def find? (t : Table κ α) (k : κ) : Option α := findIn k t.entries

/-- Whether `k` is bound. -/
def contains (t : Table κ α) (k : κ) : Bool := (t.find? k).isSome

/-- Binds `k` to `a`. -/
def insert (t : Table κ α) (k : κ) (a : α) : Table κ α :=
  ⟨insertIn k a t.entries, nodup_insertIn k a t.nodup⟩

/-- Removes the binding of `k`. -/
def erase (t : Table κ α) (k : κ) : Table κ α :=
  ⟨t.entries.filter (·.1 ≠ k), nodup_filter _ t.nodup⟩

/-- The value bound to `k`, and the table without that binding. -/
def take (t : Table κ α) (k : κ) : Option α × Table κ α := (t.find? k, t.erase k)

/-! ### Reading after a change -/

@[simp] theorem find?_empty (k : κ) : (empty : Table κ α).find? k = none := rfl

theorem findIn_insertIn (k k' : κ) (a : α) (l : List (κ × α)) :
    findIn k' (insertIn k a l) = if k = k' then some a else findIn k' l := by
  induction l with
  | nil => by_cases h : k = k' <;> simp [insertIn, findIn, h]
  | cons b l ih =>
    by_cases hb : b.1 = k
    · by_cases h : k = k' <;> simp_all [insertIn, findIn]
    · by_cases h : k = k'
      · subst h
        simp [insertIn, findIn, hb, ih]
      · simp [insertIn, findIn, hb, ih, h]

theorem find?_insert (t : Table κ α) (k k' : κ) (a : α) :
    (t.insert k a).find? k' = if k = k' then some a else t.find? k' :=
  findIn_insertIn k k' a t.entries

@[simp] theorem find?_insert_self (t : Table κ α) (k : κ) (a : α) :
    (t.insert k a).find? k = some a := by
  simp [find?_insert]

theorem find?_insert_of_ne (t : Table κ α) {k k' : κ} (a : α) (h : k ≠ k') :
    (t.insert k a).find? k' = t.find? k' := by
  simp [find?_insert, h]

theorem findIn_filter (k k' : κ) (l : List (κ × α)) :
    findIn k' (l.filter (·.1 ≠ k)) = if k = k' then none else findIn k' l := by
  induction l with
  | nil => simp [findIn]
  | cons b l ih =>
    by_cases hb : b.1 = k
    · by_cases h : k = k' <;> simp_all [findIn]
    · by_cases h : k = k'
      · subst h
        simpa [List.filter_cons, hb, findIn] using ih
      · simp_all [findIn]

theorem find?_erase (t : Table κ α) (k k' : κ) :
    (t.erase k).find? k' = if k = k' then none else t.find? k' :=
  findIn_filter k k' t.entries

@[simp] theorem find?_erase_self (t : Table κ α) (k : κ) : (t.erase k).find? k = none := by
  simp [find?_erase]

theorem find?_erase_of_ne (t : Table κ α) {k k' : κ} (h : k ≠ k') :
    (t.erase k).find? k' = t.find? k' := by
  simp [find?_erase, h]

theorem contains_insert (t : Table κ α) (k k' : κ) (a : α) :
    (t.insert k a).contains k' = (decide (k = k') || t.contains k') := by
  by_cases h : k = k' <;> simp [contains, find?_insert, h]

theorem contains_erase (t : Table κ α) (k k' : κ) :
    (t.erase k).contains k' = (!decide (k = k') && t.contains k') := by
  by_cases h : k = k' <;> simp [contains, find?_erase, h]

@[simp] theorem contains_empty (k : κ) : (empty : Table κ α).contains k = false := rfl

/-! ### The order of the keys -/

theorem keys_insert (t : Table κ α) (k : κ) (a : α) :
    (t.insert k a).keys = if k ∈ t.keys then t.keys else t.keys ++ [k] :=
  map_fst_insertIn k a t.entries

@[simp] theorem keys_erase (t : Table κ α) (k : κ) :
    (t.erase k).keys = t.keys.filter (· ≠ k) := by
  simp only [keys, erase, List.filter_map]
  rfl

theorem findIn_isSome_iff {k : κ} {l : List (κ × α)} :
    (findIn k l).isSome ↔ k ∈ l.map Prod.fst := by
  induction l with
  | nil => simp [findIn]
  | cons b l ih =>
    by_cases hb : b.1 = k
    · simp [findIn, hb]
    · have hk : ¬ k = b.1 := fun e => hb e.symm
      simp [findIn, hb, hk, ih]

/-- A key is in the list of keys exactly when it is bound. -/
theorem mem_keys_iff {t : Table κ α} {k : κ} : k ∈ t.keys ↔ (t.find? k).isSome :=
  findIn_isSome_iff.symm

/-! ### The values of a table -/

/-- A table consists of the value of a key, if it has one, and of what is left without that key. -/
theorem values_perm (t : Table κ α) (k : κ) :
    t.values.Perm ((t.find? k).toList ++ (t.erase k).values) := by
  obtain ⟨l, hl⟩ := t
  simp only [values, find?, erase]
  induction l with
  | nil => exact .refl _
  | cons b l ih =>
    obtain ⟨hb, hl⟩ := List.nodup_cons.mp hl
    by_cases hbk : b.1 = k
    · have hrest : l.filter (·.1 ≠ k) = l :=
        List.filter_eq_self.mpr fun c hc => by
          simpa using fun hck : c.1 = k => hb (hbk.trans hck.symm ▸ List.mem_map_of_mem hc)
      rw [List.filter_cons_of_neg (by simpa using hbk), hrest]
      simp [findIn, hbk]
    · rw [List.filter_cons_of_pos (by simpa using hbk)]
      simpa [findIn, hbk] using ((ih hl).cons b.2).trans List.perm_middle.symm

theorem filter_insertIn (k : κ) (a : α) (l : List (κ × α)) :
    (insertIn k a l).filter (·.1 ≠ k) = l.filter (·.1 ≠ k) := by
  induction l with
  | nil => simp [insertIn]
  | cons b l ih =>
    by_cases hb : b.1 = k
    · simp [insertIn, hb]
    · simpa [insertIn, hb, List.filter_cons] using ih

/-- Binding a key again makes no difference to the other keys. -/
theorem values_insert_perm (t : Table κ α) (k : κ) (a : α) :
    (t.insert k a).values.Perm (a :: (t.erase k).values) := by
  have herase : ((t.insert k a).erase k).values = (t.erase k).values :=
    congrArg (List.map Prod.snd) (filter_insertIn k a t.entries)
  simpa [herase] using (t.insert k a).values_perm k

/-! ### The number of bindings -/

theorem size_eq_add (t : Table κ α) (k : κ) :
    t.size = (t.find? k).toList.length + (t.erase k).size := by
  simpa [values, size] using (t.values_perm k).length_eq

theorem size_erase_le (t : Table κ α) (k : κ) : (t.erase k).size ≤ t.size :=
  List.length_filter_le ..

theorem size_insert_le (t : Table κ α) (k : κ) (a : α) : (t.insert k a).size ≤ t.size + 1 := by
  have hinsert : (t.insert k a).size = (t.erase k).size + 1 := by
    simpa [values, size] using (t.values_insert_perm k a).length_eq
  have herase := t.size_erase_le k
  omega

end Table

end Wiring
