import Wiring.Links.Session

/-!
# The records as one list of edges

Dependencies are kept twice, under the component that is needed and under the one that needs it, and
every change has to touch both tables. This module says what they are two views of: one list of
pairs in the order of recording, from which pairs are only ever taken out. The same goes for
containments, which are kept once.

## Main definitions

* `Wiring.Pairs` — duplicate-free lists of pairs of names, the earliest recorded first.
* `Wiring.Edges` — the pairs of dependency and dependent, and those of container and part.
* `Wiring.Edges.obey` — what a command does to them.
* `Wiring.Links.Shows` — the records are views of such lists.

## Main results

* `Wiring.Links.toList_namesAt_link`, `Wiring.Links.toList_namesAt_unlinkAll` — the names under a
  key after a change, in order.
* `Wiring.Links.Shows.obey` — every command keeps the records views of the lists.
* `Wiring.Links.views_of_edges` — the records are views of the lists after any commands.
-/

namespace Wiring

/-! ### Pairs in the order of recording -/

/-- A duplicate-free list of pairs of names, the earliest recorded first. -/
structure Pairs where
  toList : List (String × String)
  nodup : toList.Nodup

namespace Pairs

/-- No pairs. -/
def empty : Pairs := ⟨[], List.nodup_nil⟩

instance : Membership (String × String) Pairs := ⟨fun l p => p ∈ l.toList⟩

theorem mem_toList {l : Pairs} {p : String × String} : p ∈ l.toList ↔ p ∈ l := Iff.rfl

instance (p : String × String) (l : Pairs) : Decidable (p ∈ l) :=
  inferInstanceAs (Decidable (p ∈ l.toList))

/-- Puts a pair at the end if it is new. -/
def insert (l : Pairs) (p : String × String) : Pairs :=
  if h : p ∈ l.toList then l
  else ⟨l.toList ++ [p], List.nodup_append.mpr
    ⟨l.nodup, List.nodup_cons.mpr ⟨by simp, List.nodup_nil⟩,
    fun q hq q' hq' hqq' => h (by simpa [← List.mem_singleton.mp hq', ← hqq'] using hq)⟩⟩

/-- Takes out the pairs that do not satisfy `keep`. -/
def filter (l : Pairs) (keep : String × String → Bool) : Pairs :=
  ⟨l.toList.filter keep, l.nodup.filter _⟩

theorem toList_insert (l : Pairs) (p : String × String) :
    (l.insert p).toList = if p ∈ l then l.toList else l.toList ++ [p] := by
  by_cases h : p ∈ l.toList
  · simp [insert, h, ← mem_toList]
  · simp [insert, h, ← mem_toList]

@[simp] theorem toList_filter (l : Pairs) (keep : String × String → Bool) :
    (l.filter keep).toList = l.toList.filter keep := rfl

@[simp] theorem mem_insert {l : Pairs} {p q : String × String} :
    q ∈ l.insert p ↔ q ∈ l ∨ q = p := by
  rw [← mem_toList, toList_insert]
  split
  · next h => exact ⟨Or.inl, fun h' => h'.elim id (fun e => e ▸ h)⟩
  · simp [mem_toList]

@[simp] theorem mem_filter {l : Pairs} {keep : String × String → Bool} {p : String × String} :
    p ∈ l.filter keep ↔ p ∈ l ∧ keep p = true := by
  simp [← mem_toList]

@[simp] theorem not_mem_empty {p : String × String} : p ∉ empty := List.not_mem_nil

theorem filter_filter {l : Pairs} {p q r : String × String → Bool}
    (h : ∀ x, r x = true ↔ p x = true ∧ q x = true) : (l.filter p).filter q = l.filter r := by
  have hr : r = fun x => q x && p x := funext fun x => by
    rw [Bool.eq_iff_iff, h, Bool.and_eq_true, and_comm]
  simp [filter, hr]

/-- The second components of the pairs that begin with `n`, in order. -/
def under (l : Pairs) (n : String) : List String :=
  (l.toList.filter (·.1 = n)).map Prod.snd

/-- The first components of the pairs that end with `n`, in order. -/
def above (l : Pairs) (n : String) : List String :=
  (l.toList.filter (·.2 = n)).map Prod.fst

theorem mem_under {l : Pairs} {a b : String} : b ∈ l.under a ↔ (a, b) ∈ l := by
  simp [under, ← mem_toList]

theorem mem_above {l : Pairs} {a b : String} : a ∈ l.above b ↔ (a, b) ∈ l := by
  simp [above, ← mem_toList]

theorem under_insert_of_notMem {l : Pairs} {a b : String} (h : (a, b) ∉ l) (n : String) :
    (l.insert (a, b)).under n = if a = n then l.under n ++ [b] else l.under n := by
  rw [under, toList_insert, if_neg h, List.filter_append, List.map_append]
  by_cases hn : a = n <;> simp [hn, under]

theorem above_insert_of_notMem {l : Pairs} {a b : String} (h : (a, b) ∉ l) (n : String) :
    (l.insert (a, b)).above n = if b = n then l.above n ++ [a] else l.above n := by
  rw [above, toList_insert, if_neg h, List.filter_append, List.map_append]
  by_cases hn : b = n <;> simp [hn, above]

theorem under_filter (l : Pairs) (keep : String × String → Bool) (n : String) :
    (l.filter keep).under n = (l.under n).filter fun m => keep (n, m) := by
  rw [under, under, toList_filter, List.filter_filter, List.filter_map, List.filter_filter]
  refine congrArg _ (List.filter_congr fun p _ => ?_)
  by_cases hp : p.1 = n
  · subst hp
    simp
  · simp [hp]

theorem above_filter (l : Pairs) (keep : String × String → Bool) (n : String) :
    (l.filter keep).above n = (l.above n).filter fun m => keep (m, n) := by
  rw [above, above, toList_filter, List.filter_filter, List.filter_map, List.filter_filter]
  refine congrArg _ (List.filter_congr fun p _ => ?_)
  by_cases hp : p.2 = n
  · subst hp
    simp
  · simp [hp]

/-- Without the pairs that begin with `n`. -/
theorem under_filter_ne (l : Pairs) (n k : String) :
    (l.filter (·.1 ≠ n)).under k = if n = k then [] else l.under k := by
  rw [under_filter]
  by_cases h : n = k
  · subst h
    simp
  · rw [if_neg h, List.filter_eq_self]
    exact fun _ _ => decide_eq_true (Ne.symm h)

/-- Without the pairs that end with `n`. -/
theorem above_filter_ne (l : Pairs) (n k : String) :
    (l.filter (·.2 ≠ n)).above k = if n = k then [] else l.above k := by
  rw [above_filter]
  by_cases h : n = k
  · subst h
    simp
  · rw [if_neg h, List.filter_eq_self]
    exact fun _ _ => decide_eq_true (Ne.symm h)

end Pairs

/-! ### Edges -/

/-- The recorded dependencies, each as the pair of a dependency and its dependent, and the recorded
containments, each as the pair of a container and its part. -/
structure Edges where
  needs : Pairs
  parts : Pairs

namespace Edges

/-- Nothing is recorded. -/
def empty : Edges := ⟨.empty, .empty⟩

/-- Records a dependency at the end, if it is new. -/
def depend (e : Edges) (dependency dependent : String) : Edges :=
  { e with needs := e.needs.insert (dependency, dependent) }

/-- Records a containment at the end, and with it a dependency, if the containment is new. -/
def contain (e : Edges) (inner outer : String) : Edges :=
  if (outer, inner) ∈ e.parts then e
  else { e.depend inner outer with parts := e.parts.insert (outer, inner) }

/-- Takes out the dependencies on `n`. -/
def takeDependents (e : Edges) (n : String) : Edges := { e with needs := e.needs.filter (·.1 ≠ n) }

/-- Takes out the containments in `outer`. -/
def takeParts (e : Edges) (outer : String) : Edges :=
  { e with parts := e.parts.filter (·.1 ≠ outer) }

/-- Takes out the dependencies that `n` has a part in. -/
def scrub (e : Edges) (n : String) : Edges :=
  { e with needs := e.needs.filter fun p => p.1 ≠ n ∧ p.2 ≠ n }

/-- What a command does to the edges. -/
def obey (e : Edges) : Links.Command → Edges
  | .depend a b => e.depend a b
  | .contain a b => e.contain a b
  | .takeDependents n => e.takeDependents n
  | .takeParts n => e.takeParts n
  | .scrub n => e.scrub n
  | .clear => empty
  | .isDependent .. | .overview _ => e

end Edges

namespace Links

/-! ### The names under a key after a change -/

theorem toList_namesAt_link {t : Table String Names} {key name : String} (k : String) :
    (namesAt (link t key name) k).toList =
      if key = k ∧ name ∉ namesAt t k then (namesAt t k).toList ++ [name]
      else (namesAt t k).toList := by
  by_cases h : key = k
  · subst h
    rw [namesAt, link, Table.find?_insert_self, Option.getD_some, Names.toList_insert]
    by_cases hn : name ∈ namesAt t key <;> simp [hn]
  · simp [namesAt, link, Table.find?_insert_of_ne _ _ h, h]

theorem toList_namesAt_erase {t : Table String Names} {key : String} (k : String) :
    (namesAt (t.erase key) k).toList = if key = k then [] else (namesAt t k).toList := by
  by_cases h : key = k
  · subst h
    simp [namesAt]
  · simp [namesAt, Table.find?_erase_of_ne _ h, h]

theorem toList_namesAt_unlink {t : Table String Names} {key name : String} (k : String) :
    (namesAt (unlink t key name) k).toList =
      if key = k then (namesAt t k).toList.filter (· ≠ name) else (namesAt t k).toList := by
  unfold unlink
  cases ht : t.find? key with
  | none =>
    by_cases h : key = k
    · subst h
      simp [namesAt, ht]
    · simp [h]
  | some s =>
    by_cases h : key = k
    · subst h
      have hs : namesAt t key = s := by simp [namesAt, ht]
      simp only [if_true]
      split
      · next he => rw [toList_namesAt_erase, if_pos rfl, hs, ← Names.toList_erase,
          List.isEmpty_iff.mp he]
      · rw [hs, namesAt, Table.find?_insert_self, Option.getD_some, Names.toList_erase]
    · simp only [h, if_false]
      split
      · rw [toList_namesAt_erase, if_neg h]
      · rw [namesAt, Table.find?_insert_of_ne _ _ h, namesAt]

theorem toList_namesAt_unlinkAll {t : Table String Names} {keys : List String} {name : String}
    (k : String) :
    (namesAt (unlinkAll t keys name) k).toList =
      if k ∈ keys then (namesAt t k).toList.filter (· ≠ name) else (namesAt t k).toList := by
  induction keys generalizing t with
  | nil => simp [unlinkAll]
  | cons key keys ih =>
    have h : unlinkAll t (key :: keys) name = unlinkAll (unlink t key name) keys name := rfl
    rw [h, ih, toList_namesAt_unlink]
    by_cases hk : key = k
    · subst hk
      simp
    · simp [hk, Ne.symm hk]

/-! ### No entry is empty -/

/-- No key of the table has an entry without names. -/
def Filled (t : Table String Names) : Prop := ∀ k s, t.find? k = some s → s.toList ≠ []

theorem filled_empty : Filled .empty := nofun

theorem Filled.contains_iff {t : Table String Names} (h : Filled t) {k : String} :
    t.contains k = true ↔ (namesAt t k).toList ≠ [] := by
  rw [Table.contains, namesAt]
  cases hk : t.find? k with
  | none => simp
  | some s => simpa using h k s hk

theorem Filled.link {t : Table String Names} (h : Filled t) (key name : String) :
    Filled (link t key name) := by
  intro k s hs
  rw [Links.link, Table.find?_insert] at hs
  split at hs
  · cases hs
    rw [Names.toList_insert]
    split
    · next hmem => exact List.ne_nil_of_mem hmem
    · simp
  · exact h k s hs

theorem Filled.erase {t : Table String Names} (h : Filled t) (key : String) :
    Filled (t.erase key) := by
  intro k s hs
  rw [Table.find?_erase] at hs
  split at hs
  · cases hs
  · exact h k s hs

theorem Filled.unlink {t : Table String Names} (h : Filled t) (key name : String) :
    Filled (unlink t key name) := by
  unfold Links.unlink
  split
  · exact h
  · split
    · exact h.erase key
    · next hne =>
      intro k s hs
      rw [Table.find?_insert] at hs
      split at hs
      · cases hs
        simpa [Names.isEmpty] using hne
      · exact h k s hs

theorem Filled.unlinkAll {t : Table String Names} (h : Filled t) (keys : List String)
    (name : String) : Filled (unlinkAll t keys name) := by
  induction keys generalizing t with
  | nil => exact h
  | cons key keys ih => exact ih (h.unlink key name)

/-! ### Views -/

/-- The records `g` are views of the edges `e`. -/
structure Shows (g : Links) (e : Edges) : Prop where
  dependents : ∀ n, g.dependentsOf n = e.needs.under n
  dependencies : ∀ n, g.dependenciesOf n = e.needs.above n
  parts : ∀ n, g.partsOf n = e.parts.under n
  filled_dependents : Filled g.dependents
  filled_dependencies : Filled g.dependencies

namespace Shows

variable {g : Links} {e : Edges}

theorem empty : Links.empty.Shows .empty :=
  ⟨fun _ => rfl, fun _ => rfl, fun _ => rfl, filled_empty, filled_empty⟩

theorem mem_dependentsOf (h : g.Shows e) {a b : String} :
    b ∈ g.dependentsOf a ↔ (a, b) ∈ e.needs := by
  rw [h.dependents, Pairs.mem_under]

theorem mem_dependenciesOf (h : g.Shows e) {a b : String} :
    a ∈ g.dependenciesOf b ↔ (a, b) ∈ e.needs := by
  rw [h.dependencies, Pairs.mem_above]

theorem mem_partsOf (h : g.Shows e) {a b : String} : b ∈ g.partsOf a ↔ (a, b) ∈ e.parts := by
  rw [h.parts, Pairs.mem_under]

theorem depend (h : g.Shows e) (dependency dependent : String) :
    (g.depend dependency dependent).2.Shows (e.depend dependency dependent) := by
  have hmem : dependent ∈ namesAt g.dependents dependency ↔ (dependency, dependent) ∈ e.needs :=
    h.mem_dependentsOf
  unfold Links.depend Edges.depend
  split
  · next hold =>
    have hsame : e.needs.insert (dependency, dependent) = e.needs := dif_pos (hmem.mp hold)
    rw [hsame]
    exact h
  · next hold =>
    have hnew : (dependency, dependent) ∉ e.needs := fun hp => hold (hmem.mpr hp)
    refine ⟨fun n => ?_, fun n => ?_, h.parts, h.filled_dependents.link _ _,
      h.filled_dependencies.link _ _⟩
    · have hn : (namesAt g.dependents n).toList = e.needs.under n := h.dependents n
      rw [dependentsOf, toList_namesAt_link, Pairs.under_insert_of_notMem hnew, hn]
      by_cases hk : dependency = n
      · subst hk
        simp [hold]
      · simp [hk]
    · have hn : (namesAt g.dependencies n).toList = e.needs.above n := h.dependencies n
      rw [dependenciesOf, toList_namesAt_link, Pairs.above_insert_of_notMem hnew, hn]
      by_cases hk : dependent = n
      · subst hk
        have hnot : dependency ∉ namesAt g.dependencies dependent := fun hp =>
          hnew (h.mem_dependenciesOf.mp hp)
        simp [hnot]
      · simp [hk]

theorem contain (h : g.Shows e) (inner outer : String) :
    (g.contain inner outer).2.Shows (e.contain inner outer) := by
  have hmem : inner ∈ namesAt g.parts outer ↔ (outer, inner) ∈ e.parts := h.mem_partsOf
  unfold Links.contain Edges.contain
  by_cases hold : inner ∈ namesAt g.parts outer
  · rw [if_pos hold, if_pos (hmem.mp hold)]
    exact h
  · have hnew : (outer, inner) ∉ e.parts := fun hp => hold (hmem.mpr hp)
    rw [if_neg hold, if_neg hnew]
    -- the containment comes first, and then the dependency as any other
    have hparts : ({ g with parts := link g.parts outer inner } : Links).Shows
        { e with parts := e.parts.insert (outer, inner) } := by
      refine ⟨h.dependents, h.dependencies, fun n => ?_, h.filled_dependents,
        h.filled_dependencies⟩
      have hn : (namesAt g.parts n).toList = e.parts.under n := h.parts n
      rw [partsOf, toList_namesAt_link, Pairs.under_insert_of_notMem hnew, hn]
      by_cases hk : outer = n
      · subst hk
        simp [hold]
      · simp [hk]
    exact hparts.depend inner outer

theorem takeDependents (h : g.Shows e) (n : String) :
    (g.takeDependents n).2.Shows (e.takeDependents n) := by
  refine ⟨fun k => ?_, fun k => ?_, h.parts, h.filled_dependents.erase n,
    h.filled_dependencies.unlinkAll _ _⟩
  · have hk : (namesAt g.dependents k).toList = e.needs.under k := h.dependents k
    rw [dependentsOf, Links.takeDependents, toList_namesAt_erase, hk, Edges.takeDependents,
      Pairs.under_filter_ne]
  · have hk : (namesAt g.dependencies k).toList = e.needs.above k := h.dependencies k
    rw [dependenciesOf, Links.takeDependents, toList_namesAt_unlinkAll, hk, Edges.takeDependents,
      Pairs.above_filter]
    split
    · rfl
    · next hkn =>
      -- `k` does not depend on `n`, so that nothing is taken out
      refine (List.filter_eq_self.mpr fun m hm => ?_).symm
      rw [h.mem_dependentsOf] at hkn
      rw [Pairs.mem_above] at hm
      exact decide_eq_true fun hmn => hkn (hmn ▸ hm)

theorem takeParts (h : g.Shows e) (outer : String) :
    (g.takeParts outer).2.Shows (e.takeParts outer) := by
  refine ⟨h.dependents, h.dependencies, fun k => ?_, h.filled_dependents, h.filled_dependencies⟩
  have hk : (namesAt g.parts k).toList = e.parts.under k := h.parts k
  rw [partsOf, Links.takeParts, toList_namesAt_erase, hk, Edges.takeParts, Pairs.under_filter_ne]

theorem scrub (h : g.Shows e) (n : String) : (g.scrub n).Shows (e.scrub n) := by
  have htaken := h.takeDependents n
  have hneeds : (e.scrub n).needs = (e.takeDependents n).needs.filter (·.2 ≠ n) := by
    simp [Edges.scrub, Edges.takeDependents, Pairs.filter, Bool.and_comm]
  refine ⟨fun k => ?_, fun k => ?_, h.parts, htaken.filled_dependents.unlinkAll _ _,
    htaken.filled_dependencies.erase n⟩
  · have hk : (namesAt (g.takeDependents n).2.dependents k).toList =
        (e.takeDependents n).needs.under k := htaken.dependents k
    rw [dependentsOf, Links.scrub, toList_namesAt_unlinkAll, hk, hneeds, Pairs.under_filter]
    split
    · rfl
    · next hkn =>
      refine (List.filter_eq_self.mpr fun m hm => ?_).symm
      rw [htaken.mem_dependenciesOf] at hkn
      rw [Pairs.mem_under] at hm
      exact decide_eq_true fun hmn => hkn (hmn ▸ hm)
  · have hk : (namesAt (g.takeDependents n).2.dependencies k).toList =
        (e.takeDependents n).needs.above k := htaken.dependencies k
    rw [dependenciesOf, Links.scrub, toList_namesAt_erase, hk, hneeds, Pairs.above_filter_ne]

/-- Every command keeps the records views of the edges. -/
theorem obey (h : g.Shows e) (c : Command) : (g.obey c).2.Shows (e.obey c) := by
  cases c with
  | depend a b => exact h.depend a b
  | contain a b => exact h.contain a b
  | takeDependents n => exact h.takeDependents n
  | takeParts n => exact h.takeParts n
  | scrub n => exact h.scrub n
  | clear => exact .empty
  | isDependent | overview => exact h

theorem foldl (h : g.Shows e) (commands : List Command) :
    (commands.foldl (fun g c => (g.obey c).2) g).Shows (commands.foldl Edges.obey e) := by
  induction commands generalizing g e with
  | nil => exact h
  | cons c commands ih => exact ih (h.obey c)

end Shows

/-- **Records are views of one list of edges.** Commands are given to a graph without records: new
dependencies and containments are recorded, self-dependencies included, and records are withdrawn.
Two duplicate-free lists are kept alongside, to which a pair is appended when it is new, and from
which each withdrawal takes out the pairs that it is about.

* What is listed of a name at any time are the pairs that the name has a part in, in order, and that
  is also what is answered when the dependents or the parts of the name are taken.
* A name has dependents in the eyes of the graph exactly if there is a pair to say so.
* A record is reported as new exactly if there is no pair for it yet.
* The two tables of dependencies are inverse to each other, and neither keeps an entry without
  names. -/
theorem views_of_edges (commands : List Command) :
    let g := commands.foldl (fun g c => (g.obey c).2) Links.empty
    let e := commands.foldl Edges.obey Edges.empty
    (∀ n, g.dependentsOf n = e.needs.under n ∧ g.dependenciesOf n = e.needs.above n ∧
      g.partsOf n = e.parts.under n) ∧
    (∀ n, (g.takeDependents n).1 = e.needs.under n ∧ (g.takeParts n).1 = e.parts.under n) ∧
    (∀ n, g.hasDependents n = true ↔ e.needs.under n ≠ []) ∧
    (∀ a b, ((g.depend a b).1 = true ↔ (a, b) ∉ e.needs) ∧
      ((g.contain a b).1 = true ↔ (b, a) ∉ e.parts)) ∧
    (∀ a b, b ∈ g.dependentsOf a ↔ a ∈ g.dependenciesOf b) ∧
    ∀ n s, g.dependents.find? n = some s ∨ g.dependencies.find? n = some s → s.toList ≠ [] := by
  intro g e
  have h : g.Shows e := Shows.empty.foldl commands
  refine ⟨fun n => ⟨h.dependents n, h.dependencies n, h.parts n⟩,
    fun n => ⟨h.dependents n, h.parts n⟩, fun n => ?has, fun a b => ⟨?depend, ?contain⟩,
    fun a b => h.mem_dependentsOf.trans h.mem_dependenciesOf.symm, fun n s hs => ?filled⟩
  case has => rw [← h.dependents n, hasDependents, h.filled_dependents.contains_iff, dependentsOf]
  case depend =>
    rw [← h.mem_dependentsOf, dependentsOf, Names.mem_toList, Links.depend]
    split <;> simp [*]
  case contain =>
    rw [← h.mem_partsOf, partsOf, Names.mem_toList, Links.contain]
    split <;> simp [*]
  case filled => exact hs.elim (h.filled_dependents n s) (h.filled_dependencies n s)

end Links

end Wiring
