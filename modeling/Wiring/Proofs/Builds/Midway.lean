import Wiring.Proofs.Builds.Success

/-!
# The registry in the middle of a build request

A build request is made while no build is open, no name is marked or excluded, and nothing is
staged. From then on, as long as instances come in through builds and early references only, the
registry differs from what it was by the builds that are open and by those that were completed: the
open ones are marked and may have something staged, the completed ones are final. A build that fails
takes everything of its own away with it.

## Main definitions

* `Wiring.Store.Midway` — what the tiers hold in the middle of a build request.
* `Wiring.Registry.Midway` — what the registry holds.
* `Wiring.Registry.Gained` — the registry has gained some completed builds, and nothing else.

## Main results

* `Wiring.Store.Midway.begin`, `Wiring.Store.Midway.complete`, `Wiring.Store.Midway.fail` — a build
  begins, is completed, or fails.
* `Wiring.Store.Midway.offer`, `Wiring.Store.Midway.fetch`, `Wiring.Store.Midway.memoize` — the life
  of an early reference.
* `Wiring.Registry.Midway.keep`, `Wiring.Registry.Midway.begin`, `Wiring.Registry.Midway.finish` —
  what a step makes of the marks and of the errors set aside.
* `Wiring.Registry.Midway.gained` — when no build is open any more, only the completed builds
  remain.
-/

namespace Wiring

/-! ### Tables and lists of names -/

section Table

variable {κ α : Type} [DecidableEq κ] {t : Table κ α} {k : κ}

theorem Table.eq_empty_of_find? (h : ∀ k, t.find? k = none) : t = Table.empty := by
  obtain ⟨entries, nodup⟩ := t
  cases entries with
  | nil => rfl
  | cons b rest => simpa [find?, findIn] using h b.1

/-- The table after some bindings, made one after the other. -/
def Table.insertAll (t : Table κ α) (l : List (κ × α)) : Table κ α :=
  l.foldl (fun t b => t.insert b.1 b.2) t

theorem Table.insertAll_concat (t : Table κ α) (l : List (κ × α)) (k : κ) (a : α) :
    t.insertAll (l ++ [(k, a)]) = (t.insertAll l).insert k a := by
  simp [insertAll]

theorem Table.find?_insertAll_eq_none_iff {l : List (κ × α)} :
    (t.insertAll l).find? k = none ↔ t.find? k = none ∧ k ∉ l.map Prod.fst := by
  induction l generalizing t with
  | nil => simp [insertAll]
  | cons b l ih =>
    have hcons : t.insertAll (b :: l) = (t.insert b.1 b.2).insertAll l := rfl
    rw [hcons, ih, find?_insert, List.map_cons, List.mem_cons, not_or, eq_comm (a := k)]
    by_cases h : b.1 = k <;> simp [h]

end Table

theorem Names.ext {s s' : Names} (h : s.toList = s'.toList) : s = s' := by
  obtain ⟨l, hl⟩ := s
  obtain ⟨l', hl'⟩ := s'
  obtain rfl : l = l' := h
  rfl

/-! ### The tiers -/

namespace Store

variable {ι φ : Type}

/-- The tiers `s` in the middle of a build request that was made when they were `s₀`: the builds of
the names in `l` are open, and those in `done` were completed, with these instances. Producers that
wait have the property `W`. -/
structure Midway (W : φ → Prop) (s₀ : Store ι φ) (l : List String) (done : List (String × ι))
    (s : Store ι φ) : Prop where
  /-- What was registered at the beginning was final. -/
  before : ∀ m ∈ s₀.registered, s₀.final? m ≠ none
  finals : s.finals = s₀.finals.insertAll done
  new : ∀ m ∈ l ++ done.map Prod.fst, s₀.final? m = none
  nodup : (l ++ done.map Prod.fst).Nodup
  /-- The names that came in are those of completed builds, and perhaps of open ones. -/
  names : ∃ k, s.names = s₀.names ++ k ∧ done.map Prod.fst ⊆ k ∧ k ⊆ l ++ done.map Prod.fst
  staged : ∀ m, s.isStaged m = true → m ∈ l
  producers : ∀ m p, s.producers.find? m = some p → W p

namespace Midway

variable {W : φ → Prop} {s₀ s : Store ι φ} {l : List String} {done : List (String × ι)} {m : String}

theorem final?_eq_none_iff (h : Midway W s₀ l done s) :
    s.final? m = none ↔ s₀.final? m = none ∧ m ∉ done.map Prod.fst := by
  rw [final?, h.finals, Table.find?_insertAll_eq_none_iff]
  rfl

/-- The name of an open build is not final. -/
theorem final?_of_mem (h : Midway W s₀ l done s) (hm : m ∈ l) : s.final? m = none :=
  h.final?_eq_none_iff.mpr ⟨h.new m (List.mem_append_left _ hm),
    fun hd => List.disjoint_of_nodup_append h.nodup hm hd⟩

/-- The tiers at the beginning of the request. -/
theorem start (hreg : ∀ m ∈ s₀.registered, s₀.final? m ≠ none)
    (hstaged : ∀ m, s₀.isStaged m = false) : Midway W s₀ [] [] s₀ where
  before := hreg
  finals := rfl
  new := by simp
  nodup := by simp
  names := ⟨[], by simp⟩
  staged m hm := absurd hm (by simp [hstaged m])
  producers m p hp := by
    have hnone := (isStaged_eq_false_iff.mp (hstaged m)).2
    simp [hp] at hnone

/-- A build begins. -/
theorem begin (h : Midway W s₀ l done s) (hm : m ∉ l) (hf : s.final? m = none) :
    Midway W s₀ (m :: l) done s := by
  obtain ⟨hnew, hdone⟩ := h.final?_eq_none_iff.mp hf
  have hmem : m ∉ l ++ done.map Prod.fst := by simpa [hm] using hdone
  refine { h with
    new := List.forall_mem_cons.mpr ⟨hnew, h.new⟩
    nodup := List.nodup_cons.mpr ⟨hmem, h.nodup⟩
    names := ?_
    staged := fun k hk => List.mem_cons_of_mem m (h.staged k hk) }
  obtain ⟨k, hk, hsub, hsup⟩ := h.names
  exact ⟨k, hk, hsub, fun x hx => List.mem_cons_of_mem m (hsup hx)⟩

/-- The name of an open build comes in. -/
theorem names_insert (h : Midway W s₀ l done s) (hm : m ∈ l) :
    ∃ k, (s.registered.insert m).toList = s₀.names ++ k ∧ done.map Prod.fst ⊆ k ∧
      k ⊆ l ++ done.map Prod.fst ∧ m ∈ k := by
  obtain ⟨k, hk, hsub, hsup⟩ := h.names
  have hlist : s.registered.toList = s₀.registered.toList ++ k := hk
  have hold : m ∉ s₀.registered.toList := fun hmem =>
    h.before m hmem (h.new m (List.mem_append_left _ hm))
  rw [Names.toList_insert]
  split
  · next hin =>
    rw [← Names.mem_toList, hlist, List.mem_append, or_iff_right hold] at hin
    exact ⟨k, hlist, hsub, hsup, hin⟩
  · rw [hlist, List.append_assoc]
    refine ⟨k ++ [m], rfl, fun x hx => List.mem_append_left _ (hsub hx), ?_,
      List.mem_append_right _ List.mem_cons_self⟩
    refine List.append_subset.mpr ⟨hsup, ?_⟩
    simpa using .inl hm

/-- The producer of an early reference is offered. -/
theorem offer (h : Midway W s₀ l done s) {p : φ} (hm : m ∈ l) (hp : W p) :
    Midway W s₀ l done (s.offer m p).2 := by
  have hf : s.isFinal m = false := isFinal_eq_false_iff.mpr (h.final?_of_mem hm)
  have hoffer : (s.offer m p).2 = { s with
      early := s.early.erase m
      producers := s.producers.insert m p
      registered := s.registered.insert m } := by simp [Store.offer, hf]
  rw [hoffer]
  obtain ⟨k, hk, hsub, hsup, -⟩ := h.names_insert hm
  refine { h with
    names := ⟨k, hk, hsub, hsup⟩
    staged := fun x hx => ?_
    producers := fun x q hq => ?_ }
  · rw [← hoffer, isStaged_offer] at hx
    by_cases hmx : m = x
    · exact hmx ▸ hm
    · exact h.staged x (by simpa [hmx] using hx)
  · rw [Table.find?_insert] at hq
    split at hq
    · cases hq
      exact hp
    · exact h.producers x q hq

theorem producers_erase (h : Midway W s₀ l done s) (m x : String) (q : φ)
    (hq : (s.producers.erase m).find? x = some q) : W q := by
  rw [Table.find?_erase] at hq
  split at hq
  · cases hq
  · exact h.producers x q hq

/-- A producer is taken out to be run. -/
theorem fetch (h : Midway W s₀ l done s) (m : String) : Midway W s₀ l done (s.fetch m) := by
  refine { h with staged := fun x hx => h.staged x ?_, producers := h.producers_erase m }
  simp only [isStaged, Store.fetch, Table.contains_erase, Bool.or_eq_true,
    Bool.and_eq_true] at hx ⊢
  exact hx.imp_right And.right

/-- The product of a producer is taken up. -/
theorem memoize (h : Midway W s₀ l done s) (hm : m ∈ l) (i : ι) :
    Midway W s₀ l done (s.memoize m i).2 := by
  rw [Store.memoize]
  split
  · exact h
  · next he =>
    refine { h with staged := fun x hx => ?_ }
    simp only [isStaged, Table.contains_insert] at hx
    by_cases hmx : m = x
    · exact hmx ▸ hm
    · exact h.staged x (by simpa [isStaged, hmx] using hx)

/-- What is staged beside the innermost build belongs to another one. -/
theorem mem_of_isStaged (h : Midway W s₀ (m :: l) done s) {x : String}
    (hx : (!decide (m = x) && s.isStaged x) = true) : x ∈ l := by
  obtain ⟨hne, hs⟩ : m ≠ x ∧ s.isStaged x = true := by simpa using hx
  exact (List.mem_cons.mp (h.staged x hs)).resolve_left (Ne.symm hne)

/-- A build is completed. -/
theorem complete (h : Midway W s₀ (m :: l) done s) (x : ι) :
    Midway W s₀ l (done ++ [(m, x)]) (s.put m x) := by
  have hperm : (m :: l ++ done.map Prod.fst).Perm (l ++ (done ++ [(m, x)]).map Prod.fst) := by
    simpa using (List.perm_append_singleton m (l ++ done.map Prod.fst)).symm
  obtain ⟨k, hk, hsub, hsup, hin⟩ := h.names_insert List.mem_cons_self
  refine ⟨h.before, ?_, fun y hy => h.new y (hperm.mem_iff.mpr hy), hperm.nodup h.nodup,
    ⟨k, hk, ?_, fun y hy => hperm.mem_iff.mp (hsup hy)⟩,
    fun y hy => h.mem_of_isStaged (isStaged_put s m y x ▸ hy), h.producers_erase m⟩
  · rw [Table.insertAll_concat, ← h.finals]
    rfl
  · simpa using ⟨by simpa using hsub, hin⟩

/-- A build fails. -/
theorem fail (h : Midway W s₀ (m :: l) done s) : Midway W s₀ l done (s.discard m) := by
  have hf : s.isFinal m = false := isFinal_eq_false_iff.mpr (h.final?_of_mem List.mem_cons_self)
  obtain ⟨hm, hnodup⟩ := List.nodup_cons.mp h.nodup
  obtain ⟨k, hk, hsub, hsup⟩ := h.names
  have hlist : s.registered.toList = s₀.registered.toList ++ k := hk
  -- what was registered at the beginning was final, so the name that is forgotten is not among it
  have hold : s₀.registered.toList.filter (· ≠ m) = s₀.registered.toList :=
    List.filter_eq_self.mpr fun y hy => by
      have hne : y ≠ m := fun hym => h.before y hy (hym ▸ h.new m List.mem_cons_self)
      simpa using hne
  refine ⟨h.before, h.finals, fun y hy => h.new y (List.mem_cons_of_mem m hy), hnodup,
    ⟨k.filter (· ≠ m), ?_, fun y hy => ?_, fun y hy => ?_⟩,
    fun y hy => h.mem_of_isStaged (isStaged_discard s m y ▸ hy), h.producers_erase m⟩
  · have herase : (s.discard m).names = s.registered.toList.filter (· ≠ m) := by
      simp [Store.names, discard, hf]
    rw [herase, hlist, List.filter_append, hold]
    rfl
  · have hne : y ≠ m := fun hym => hm (List.mem_append_right _ (hym ▸ hy))
    exact List.mem_filter.mpr ⟨hsub hy, by simpa using hne⟩
  · obtain ⟨hy, hne⟩ := List.mem_filter.mp hy
    exact (List.mem_cons.mp (hsup hy)).resolve_left (by simpa using hne)

end Midway

/-- Nothing is staged exactly if there is neither an early instance nor a producer. -/
theorem forall_isStaged_eq_false_iff {s : Store ι φ} :
    (∀ m, s.isStaged m = false) ↔ s.early = .empty ∧ s.producers = .empty := by
  refine ⟨fun h => ⟨?_, ?_⟩, fun ⟨he, hp⟩ m => by simp [isStaged, he, hp]⟩
  · exact Table.eq_empty_of_find? fun m => (isStaged_eq_false_iff.mp (h m)).1
  · exact Table.eq_empty_of_find? fun m => (isStaged_eq_false_iff.mp (h m)).2

end Store

/-! ### The registry -/

variable {v : Vocabulary}

namespace Registry

/-- The registry `r` in the middle of a build request that was made when it was `r₀`: exactly the
builds of the names in `l` are open, and those in `done` were completed. -/
structure Midway (W : v.Closure .producer → Prop) (r₀ : v.Registry) (l : List String)
    (done : List (String × v.Inst)) (r : v.Registry) : Prop where
  tiers : Store.Midway W r₀.store l done r.store
  marked : ∀ m, r.marks.isMarked m = true ↔ m ∈ l
  excluded : ∀ m, r.marks.isExcluded m = false
  suppressed : r.suppressed.isSome = !l.isEmpty

/-- The registry `r'` has gained the completed builds in `done` since it was `r`, and nothing else:
no name is marked, nothing is staged, and no error is set aside. -/
structure Gained (r : v.Registry) (done : List (String × v.Inst)) (r' : v.Registry) : Prop where
  finals : r'.store.finals = r.store.finals.insertAll done
  new : ∀ b ∈ done, r.store.final? b.1 = none
  nodup : (done.map Prod.fst).Nodup
  early : r'.store.early = .empty
  producers : r'.store.producers = .empty
  names : ∃ l, r'.store.names = r.store.names ++ l ∧ l.Perm (done.map Prod.fst)
  unmarked : ∀ m, r'.marks.isMarked m = false
  suppressed : r'.suppressed = none
  unchanged : done = [] → r'.store = r.store

namespace Midway

variable {W : v.Closure .producer → Prop} {r₀ r r' : v.Registry} {l : List String}
  {done done' : List (String × v.Inst)} {m : String} {b : Build} {bs bs' : List Build}

/-- The build of a name that is open can be closed in good order. -/
theorem finishes (h : Midway W r₀ l done r) (hm : m ∈ l) : r.marks.Finishes m :=
  .inr ((h.marked m).mpr hm)

/-- A step that neither begins nor ends a build. -/
theorem keep (h : Midway W r₀ l done r) (hf : Thread.Follows .keep bs r bs' r')
    (ht : Store.Midway W r₀.store l done r'.store) : Midway W r₀ l done r' where
  tiers := ht
  marked := by
    rw [hf.marks]
    exact h.marked
  excluded := by
    rw [hf.marks]
    exact h.excluded
  suppressed := hf.collects.trans h.suppressed

/-- A step that begins a build. -/
theorem begin (h : Midway W r₀ l done r) (hf : Thread.Follows (.begin b) bs r bs' r')
    (ht : Store.Midway W r₀.store (b.name :: l) done r'.store) :
    Midway W r₀ (b.name :: l) done r' where
  tiers := ht
  marked m := by
    rw [hf.marks, Build.Change.isMarked_begin, h.excluded, List.mem_cons, ← h.marked m]
    simp [or_comm]
  excluded m := by rw [hf.marks, Build.Change.isExcluded_begin, h.excluded]
  suppressed := hf.collects

/-- A step that ends the innermost build. -/
theorem finish (h : Midway W r₀ (b.name :: l) done r) (hb : b.outermost = l.isEmpty)
    (hf : Thread.Follows (.finish b) bs r bs' r')
    (ht : Store.Midway W r₀.store l done' r'.store) : Midway W r₀ l done' r' where
  tiers := ht
  marked m := by
    have hnot : b.name ∉ l := fun hmem =>
      (List.nodup_cons.mp h.tiers.nodup).1 (List.mem_append_left _ hmem)
    have hm := h.marked m
    rw [List.mem_cons] at hm
    rw [hf.marks, Build.Change.isMarked_finish, h.excluded]
    by_cases hmb : m = b.name
    · simp [hmb, hnot]
    · simpa [hmb] using hm
  excluded m := by rw [hf.marks, Build.Change.isExcluded_finish, h.excluded]
  suppressed := by
    rw [hf.collects, h.suppressed, Build.Change.collects, hb]
    rfl

/-- When no build is open any more, the registry has gained what was completed. -/
theorem gained (h : Midway W r₀ [] done r) (hstaged : ∀ m, r₀.store.isStaged m = false) :
    Gained r₀ done r := by
  have hnone (m : String) : r.store.isStaged m = false := by
    simpa using fun hm => List.not_mem_nil (h.tiers.staged m hm)
  obtain ⟨hearly, hproducers⟩ := Store.forall_isStaged_eq_false_iff.mp hnone
  have hnodup : (done.map Prod.fst).Nodup := h.tiers.nodup
  obtain ⟨k, hk, hsub, hsup⟩ := h.tiers.names
  refine ⟨h.tiers.finals, fun b hb => h.tiers.new b.1 (List.mem_map_of_mem hb), hnodup, hearly,
    hproducers, ⟨k, hk, ?_⟩, fun m => ?_, ?_, ?_⟩
  · have hall : r.store.names.Nodup := r.store.registered.nodup
    rw [hk] at hall
    have hkd : k.Nodup := (List.nodup_append.mp hall).2.1
    exact (List.perm_ext_iff_of_nodup hkd hnodup).mpr fun m =>
      ⟨fun hm => hsup hm, fun hm => hsub hm⟩
  · simpa using fun hm => List.not_mem_nil ((h.marked m).mp hm)
  · simpa using h.suppressed
  · rintro rfl
    obtain ⟨hearly₀, hproducers₀⟩ := Store.forall_isStaged_eq_false_iff.mp hstaged
    obtain rfl : k = [] := List.eq_nil_of_subset_nil hsup
    have hnames : r.store.registered = r₀.store.registered :=
      Names.ext (hk.trans (List.append_nil _))
    have hfinals : r.store.finals = r₀.store.finals := h.tiers.finals
    calc r.store
        = ⟨r.store.finals, r.store.early, r.store.producers, r.store.registered⟩ := rfl
      _ = ⟨r₀.store.finals, r₀.store.early, r₀.store.producers, r₀.store.registered⟩ := by
          rw [hfinals, hearly, hproducers, hnames, hearly₀, hproducers₀]
      _ = r₀.store := rfl

end Midway

end Registry

end Wiring
