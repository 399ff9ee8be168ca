import Mathlib.Data.Set.Basic
import Wiring.Registry

/-!
# What a registry holds about one name

Builds and early lookups of a name change what the registry holds about that name and leave what it
holds about others alone. Each lemma here says both for one operation, for a name that is not final.

## Main definitions

* `Wiring.Registry.view` — the instances, the producer and the mark of a name.
* `Wiring.Registry.SameOff` — two registries differ at most in what they hold about some names, and
  in the errors set aside.

## Main results

* `Wiring.Registry.view_publish`, `Wiring.Registry.view_memoize`, `Wiring.Registry.view_settle_ok`,
  `Wiring.Registry.view_settle_cycle` — what an operation makes of its own name and of the others.
-/

namespace Wiring

/-- What a registry holds about a name. -/
structure View (ι φ : Type) where
  final : Option ι
  early : Option ι
  producer : Option φ
  marked : Bool

namespace Registry

variable {ι φ η : Type} {r r' r'' : Registry ι φ η} {S T : Set String} {n m : String}

/-- What `r` holds about `n`. -/
def view (r : Registry ι φ η) (n : String) : View ι φ :=
  ⟨r.store.final? n, r.store.early? n, r.store.producers.find? n, r.marks.isMarked n⟩

theorem view_eq_iff {f e : Option ι} {p : Option φ} {b : Bool} :
    r.view n = ⟨f, e, p, b⟩ ↔ r.store.final? n = f ∧ r.store.early? n = e ∧
      r.store.producers.find? n = p ∧ r.marks.isMarked n = b := by
  simp [view]

/-- The registries hold the same about every name outside `S`, and do not differ otherwise, except
perhaps in the errors set aside. -/
structure SameOff (S : Set String) (r r' : Registry ι φ η) : Prop where
  view : ∀ m ∉ S, r'.view m = r.view m
  excluded : r'.marks.excluded = r.marks.excluded
  options : r'.options = r.options
  links : r'.links = r.links
  hooks : r'.hooks = r.hooks
  tearingDown : r'.tearingDown = r.tearingDown

namespace SameOff

theorem refl (S : Set String) (r : Registry ι φ η) : SameOff S r r :=
  ⟨fun _ _ => rfl, rfl, rfl, rfl, rfl, rfl⟩

theorem trans (h : SameOff S r r') (h' : SameOff S r' r'') : SameOff S r r'' :=
  ⟨fun m hm => (h'.view m hm).trans (h.view m hm), h'.excluded.trans h.excluded,
    h'.options.trans h.options, h'.links.trans h.links, h'.hooks.trans h.hooks,
    h'.tearingDown.trans h.tearingDown⟩

theorem mono (h : SameOff S r r') (hST : S ⊆ T) : SameOff T r r' :=
  ⟨fun m hm => h.view m fun hS => hm (hST hS), h.excluded, h.options, h.links, h.hooks,
    h.tearingDown⟩

end SameOff

/-! ### Changes at one name -/

theorem isMarked_insert (k : Marks) :
    ({ k with marked := k.marked.insert n } : Marks).isMarked m =
      (decide (m = n) || k.isMarked m) := by
  simp [Marks.isMarked, or_comm]

theorem isMarked_erase (k : Marks) :
    ({ k with marked := k.marked.erase n } : Marks).isMarked m =
      (!decide (m = n) && k.isMarked m) := by
  simp [Marks.isMarked, and_comm]

theorem finish_of_marked {k : Marks} (hm : k.isMarked n = true) (hx : k.isExcluded n = false) :
    k.finish n = .ok { k with marked := k.marked.erase n } := by
  simp [Marks.finish, hm, hx]

/-- A name that is neither marked nor excluded gets its mark when its build begins. -/
theorem openBuild_of_unmarked (hm : r.marks.isMarked n = false)
    (hx : r.marks.isExcluded n = false) :
    ∃ r', r.openBuild n = .ok r' ∧ r'.view n = { r.view n with marked := true } ∧
      SameOff {n} r r' ∧ r'.suppressed = some (r.suppressed.getD []) := by
  refine ⟨{ r with
    marks := { r.marks with marked := r.marks.marked.insert n }
    suppressed := some (r.suppressed.getD []) }, ?_, ?_, ?_, rfl⟩
  · simp [openBuild, Marks.begin, hm, hx]
  · simp [view, isMarked_insert]
  · refine ⟨fun m hmn => ?_, rfl, rfl, rfl, rfl, rfl⟩
    have hne : ¬ m = n := hmn
    simp [view, isMarked_insert, hne]

/-- A build inside a build of the same name is a cycle. -/
theorem openBuild_of_marked (hm : r.marks.isMarked n = true) (hx : r.marks.isExcluded n = false) :
    r.openBuild n = .error (.cycle n) := by
  simp [openBuild, Marks.begin, hm, hx]

/-- A producer is taken for a marked name that is not final. -/
theorem view_publish {p : φ} (hc : r.options.circular = true) (hm : r.marks.isMarked n = true)
    (hf : r.store.final? n = none) :
    (r.publish n p).registry.view n = ⟨none, none, some p, true⟩ ∧
      SameOff {n} r (r.publish n p).registry ∧
      (r.publish n p).registry.suppressed = r.suppressed := by
  have hfinal : r.store.isFinal n = false := Store.isFinal_eq_false_iff.mpr hf
  have hreg : (r.publish n p).registry = { r with store := (r.store.offer n p).2 } := by
    simp [publish, hc, hm]
  rw [hreg]
  refine ⟨?_, ⟨fun m hmn => ?_, rfl, rfl, rfl, rfl, rfl⟩, rfl⟩
  · simpa [view, Store.offer, Store.final?, Store.early?, hfinal, hm] using hf
  · have hne : n ≠ m := Ne.symm hmn
    simp [view, Store.offer, Store.final?, Store.early?, hfinal, Table.find?_erase_of_ne _ hne,
      Table.find?_insert_of_ne _ _ hne]

/-- A producer that is fetched and run, and whose product is memoized, leaves an early instance. -/
theorem view_memoize {p : φ} {i : ι} {store : Store ι φ}
    (hs : r.store.seek n = .pending p store) :
    Registry.view { r with store := (store.memoize n i).2 } n =
        { r.view n with early := some i, producer := none } ∧
      SameOff {n} r { r with store := (store.memoize n i).2 } ∧ (store.memoize n i).1 = i := by
  unfold Store.seek at hs
  cases he : r.store.early? n with
  | some e => simp [he] at hs
  | none =>
    cases hp : r.store.producers.find? n with
    | none => simp [he, hp] at hs
    | some q =>
      simp only [he, hp] at hs
      cases hs
      have he' : r.store.early.find? n = none := he
      refine ⟨?_, ⟨fun m hmn => ?_, rfl, rfl, rfl, rfl, rfl⟩, ?_⟩
      · simp [view, Store.memoize, Store.early?, Store.final?, he']
      · have hne : n ≠ m := Ne.symm hmn
        simp [view, Store.memoize, Store.early?, Store.final?, he', Table.find?_erase_of_ne _ hne,
          Table.find?_insert_of_ne _ _ hne]
      · simp [Store.memoize, Store.early?, he']

/-! ### The end of a build -/

/-- The end of a build takes the mark away, and the errors set aside if it is the outermost one. -/
theorem view_closeBuild (outermost : Bool) (hm : r.marks.isMarked n = true)
    (hx : r.marks.isExcluded n = false) :
    (r.closeBuild n outermost).view n = { r.view n with marked := false } ∧
      SameOff {n} r (r.closeBuild n outermost) ∧
      (r.closeBuild n outermost).suppressed = if outermost then none else r.suppressed := by
  rw [closeBuild, finish_of_marked hm hx]
  refine ⟨?_, ⟨fun m hmn => ?_, rfl, rfl, rfl, rfl, rfl⟩, rfl⟩
  · simp [view, isMarked_erase]
  · have hne : ¬ m = n := hmn
    simp [view, isMarked_erase, hne]

theorem view_put (i : ι) :
    Registry.view { r with store := r.store.put n i } n =
        ⟨some i, none, none, r.marks.isMarked n⟩ ∧
      SameOff {n} r { r with store := r.store.put n i } := by
  refine ⟨by simp [view, Store.put, Store.final?, Store.early?], fun m hmn => ?_, rfl, rfl, rfl,
    rfl, rfl⟩
  have hne : n ≠ m := Ne.symm hmn
  simp [view, Store.put, Store.final?, Store.early?, Table.find?_erase_of_ne _ hne,
    Table.find?_insert_of_ne _ _ hne]

theorem view_discard :
    (r.discard n).view n = { r.view n with early := none, producer := none } ∧
      SameOff {n} r (r.discard n) := by
  refine ⟨by simp [view, discard, Store.discard, Store.final?, Store.early?], fun m hmn => ?_, rfl,
    rfl, rfl, rfl, rfl⟩
  have hne : n ≠ m := Ne.symm hmn
  simp [view, discard, Store.discard, Store.final?, Store.early?, Table.find?_erase_of_ne _ hne]

/-- A build whose construct returned an instance makes it final; what was staged is gone. -/
theorem view_settle_ok {i : ι} (outermost : Bool) (hm : r.marks.isMarked n = true)
    (hx : r.marks.isExcluded n = false) (hf : r.store.final? n = none) :
    (r.settle n outermost (.ok i)).reply = .ok i ∧
      (r.settle n outermost (.ok i)).registry.view n = ⟨some i, none, none, false⟩ ∧
      SameOff {n} r (r.settle n outermost (.ok i)).registry ∧
      (r.settle n outermost (.ok i)).registry.suppressed =
        if outermost then none else r.suppressed := by
  obtain ⟨hview, hoff, hsup⟩ := view_closeBuild outermost hm hx
  have hclosed : (r.closeBuild n outermost).store.final? n = none := hf
  have hsettle : r.settle n outermost (.ok i) = (r.closeBuild n outermost).install n i := by
    simp [settle, outcome, finish_of_marked hm hx, closed]
  rw [hsettle, install, hclosed]
  obtain ⟨hput, hputoff⟩ := view_put (r := r.closeBuild n outermost) (n := n) i
  have hmark : (r.closeBuild n outermost).marks.isMarked n = false := congrArg View.marked hview
  refine ⟨rfl, ?_, hoff.trans hputoff, hsup⟩
  rw [hput, hmark]

/-- A build whose construct returned that there is a cycle leaves nothing behind. -/
theorem view_settle_cycle {b : String} (outermost : Bool) (hm : r.marks.isMarked n = true)
    (hx : r.marks.isExcluded n = false) (hf : r.store.final? n = none) :
    (r.settle n outermost (.error (.cycle b))).reply = .error (.cycle b) ∧
      (r.settle n outermost (.error (.cycle b))).registry.view n = ⟨none, none, none, false⟩ ∧
      SameOff {n} r (r.settle n outermost (.error (.cycle b))).registry ∧
      (r.settle n outermost (.error (.cycle b))).registry.suppressed =
        if outermost then none else r.suppressed := by
  have hsettle : r.settle n outermost (.error (.cycle b)) =
      ⟨.error (.cycle b), (r.discard n).closeBuild n outermost, none⟩ := by
    simp [settle, outcome, Error.isRace, Error.withRelated, finish_of_marked hm hx, closed]
  obtain ⟨hdiscard, hdiscardoff⟩ := view_discard (r := r) (n := n)
  obtain ⟨hview, hoff, hsup⟩ := view_closeBuild (r := r.discard n) outermost hm hx
  rw [hsettle]
  refine ⟨rfl, ?_, hdiscardoff.trans hoff, hsup⟩
  rw [hview, hdiscard]
  simp [view, hf]

end Registry

end Wiring
