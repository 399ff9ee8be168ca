import Wiring.Proofs.Assembly.Tour
import Wiring.Proofs.Assembly.View
import Wiring.Proofs.Occurrence

/-!
# Components that resolve their peers

A blueprint names the components of a plan and says which closures build them. The construct of a
component allocates its instance, publishes it as an early reference if it is shown, resolves the
peers one after the other, and returns its instance. While components are being built, what the
registry holds about each of them follows from whether it is open or made.

## Main definitions

* `Wiring.Blueprint` — a plan with names and closures.
* `Wiring.Blueprint.construct` — the construct of a component.
* `Wiring.Blueprint.Describes` — an application has the code of a blueprint.
* `Wiring.Blueprint.Fits`, `Wiring.Blueprint.Agrees` — what a registry holds about the components.
* `Wiring.Blueprint.Untouched` — a registry in which nothing is known about them.

## Main results

* `Wiring.Blueprint.Agrees.change` — a change at the name of one component.
-/

namespace Wiring

/-- A plan whose components have distinct names, with the closures that build them and that produce
their early instances. -/
structure Blueprint (V : Type) (v : Vocabulary) extends Plan V v.Inst v.World where
  name : V → String
  build : V → v.Closure .construct
  expose : v.Inst → v.Closure .producer
  name_injective : Function.Injective name
  name_ne_empty : ∀ u, name u ≠ ""

namespace Blueprint

variable {V : Type} {v : Vocabulary}

/-! ### Code -/

/-- Goes on with `next` after a request that succeeded, and returns the error of one that failed. -/
def unlessError (next : Code v (Except Error v.Inst)) :
    Except Error v.Inst → Code v (Except Error v.Inst)
  | .ok _ => next
  | .error e => .done (.error e)

/-- Resolves the peers `ps` one after the other, and returns `own`, or the first error. -/
def needPeers (d : Blueprint V v) (own : v.Inst) : List V → Code v (Except Error v.Inst)
  | [] => .done (.ok own)
  | p :: ps =>
    (Code.resolve (d.name p) (d.build p)).bind (unlessError (d.needPeers own ps))

/-- The construct of a component. -/
def construct (d : Blueprint V v) (u : V) : Code v (Except Error v.Inst) :=
  .access (fun w => (d.allocate u w).2) fun w =>
    if d.shown u then
      .call (.publish (d.name u) (d.expose (d.allocate u w).1)) fun _ =>
        d.needPeers (d.allocate u w).1 (d.peers u)
    else d.needPeers (d.allocate u w).1 (d.peers u)

/-- The closures of the blueprint have the code that they should have in `app`. -/
structure Describes (d : Blueprint V v) (app : Application v) : Prop where
  build : ∀ u, app.body (d.build u) = d.construct u
  expose : ∀ i, app.body (d.expose i) = .done i

/-! ### What the registry holds -/

/-- What a registry may hold about a component while components are built: about an open one with
the instance `i`, about one that was made, and about any other. -/
inductive Fits (d : Blueprint V v) (u : V) :
    Option v.Inst → Option v.Inst → View v.Inst (v.Closure .producer) → Prop
  | untouched : Fits d u none none ⟨none, none, none, false⟩
  | hidden (i : v.Inst) (h : d.shown u = false) : Fits d u (some i) none ⟨none, none, none, true⟩
  | offered (i : v.Inst) (h : d.shown u = true) :
      Fits d u (some i) none ⟨none, none, some (d.expose i), true⟩
  | produced (i : v.Inst) (h : d.shown u = true) :
      Fits d u (some i) none ⟨none, some i, none, true⟩
  | made (i : v.Inst) : Fits d u none (some i) ⟨some i, none, none, false⟩

namespace Fits

variable {d : Blueprint V v} {u : V} {o m : Option v.Inst} {a : View v.Inst (v.Closure .producer)}

theorem final_eq (h : d.Fits u o m a) : a.final = m := by
  cases h <;> rfl

theorem marked_eq (h : d.Fits u o m a) : a.marked = o.isSome := by
  cases h <;> rfl

theorem eq_untouched (h : d.Fits u none none a) : a = ⟨none, none, none, false⟩ := by
  cases h
  rfl

theorem made_eq_none {i : v.Inst} (h : d.Fits u (some i) m a) : m = none := by
  cases h <;> rfl

/-- An open component that is hidden has nothing staged. -/
theorem eq_of_hidden {i : v.Inst} (h : d.Fits u (some i) m a) (hu : ¬ d.shown u = true) :
    a = ⟨none, none, none, true⟩ := by
  cases h with
  | hidden => rfl
  | offered _ hs => exact absurd hs hu
  | produced _ hs => exact absurd hs hu

/-- An open component that is shown has its producer or its early instance staged. -/
theorem eq_of_shown {i : v.Inst} (h : d.Fits u (some i) m a) (hu : d.shown u = true) :
    a = ⟨none, none, some (d.expose i), true⟩ ∨ a = ⟨none, some i, none, true⟩ := by
  cases h with
  | hidden _ hs => exact absurd (hu.symm.trans hs) (by simp)
  | offered => exact .inl rfl
  | produced => exact .inr rfl

end Fits

/-- The registry is in the middle of building components: those of `opened` are open, those of
`made` are made, and nothing is known about the others. -/
structure Agrees (d : Blueprint V v) (opened made : V → Option v.Inst) (r : v.Registry) : Prop where
  fits : ∀ u, d.Fits u (opened u) (made u) (r.view (d.name u))
  included : ∀ u, r.marks.isExcluded (d.name u) = false
  circular : r.options.circular = true
  calm : r.tearingDown = false

namespace Agrees

variable {d : Blueprint V v} {opened opened' made made' : V → Option v.Inst} {r r' : v.Registry}
  {p : V}

/-- A change at the name of one component. -/
theorem change (h : d.Agrees opened made r) (hoff : r.SameOff {d.name p} r')
    (hp : d.Fits p (opened' p) (made' p) (r'.view (d.name p)))
    (ho : ∀ u, u ≠ p → opened' u = opened u) (hm : ∀ u, u ≠ p → made' u = made u) :
    d.Agrees opened' made' r' := by
  refine ⟨fun u => ?_, fun u => ?_, ?_, ?_⟩
  · by_cases hup : u = p
    · exact hup ▸ hp
    · have hne : d.name u ∉ ({d.name p} : Set String) := fun hu => hup (d.name_injective hu)
      rw [hoff.view _ hne, ho u hup, hm u hup]
      exact h.fits u
  · rw [Marks.isExcluded, hoff.excluded]
    exact h.included u
  · rw [hoff.options]
    exact h.circular
  · rw [hoff.tearingDown]
    exact h.calm

theorem fits_of_opened (h : d.Agrees opened made r) {i : v.Inst} (hp : opened p = some i) :
    d.Fits p (some i) (made p) (r.view (d.name p)) :=
  hp ▸ h.fits p

theorem made_eq_none (h : d.Agrees opened made r) {i : v.Inst} (hp : opened p = some i) :
    made p = none :=
  (h.fits_of_opened hp).made_eq_none

/-- Nothing is known about a component that is neither open nor made. -/
theorem view_eq_untouched (h : d.Agrees opened made r) (ho : opened p = none) (hm : made p = none) :
    r.view (d.name p) = ⟨none, none, none, false⟩ := by
  have hfits := h.fits p
  rw [ho, hm] at hfits
  exact hfits.eq_untouched

/-- Where nothing is open, nothing is staged. -/
theorem isStaged_eq_false (h : d.Agrees (fun _ => none) made r) (u : V) :
    r.store.isStaged (d.name u) = false := by
  have hfits := h.fits u
  generalize made u = m at hfits
  generalize hview : r.view (d.name u) = a at hfits
  cases hfits with
  | untouched =>
    obtain ⟨-, hearly, hproducer, -⟩ := Registry.view_eq_iff.mp hview
    exact Store.isStaged_eq_false_iff.mpr ⟨hearly, hproducer⟩
  | made i =>
    obtain ⟨-, hearly, hproducer, -⟩ := Registry.view_eq_iff.mp hview
    exact Store.isStaged_eq_false_iff.mpr ⟨hearly, hproducer⟩

theorem final?_eq (h : d.Agrees opened made r) (u : V) : r.store.final? (d.name u) = made u :=
  (h.fits u).final_eq

theorem isMarked_eq (h : d.Agrees opened made r) (u : V) :
    r.marks.isMarked (d.name u) = (opened u).isSome :=
  (h.fits u).marked_eq

end Agrees

/-- The registry allows circular references, it is not being torn down, and nothing is known about
any component: none is final, staged, in creation or excluded. -/
structure Untouched (d : Blueprint V v) (r : v.Registry) : Prop where
  circular : r.options.circular = true
  calm : r.tearingDown = false
  notFinal : ∀ u, r.store.isFinal (d.name u) = false
  unstaged : ∀ u, r.store.isStaged (d.name u) = false
  notInCreation : ∀ u, r.marks.isInCreation (d.name u) = false
  included : ∀ u, r.marks.isExcluded (d.name u) = false

theorem Untouched.agrees {d : Blueprint V v} {r : v.Registry} (h : d.Untouched r) :
    d.Agrees (fun _ => none) (fun _ => none) r := by
  refine ⟨fun u => ?_, h.included, h.circular, h.calm⟩
  have hfinal : r.store.final? (d.name u) = none := Store.isFinal_eq_false_iff.mp (h.notFinal u)
  obtain ⟨hearly, hproducer⟩ := Store.isStaged_eq_false_iff.mp (h.unstaged u)
  have hmarked : r.marks.isMarked (d.name u) = false := by
    simpa [Marks.isInCreation, h.included u] using h.notInCreation u
  rw [Registry.view_eq_iff.mpr ⟨hfinal, hearly, hproducer, hmarked⟩]
  exact .untouched

end Blueprint

end Wiring
