import Mathlib.Data.List.Permutation
import Mathlib.Tactic.Set
import Wiring.Proofs.Assembly.Blueprint
import Wiring.Proofs.Assembly.Requests
import Wiring.Proofs.Sample

/-!
# Resolving a graph of components

A request for a component whose construct resolves its peers, theirs resolving their own in turn,
comes to exactly what the tour of the graph comes to: the same components are begun in the same
order, those that are made become final with their own instances, and if the tour is blocked, all
builds that are open fail with the cycle at which it was, and leave nothing behind.

## Main definitions

* `Wiring.Blueprint.Serves` — a request was answered with the instance of a component.
* `Wiring.Blueprint.Realized` — a run has done what a tour has done.

## Main results

* `Wiring.Blueprint.realizedInside_explore` — resolving peers realizes the tour of them.
* `Wiring.Blueprint.create_realizes_tour` — a request for a component realizes the tour from it.
-/

namespace Wiring

namespace Blueprint

variable {V : Type} {v : Vocabulary} {d : Blueprint V v} {app : Application v}
  {opened made : V → Option v.Inst} {s : State v} {p : V}

/-! ### What a run has done -/

/-- The components whose constructs are begun, among what a run shows. -/
def constructsBegun (l : List (Occurrence v)) : List String :=
  l.filterMap fun
    | .constructBegun n => some n
    | .hookBegun _ | .created .. | .found .. | .answered .. => none

theorem constructsBegun_append (l l' : List (Occurrence v)) :
    constructsBegun (l ++ l') = constructsBegun l ++ constructsBegun l' :=
  List.filterMap_append

/-- If the occurrence hands out an instance, it is that of a component that is open or made, and no
request for a component fails. -/
def Serves (d : Blueprint V v) (opened made : V → Option v.Inst) : Occurrence v → Prop
  | .found n (some i) | .created n (.ok i) =>
    ∃ u, n = d.name u ∧ (opened u = some i ∨ made u = some i)
  | .created _ (.error _) => False
  | .found _ none | .constructBegun _ | .hookBegun _ | .answered .. => True

theorem Serves.mono {opened' made' : V → Option v.Inst} {o : Occurrence v}
    (h : d.Serves opened made o)
    (hm : ∀ u i, opened u = some i ∨ made u = some i → opened' u = some i ∨ made' u = some i) :
    d.Serves opened' made' o := by
  cases o with
  | found n r =>
    cases r with
    | none => trivial
    | some i =>
      obtain ⟨u, hu, hi⟩ := h
      exact ⟨u, hu, hm u i hi⟩
  | created n r =>
    cases r with
    | error e => exact h
    | ok i =>
      obtain ⟨u, hu, hi⟩ := h
      exact ⟨u, hu, hm u i hi⟩
  | _ => trivial

/-- A run from `s` to `s'` that shows `l` has done what the tour `t` has done, from the inside of
the open components. -/
structure Realized (d : Blueprint V v) (opened : V → Option v.Inst) (t : Tour V v.Inst v.World)
    (l : List (Occurrence v)) (s s' : State v) : Prop where
  agrees : d.Agrees opened t.made s'.registry
  off : s.registry.SameOff (Set.range d.name) s'.registry
  suppressed : s'.registry.suppressed = s.registry.suppressed
  world : s'.world = t.world
  begun : constructsBegun l = t.begun.map d.name
  served : t.blocked = none → ∀ o ∈ l, d.Serves opened t.made o

/-- Runs one after the other do what a longer tour does. -/
theorem Realized.append {t t' : Tour V v.Inst v.World} {l l' : List (Occurrence v)}
    {s₁ s₂ s₃ : State v} (h : d.Realized opened t l s₁ s₂) (h' : d.Realized opened t' l' s₂ s₃)
    (ht : t.blocked = none) (hm : ∀ u i, t.made u = some i → t'.made u = some i) :
    d.Realized opened { t' with begun := t.begun ++ t'.begun } (l ++ l') s₁ s₃ := by
  refine ⟨h'.agrees, h.off.trans h'.off, h'.suppressed.trans h.suppressed, h'.world, ?_, ?_⟩
  · rw [constructsBegun_append, h.begun, h'.begun, List.map_append]
  · intro ht' o ho
    rcases List.mem_append.mp ho with ho | ho
    · exact (h.served ht o ho).mono fun u i hi => hi.imp_right (hm u i)
    · exact h'.served ht' o ho

/-- What the request for a component is answered with after a tour from its inside: the instance, or
the cycle at which the tour was blocked. -/
def answer (d : Blueprint V v) (own : v.Inst) (t : Tour V v.Inst v.World) : Except Error v.Inst :=
  match t.blocked with
  | none => .ok own
  | some b => .error (.cycle (d.name b))

/-- Wherever peers are resolved from the inside of the open components, that does what the tour `t`
does. -/
def RealizedInside (d : Blueprint V v) (app : Application v) (opened made : V → Option v.Inst)
    (w : v.World) (own : v.Inst) (ps : List V) (t : Tour V v.Inst v.World) : Prop :=
  ∀ (s : State v) (stack : Stack v .construct), d.Agrees opened made s.registry → s.world = w →
    ∃ l s', Leads app (s, .exec (g := .construct) (d.needPeers own ps) stack) l
        (s', .exec (g := .construct) (.done (d.answer own t)) stack) ∧ d.Realized opened t l s s'

theorem off_range {r r' : v.Registry} (h : r.SameOff {d.name p} r') :
    r.SameOff (Set.range d.name) r' :=
  h.mono (Set.singleton_subset_iff.mpr ⟨p, rfl⟩)

/-! ### Resolving one peer -/

section Resolve

variable (app) {g : Goal} (stack : Stack v g)
  (next : Except Error v.Inst → Code v (g.Result v.Inst))

theorem exists_leads_resolve_made (hs : d.Agrees opened made s.registry) {i : v.Inst}
    (hp : made p = some i) :
    ∃ l, Leads app (s, .exec ((Code.resolve (d.name p) (d.build p)).bind next) stack) l
        (s, .exec (next (.ok i)) stack) ∧
      d.Realized opened ⟨made, s.world, [], none⟩ l s s := by
  have hf : s.registry.store.final? (d.name p) = some i := (hs.final?_eq p).trans hp
  refine ⟨_, .resolve_final hf, hs, .refl _ _, rfl, rfl, rfl, fun _ o ho => ?_⟩
  rw [List.mem_singleton.mp ho]
  exact ⟨p, rfl, .inr hp⟩

variable {app} in
/-- An open peer that is shown is resolved to its early instance. -/
theorem exists_leads_resolve_shown (hd : d.Describes app) (hs : d.Agrees opened made s.registry)
    {i : v.Inst} (hp : opened p = some i) (hshown : d.shown p = true) :
    ∃ l s', Leads app (s, .exec ((Code.resolve (d.name p) (d.build p)).bind next) stack) l
        (s', .exec (next (.ok i)) stack) ∧
      d.Realized opened ⟨made, s.world, [], none⟩ l s s' := by
  have hserves : ∀ o ∈ [.found (d.name p) (some i)], d.Serves opened made o := by
    intro o ho
    rw [List.mem_singleton.mp ho]
    exact ⟨p, rfl, .inl hp⟩
  rcases (hs.fits_of_opened hp).eq_of_shown hshown with hview | hview
  · -- the producer is still there: it is run now, and the instance is memoized
    obtain ⟨hfinal, hearly, hproducer, hmarked⟩ := Registry.view_eq_iff.mp hview
    obtain ⟨s', hrun, hv, hoff, hsup, hw⟩ := Leads.resolve_producer app stack (d.build p) next
      (hd.expose i) hs.circular hfinal hmarked hearly hproducer
    have hs' : d.Agrees opened made s'.registry := by
      refine hs.change hoff ?_ (fun _ _ => rfl) fun _ _ => rfl
      rw [hp, hs.made_eq_none hp, hv, hview]
      exact .produced i hshown
    exact ⟨_, s', hrun, hs', off_range hoff, hsup, hw, rfl, fun _ => hserves⟩
  · obtain ⟨hfinal, hearly, -, hmarked⟩ := Registry.view_eq_iff.mp hview
    obtain ⟨s', hrun, hr, hw⟩ :=
      Leads.resolve_early app stack (d.build p) next hs.circular hfinal hmarked hearly
    exact ⟨_, s', hrun, hr ▸ hs, hr ▸ .refl _ _, by rw [hr], hw, rfl, fun _ => hserves⟩

/-- An open peer that is hidden cannot be resolved. -/
theorem exists_leads_resolve_hidden (hs : d.Agrees opened made s.registry) {i : v.Inst}
    (hp : opened p = some i) (hhidden : ¬ d.shown p = true) :
    ∃ l s', Leads app (s, .exec ((Code.resolve (d.name p) (d.build p)).bind next) stack) l
        (s', .exec (next (.error (.cycle (d.name p)))) stack) ∧
      d.Realized opened ⟨made, s.world, [], some p⟩ l s s' := by
  obtain ⟨hfinal, hearly, hproducer, hmarked⟩ :=
    Registry.view_eq_iff.mp ((hs.fits_of_opened hp).eq_of_hidden hhidden)
  obtain ⟨s', hrun, hr, hw⟩ := Leads.resolve_cycle app stack (d.build p) next (d.name_ne_empty p)
    hfinal hs.calm hmarked (hs.included p) hearly hproducer
  exact ⟨_, s', hrun, hr ▸ hs, hr ▸ .refl _ _, by rw [hr], hw, rfl, by simp⟩

end Resolve

/-! ### Building one component -/

section Build

variable [DecidableEq V] {g : Goal} (stack : Stack v g)
  (next : Except Error v.Inst → Code v (g.Result v.Inst))

/-- The component `p` is begun: its instance is allocated, and published if it is shown. -/
theorem exists_leads_construct (hd : d.Describes app) (hs : d.Agrees opened made s.registry)
    (ho : opened p = none) (hm : made p = none) :
    ∃ l s', Leads app (s, .exec (.create (d.name p) (d.build p) next) stack) l
        (s', .exec (g := .construct) (d.needPeers (d.allocate p s.world).1 (d.peers p))
          (.building (d.name p) s.registry.suppressed.isNone next stack)) ∧
      d.Agrees (Function.update opened p (some (d.allocate p s.world).1)) made s'.registry ∧
      s.registry.SameOff (Set.range d.name) s'.registry ∧
      s'.registry.suppressed = some (s.registry.suppressed.getD []) ∧
      s'.world = (d.allocate p s.world).2 ∧ constructsBegun l = [d.name p] ∧
      ∀ m, ∀ o ∈ l, d.Serves opened m o := by
  have hview := hs.view_eq_untouched ho hm
  obtain ⟨hfinal, -, -, hmarked⟩ := Registry.view_eq_iff.mp hview
  obtain ⟨s₁, hrun, hv₁, hoff₁, hsup₁, hw₁⟩ := Leads.create_begun app stack (d.build p) next
    (d.name_ne_empty p) hfinal hs.calm hmarked (hs.included p)
  rw [hview] at hv₁
  rw [hd.build] at hrun
  let own := (d.allocate p s.world).1
  let frame : Stack v .construct := .building (d.name p) s.registry.suppressed.isNone next stack
  let s₂ : State v := { s₁ with world := (d.allocate p s₁.world).2 }
  by_cases hshown : d.shown p = true
  · -- the instance is published before the peers are resolved
    have hv₂ : s₂.registry.view (d.name p) = ⟨none, none, none, true⟩ := hv₁
    obtain ⟨hf₂, -, -, hm₂⟩ := Registry.view_eq_iff.mp hv₂
    have hc₂ : s₂.registry.options.circular = true := hoff₁.options ▸ hs.circular
    obtain ⟨hv₃, hoff₃, hsup₃⟩ := Registry.view_publish (p := d.expose own) hc₂ hm₂ hf₂
    let a := Request.answer s₂.registry (.publish (d.name p) (d.expose own))
    have haccess : Leads app (s₁, .exec (g := .construct) (d.construct p) frame) []
        (s₂, .exec (g := .construct) (.call (.publish (d.name p) (d.expose own)) fun _ =>
          d.needPeers own (d.peers p)) frame) := by
      refine Leads.single ?_ rfl
      simp [Thread.step, construct, execStep, hshown, s₂, own, hw₁]
    have hpublish : Leads app (s₂, .exec (g := .construct)
        (.call (.publish (d.name p) (d.expose own)) fun _ => d.needPeers own (d.peers p)) frame)
        [.answered (.publish (d.name p) (d.expose own)) a.reply]
        (s₂.after frame.depth a, .exec (g := .construct) (d.needPeers own (d.peers p)) frame) :=
      Leads.single rfl rfl
    have hreg : (s₂.after frame.depth a).registry = a.registry := s₂.registry_after ..
    have hoff : s.registry.SameOff {d.name p} a.registry := hoff₁.trans hoff₃
    refine ⟨_, s₂.after frame.depth a, hrun.trans (haccess.trans hpublish), ?_, ?_, ?_, ?_, rfl, ?_⟩
    · rw [hreg]
      refine hs.change hoff ?_ (fun u hu => Function.update_of_ne hu ..) fun _ _ => rfl
      rw [Function.update_self, hm]
      exact hv₃ ▸ .offered own hshown
    · rw [hreg]
      exact off_range hoff
    · rw [hreg]
      exact hsup₃.trans hsup₁
    · rw [State.world_after, ← hw₁]
    · intro m o hmem
      obtain rfl | rfl : o = .constructBegun (d.name p) ∨
          o = .answered (.publish (d.name p) (d.expose own)) a.reply := by simpa using hmem
      · trivial
      · trivial
  · have haccess : Leads app (s₁, .exec (g := .construct) (d.construct p) frame) []
        (s₂, .exec (g := .construct) (d.needPeers own (d.peers p)) frame) := by
      refine Leads.single ?_ rfl
      simp [Thread.step, construct, execStep, hshown, s₂, own, hw₁]
    refine ⟨_, s₂, hrun.trans haccess, ?_, off_range hoff₁, hsup₁, ?_, rfl, ?_⟩
    · refine hs.change hoff₁ ?_ (fun u hu => Function.update_of_ne hu ..) fun _ _ => rfl
      rw [Function.update_self, hm, hv₁]
      exact .hidden own (by simpa using hshown)
    · exact congrArg (fun w => (d.allocate p w).2) hw₁
    · intro m o hmem
      obtain rfl : o = .constructBegun (d.name p) := by simpa using hmem
      trivial

/-- When the peers of `p` have been seen to, it is made with its instance `own`, or fails. -/
theorem exists_leads_settle {own : v.Inst} {inner : Tour V v.Inst v.World} (ho : opened p = none)
    (hs : d.Agrees (Function.update opened p (some own)) inner.made s.registry) (outermost : Bool) :
    ∃ s', Leads app (s, .exec (g := .construct) (.done (d.answer own inner))
          (.building (d.name p) outermost next stack))
        [.created (d.name p) (d.answer own inner)] (s', .exec (next (d.answer own inner)) stack) ∧
      d.Agrees opened (if inner.blocked = none then Function.update inner.made p (some own)
        else inner.made) s'.registry ∧
      s.registry.SameOff (Set.range d.name) s'.registry ∧
      s'.registry.suppressed = (if outermost then none else s.registry.suppressed) ∧
      s'.world = s.world := by
  have hmarked : s.registry.marks.isMarked (d.name p) = true := by simp [hs.isMarked_eq p]
  have hmade : inner.made p = none := hs.made_eq_none (Function.update_self ..)
  have hfinal : s.registry.store.final? (d.name p) = none := (hs.final?_eq p).trans hmade
  have hback (u : V) (hu : u ≠ p) : opened u = Function.update opened p (some own) u :=
    (Function.update_of_ne hu ..).symm
  obtain ⟨s', hrun, hr, hw⟩ :=
    Leads.settle_build app s (d.name p) stack next outermost (d.answer own inner)
  cases hb : inner.blocked with
  | none =>
    have hanswer : d.answer own inner = .ok own := by simp [answer, hb]
    obtain ⟨hreply, hview, hoff, hsup⟩ :=
      Registry.view_settle_ok (i := own) outermost hmarked (hs.included p) hfinal
    rw [hanswer] at hrun hr ⊢
    rw [hreply] at hrun
    rw [← hr] at hview hoff hsup
    refine ⟨s', hrun, ?_, off_range hoff, hsup, hw⟩
    rw [if_pos rfl]
    refine hs.change hoff ?_ hback fun u hu => Function.update_of_ne hu ..
    rw [ho, Function.update_self, hview]
    exact .made own
  | some b =>
    have hanswer : d.answer own inner = .error (.cycle (d.name b)) := by simp [answer, hb]
    obtain ⟨hreply, hview, hoff, hsup⟩ :=
      Registry.view_settle_cycle (b := d.name b) outermost hmarked (hs.included p) hfinal
    rw [hanswer] at hrun hr ⊢
    rw [hreply] at hrun
    rw [← hr] at hview hoff hsup
    refine ⟨s', hrun, ?_, off_range hoff, hsup, hw⟩
    rw [if_neg (Option.some_ne_none b)]
    refine hs.change hoff ?_ hback fun _ _ => rfl
    rw [ho, hmade, hview]
    exact .untouched

/-- Building `p` does what a tour from its inside does, if resolving its peers does, and makes it
unless that tour is blocked. -/
theorem exists_leads_create (hd : d.Describes app) (hs : d.Agrees opened made s.registry)
    (ho : opened p = none) (hm : made p = none) {own : v.Inst}
    (hown : own = (d.allocate p s.world).1) {inner : Tour V v.Inst v.World}
    (hinner : d.RealizedInside app (Function.update opened p (some own)) made
      (d.allocate p s.world).2 own (d.peers p) inner) :
    ∃ l s', Leads app (s, .exec (.create (d.name p) (d.build p) next) stack) l
        (s', .exec (next (d.answer own inner)) stack) ∧
      d.Realized opened ⟨if inner.blocked = none then Function.update inner.made p (some own)
        else inner.made, inner.world, p :: inner.begun, inner.blocked⟩ l s s' := by
  subst hown
  set own := (d.allocate p s.world).1
  obtain ⟨l₁, s₁, hrun₁, hs₁, hoff₁, hsup₁, hw₁, hbegun₁, hserved₁⟩ :=
    exists_leads_construct stack next hd hs ho hm
  obtain ⟨l₂, s₂, hrun₂, h₂⟩ := hinner s₁ _ hs₁ hw₁
  obtain ⟨s₃, hrun₃, hs₃, hoff₃, hsup₃, hw₃⟩ := exists_leads_settle stack next ho h₂.agrees _
  refine ⟨_, s₃, hrun₁.trans (hrun₂.trans hrun₃), hs₃, hoff₁.trans (h₂.off.trans hoff₃),
    ?suppressed,
    hw₃.trans h₂.world, ?begun, ?served⟩
  case suppressed =>
    rw [hsup₃, h₂.suppressed, hsup₁]
    cases s.registry.suppressed <;> rfl
  case begun =>
    rw [constructsBegun_append, constructsBegun_append, hbegun₁, h₂.begun]
    simp [constructsBegun]
  case served =>
    intro hb o hmem
    have hb' : inner.blocked = none := hb
    have hmade : inner.made p = none := h₂.agrees.made_eq_none (Function.update_self ..)
    rw [if_pos hb']
    rcases List.mem_append.mp hmem with hmem | hmem
    · exact hserved₁ _ o hmem
    rcases List.mem_append.mp hmem with hmem | hmem
    · -- what was handed out on the inside: the instance of `p` itself, or another one
      refine (h₂.served hb' o hmem).mono fun u i hi => ?_
      by_cases hup : u = p
      · subst hup
        rw [Function.update_self, hmade] at hi
        exact .inr ((Function.update_self ..).trans (hi.resolve_right (by simp)))
      · rw [Function.update_of_ne hup] at hi
        exact hi.imp_right fun hi => (Function.update_of_ne hup ..).trans hi
    · rw [List.mem_singleton.mp hmem, answer, hb']
      exact ⟨p, rfl, .inr (Function.update_self ..)⟩

/-- Resolving `p` comes to building it, if it is neither open nor made. -/
theorem exists_leads_resolve_untouched (hd : d.Describes app)
    (hs : d.Agrees opened made s.registry) (ho : opened p = none) (hm : made p = none)
    {own : v.Inst} (hown : own = (d.allocate p s.world).1) {inner : Tour V v.Inst v.World}
    (hinner : d.RealizedInside app (Function.update opened p (some own)) made
      (d.allocate p s.world).2 own (d.peers p) inner) :
    ∃ l s', Leads app (s, .exec ((Code.resolve (d.name p) (d.build p)).bind next) stack) l
        (s', .exec (next (d.answer own inner)) stack) ∧
      d.Realized opened ⟨if inner.blocked = none then Function.update inner.made p (some own)
        else inner.made, inner.world, p :: inner.begun, inner.blocked⟩ l s s' := by
  obtain ⟨hfinal, -, -, hmarked⟩ := Registry.view_eq_iff.mp (hs.view_eq_untouched ho hm)
  obtain ⟨l, s', hrun, h⟩ := exists_leads_create stack next hd hs ho hm hown hinner
  refine ⟨_, s', (Leads.resolve_unmarked app stack (d.build p) next hfinal hmarked).trans hrun,
    h.agrees, h.off, h.suppressed, h.world, h.begun, fun hb => ?_⟩
  exact List.forall_mem_cons.mpr ⟨trivial, h.served hb⟩

end Build

/-! ### Resolving peers -/

variable [DecidableEq V] [Fintype V]

/-- Resolving peers from the inside of the open components does what the tour of the peers does. -/
theorem realizedInside_explore (hd : d.Describes app) (own : v.Inst) (w : v.World) (ps : List V) :
    d.RealizedInside app opened made w own ps (d.explore opened made w ps) := by
  fun_induction Plan.explore d.toPlan opened made w ps generalizing own with
  | case1 opened made w =>
    intro s stack hs hw
    exact ⟨[], s, .refl _, hs, .refl _ _, rfl, hw, rfl, by simp⟩
  | case2 opened made w p ps i hp ih =>
    rintro s stack hs rfl
    obtain ⟨l, hrun, hstep⟩ :=
      exists_leads_resolve_made app stack (unlessError (d.needPeers own ps)) hs hp
    obtain ⟨l', s', hrun', hrest⟩ := ih own s stack hs rfl
    have hmono u i (h : made u = some i) : (d.explore opened made s.world ps).made u = some i :=
      Plan.made_explore_of_made h
    exact ⟨_, s', hrun.trans hrun', hstep.append hrest rfl hmono⟩
  | case3 opened made w p ps hp i ho hshown ih =>
    rintro s stack hs rfl
    obtain ⟨l, s₁, hrun, hstep⟩ :=
      exists_leads_resolve_shown stack (unlessError (d.needPeers own ps)) hd hs ho hshown
    obtain ⟨l', s', hrun', hrest⟩ := ih own s₁ stack hstep.agrees hstep.world
    have hmono u i (h : made u = some i) : (d.explore opened made s.world ps).made u = some i :=
      Plan.made_explore_of_made h
    exact ⟨_, s', hrun.trans hrun', hstep.append hrest rfl hmono⟩
  | case4 opened made w p ps hp i ho hhidden =>
    rintro s stack hs rfl
    obtain ⟨l, s', hrun, hstep⟩ :=
      exists_leads_resolve_hidden app stack (unlessError (d.needPeers own ps)) hs ho hhidden
    exact ⟨l, s', hrun, hstep⟩
  | case5 opened made w p ps hp ho i inner b hb ih =>
    rintro s stack hs rfl
    obtain ⟨l, s', hrun, hstep⟩ :=
      exists_leads_resolve_untouched stack (unlessError (d.needPeers own ps)) hd hs ho hp rfl
        (ih i)
    have hanswer : d.answer i inner = .error (.cycle (d.name b)) := by rw [answer, hb]
    rw [hanswer] at hrun
    have hblocked : inner.blocked ≠ none := by
      rw [hb]
      exact Option.some_ne_none b
    rw [if_neg hblocked, hb] at hstep
    exact ⟨l, s', hrun, hstep⟩
  | case6 opened made w p ps hp ho i inner hb rest ih _ ih' =>
    rintro s stack hs rfl
    obtain ⟨l, s₁, hrun, hstep⟩ :=
      exists_leads_resolve_untouched stack (unlessError (d.needPeers own ps)) hd hs ho hp rfl
        (ih i)
    have hanswer : d.answer i inner = .ok i := by rw [answer, hb]
    rw [hanswer] at hrun
    rw [if_pos hb, hb] at hstep
    obtain ⟨l', s', hrun', hrest⟩ := ih' own s₁ stack hstep.agrees hstep.world
    have hmono u j (h : Function.update inner.made p (some i) u = some j) : rest.made u = some j :=
      Plan.made_explore_of_made h
    exact ⟨_, s', hrun.trans hrun', hstep.append hrest rfl hmono⟩

/-- **Resolving a graph.** The construct of every component allocates its instance, publishes it if
it is shown, and resolves the peers in order. Where nothing is known about the components, a request
for `root`, made by any code, comes to what the tour from `root` comes to.

* It is answered with the instance of `root` if the tour is not blocked, and else with the cycle at
  the component that blocked it.
* Exactly what the tour has made is final afterwards, with the instances of the tour, and no
  component is staged or in creation; what the registry holds otherwise is as it was.
* Constructs are begun in the order of the tour, none of them twice, and what is final is what the
  only run of its construct has allocated.
* If the tour is not blocked, exactly the components that can be reached from `root` are begun and
  made; then no request on the way failed, and whatever was handed out on the way is final. -/
theorem create_realizes_tour (d : Blueprint V v) (app : Application v) (hd : d.Describes app)
    (s : State v) (hs : d.Untouched s.registry) (root : V) {g : Goal}
    (next : Except Error v.Inst → Code v (g.Result v.Inst)) (stack : Stack v g) :
    ∃ l s' r, Leads app (s, .exec (.create (d.name root) (d.build root) next) stack) l
        (s', .exec (next r) stack) ∧
      ((d.tour s.world root).blocked = none →
        ∃ i, (d.tour s.world root).made root = some i ∧ r = .ok i) ∧
      (∀ b, (d.tour s.world root).blocked = some b → r = .error (.cycle (d.name b))) ∧
      (∀ u, s'.registry.store.final? (d.name u) = (d.tour s.world root).made u ∧
        s'.registry.store.isStaged (d.name u) = false ∧
        s'.registry.marks.isMarked (d.name u) = false) ∧
      s.registry.SameOff (Set.range d.name) s'.registry ∧
      s'.registry.suppressed = s.registry.suppressed ∧
      s'.world = (d.tour s.world root).world ∧
      constructsBegun l = (d.tour s.world root).begun.map d.name ∧ (constructsBegun l).Nodup ∧
      (∀ u i, (d.tour s.world root).made u = some i →
        u ∈ (d.tour s.world root).begun ∧ ∃ w, i = (d.allocate u w).1) ∧
      ((d.tour s.world root).blocked = none →
        (∀ u, u ∈ (d.tour s.world root).begun ↔ Relation.ReflTransGen d.Needs root u) ∧
        (∀ u, (d.tour s.world root).made u ≠ none ↔ Relation.ReflTransGen d.Needs root u) ∧
        (∀ n e, .created n (.error e) ∉ l) ∧
        ∀ n i, .found n (some i) ∈ l ∨ .created n (.ok i) ∈ l →
          s'.registry.store.final? n = some i) := by
  have hinside : d.RealizedInside app
      (Function.update (fun _ => none) root (some (d.allocate root s.world).1)) (fun _ => none)
      (d.allocate root s.world).2 (d.allocate root s.world).1 (d.peers root)
      (d.inside s.world root) :=
    realizedInside_explore hd _ _ _
  obtain ⟨l, s', hrun, h⟩ := exists_leads_create stack next hd hs.agrees rfl rfl rfl hinside
  rw [← Plan.tour_eq] at h
  have hblocked : (d.tour s.world root).blocked = (d.inside s.world root).blocked :=
    Plan.blocked_tour ..
  refine ⟨l, s', _, hrun, fun hb => ?unblocked, fun b hb => ?blocked, fun u => ?held, h.off,
    h.suppressed, h.world, h.begun, ?nodup, fun u i hi => ?own, fun hb => ?reached⟩
  case unblocked =>
    refine ⟨_, Plan.made_tour_self hb, ?_⟩
    rw [answer, ← hblocked, hb]
  case blocked =>
    rw [answer, ← hblocked, hb]
  case held =>
    exact ⟨h.agrees.final?_eq u, h.agrees.isStaged_eq_false u, h.agrees.isMarked_eq u⟩
  case nodup =>
    rw [h.begun]
    exact Plan.begun_nodup_explore.map d.name_injective
  case own =>
    have hmade : (d.tour s.world root).made u ≠ none := by
      rw [hi]
      exact Option.some_ne_none i
    exact ⟨Plan.mem_begun_of_made hmade rfl, Plan.allocated_of_made hi rfl⟩
  case reached =>
    refine ⟨fun u => Plan.mem_begun_tour_iff hb, fun u => Plan.made_tour_iff hb,
      fun n e hmem => h.served hb _ hmem, fun n i hmem => ?_⟩
    obtain ⟨u, rfl, hu⟩ : ∃ u, n = d.name u ∧
        (none = some i ∨ (d.tour s.world root).made u = some i) :=
      hmem.elim (h.served hb _) (h.served hb _)
    exact (h.agrees.final?_eq u).trans (hu.resolve_left (by simp))

end Blueprint

/-! ### Two components that need each other -/

namespace Sample

/-- Instances and memory are numbers, and the constructs are those of a pair of components. -/
def pairVocabulary : Vocabulary where
  Inst := Nat
  World := Nat
  Note := Empty
  Closure
    | .construct => Bool
    | .producer => Nat
    | .main | .hook | .block => Empty
  typeOf _ := "number"
  decEq := inferInstanceAs (DecidableEq Nat)

/-- Two components that need each other. The first one is shown early. -/
def pair : Blueprint Bool pairVocabulary where
  peers u := [!u]
  shown u := u
  allocate _ k := (k, Nat.succ k)
  name u := if u then "a" else "b"
  build u := u
  expose i := i
  name_injective := by decide
  name_ne_empty := by decide

def pairApplication : Application pairVocabulary where
  body {g} c :=
    match g, c with
    | .construct, u => pair.construct u
    | .producer, i => .done i

theorem describes_pair : pair.Describes pairApplication := ⟨fun _ => rfl, fun _ => rfl⟩

/-- The pair before anything was asked for. -/
def pairStart : State pairVocabulary := .start .default (0 : Nat)

theorem untouched_pair : pair.Untouched pairStart.registry :=
  ⟨rfl, rfl, by decide, by decide, by decide, by decide⟩

theorem create_realizes_tour_pair :
    pair.Describes pairApplication ∧ pair.Untouched pairStart.registry ∧
      ∃ l s', Leads pairApplication (pairStart, .start (.create "a" true fun _ => .done ())) l
          (s', .start (.done ())) ∧
        Blueprint.constructsBegun l = ["a", "b"] ∧
        s'.registry.store.final? "a" = some (0 : Nat) ∧
        s'.registry.store.final? "b" = some (1 : Nat) := by
  obtain ⟨l, s', r, hrun, -, -, hheld, -, -, -, hbegun, -⟩ :=
    pair.create_realizes_tour pairApplication describes_pair pairStart untouched_pair true
      (g := .main) (fun _ => .done ()) .top
  have htour : (pair.tour (0 : Nat) true).begun = [true, false] := by cbv
  have ha : (pair.tour (0 : Nat) true).made true = some (0 : Nat) := by cbv
  have hb : (pair.tour (0 : Nat) true).made false = some (1 : Nat) := by cbv
  refine ⟨describes_pair, untouched_pair, l, s', hrun, ?_, (hheld true).1.trans ha,
    (hheld false).1.trans hb⟩
  rw [hbegun]
  exact congrArg (List.map pair.name) htour

/-- Nobody shows anything: the tour is blocked where it comes back to the first component. -/
example : (({ pair with shown := fun _ => false } : Blueprint Bool pairVocabulary).tour
    (0 : Nat) true).blocked = some true := by cbv

end Sample

end Wiring
