import Wiring.Proofs.Assembly.Requests
import Wiring.Proofs.Tiers.Change

/-!
# Code that comes to an end

What a piece of code ensures is told by how it is run from a registry and a memory: whatever waits
for it, it comes to an end after finitely many steps of a single thread, without a panic that leaves
it, and what it returns and leaves behind is as promised. There is one rule for every way in which
code is made; the transcript plays no part. A rule for a build asks of the construct what the end of
the build needs, so that nested builds are dealt with by induction on the code.

## Main definitions

* `Wiring.Answers` — a run gets to where the code that waits goes on, as promised.
* `Wiring.Ensures` — a piece of code comes to an end, as promised.

## Main results

* `Wiring.Ensures.bind`, `Wiring.Ensures.call`, `Wiring.Ensures.lookup`, `Wiring.Ensures.create` and
  the other rules.
* `Wiring.Ensures.run_start` — a program that comes to an end is finished, and has not panicked.
-/

namespace Wiring

variable {v : Vocabulary} {app : Application v}

/-- From `c`, the code that waits on `stack` goes on at some time with an answer, a registry and a
memory of which `Q` holds. -/
def Answers (app : Application v) (c : State v × Thread v) {α : Type} {g : Goal}
    (next : α → Code v (g.Result v.Inst)) (stack : Stack v g)
    (Q : α → v.Registry → v.World → Prop) : Prop :=
  ∃ a s l, Leads app c l (s, .exec (next a) stack) ∧ Q a s.registry s.world

/-- However the stack looks on which `code` is run from the registry `r` and the memory `w`, it
comes to an end, with an answer, a registry and a memory of which `Q` holds. -/
def Ensures (app : Application v) {α : Type} (code : Code v α) (r : v.Registry) (w : v.World)
    (Q : α → v.Registry → v.World → Prop) : Prop :=
  ∀ s : State v, s.registry = r → s.world = w →
    ∀ (g : Goal) (next : α → Code v (g.Result v.Inst)) (stack : Stack v g),
      Answers app (s, .exec (code.bind next) stack) next stack Q

namespace Answers

variable {α : Type} {g : Goal} {next : α → Code v (g.Result v.Inst)} {stack : Stack v g}
  {Q : α → v.Registry → v.World → Prop} {c c' : State v × Thread v} {l : List (Occurrence v)}

theorem head (h : Leads app c l c') (h' : Answers app c' next stack Q) :
    Answers app c next stack Q := by
  obtain ⟨a, s, l', hl', hQ⟩ := h'
  exact ⟨a, s, l ++ l', h.trans hl', hQ⟩

theorem step {s : State v} {t : Thread v} (h : Answers app (t.step app s) next stack Q) :
    Answers app (s, t) next stack Q :=
  head (.single rfl rfl) h

end Answers

namespace Ensures

variable {α β : Type} {r : v.Registry} {w : v.World} {Q Q' : α → v.Registry → v.World → Prop}
  {n : String}

/-! ### Sequences -/

theorem done {a : α} (h : Q a r w) : Ensures app (.done a) r w Q := by
  rintro s rfl rfl g next stack
  exact ⟨a, s, [], .refl _, h⟩

theorem mono {code : Code v α} (h : Ensures app code r w Q)
    (hQ : ∀ a r' w', Q a r' w' → Q' a r' w') : Ensures app code r w Q' := by
  intro s hr hw g next stack
  obtain ⟨a, s', l, hl, ha⟩ := h s hr hw g next stack
  exact ⟨a, s', l, hl, hQ _ _ _ ha⟩

theorem bind {P : β → v.Registry → v.World → Prop} {code : Code v β} {f : β → Code v α}
    (h : Ensures app code r w P) (hf : ∀ b r' w', P b r' w' → Ensures app (f b) r' w' Q) :
    Ensures app (code >>= f) r w Q := by
  intro s hr hw g next stack
  obtain ⟨b, s', l, hl, hb⟩ := h s hr hw g (fun b => (f b).bind next) stack
  rw [← Code.bind_assoc] at hl
  exact .head hl (hf _ _ _ hb s' rfl rfl g next stack)

/-! ### Actions that are over at once -/

theorem access {change : v.World → v.World} {next : v.World → Code v α}
    (h : Ensures app (next w) r (change w) Q) : Ensures app (.access change next) r w Q := by
  rintro s rfl rfl g k stack
  exact .step (h { s with world := change s.world } rfl rfl g k stack)

theorem call {q : Request v} {next : q.Reply → Code v α}
    (h : Ensures app (next (q.answer r).reply) (q.answer r).registry w Q) :
    Ensures app (.call q next) r w Q := by
  rintro s rfl rfl g k stack
  exact .step (h (s.after stack.depth (q.answer s.registry)) (s.registry_after ..)
    (s.world_after ..) g k stack)

theorem ask {q : Request v} {Q : q.Reply → v.Registry → v.World → Prop}
    (h : Q (q.answer r).reply (q.answer r).registry w) : Ensures app (.ask q) r w Q :=
  call (done h)

theorem ask_bind {q : Request v} {f : q.Reply → Code v α}
    (h : Ensures app (f (q.answer r).reply) (q.answer r).registry w Q) :
    Ensures app (.ask q >>= f) r w Q :=
  call h

theorem require {condition : Bool} {text : String} {Q : Unit → v.Registry → v.World → Prop}
    (hc : condition = true) (h : Q () r w) : Ensures app (.require condition text) r w Q := by
  subst hc
  exact done h

theorem require_bind {condition : Bool} {text : String} {f : Unit → Code v α}
    (hc : condition = true) (h : Ensures app (f ()) r w Q) :
    Ensures app (.require condition text >>= f) r w Q := by
  subst hc
  exact h

/-! ### Lookups -/

section Lookup

variable {early : Bool} {next : Option v.Inst → Code v α}

theorem lookup_final {i : v.Inst} (hf : r.store.final? n = some i)
    (h : Ensures app (next (some i)) r w Q) : Ensures app (.lookup n early next) r w Q := by
  rintro s rfl rfl g k stack
  exact .head (.lookup_final hf) (h s rfl rfl g k stack)

theorem lookup_unmarked (hf : r.store.final? n = none) (hm : r.marks.isMarked n = false)
    (h : Ensures app (next none) r w Q) : Ensures app (.lookup n early next) r w Q := by
  rintro s rfl rfl g k stack
  exact .head (.lookup_unmarked hf hm) (h s rfl rfl g k stack)

/-- If producers return at once, a lookup comes to an end, and leaves what is final as it is. -/
theorem lookup (hreturns : ∀ f : v.Closure .producer, ∃ i, app.body f = .done i)
    (h : ∀ x store, store.finals = r.store.finals →
      Ensures app (next x) { r with store := store } w Q) :
    Ensures app (.lookup n early next) r w Q := by
  have hsame (x : Option v.Inst) : Ensures app (next x) r w Q := h x r.store rfl
  cases hf : r.store.final? n with
  | some i => exact lookup_final hf (hsame _)
  | none =>
    cases hm : r.marks.isMarked n with
    | false => exact lookup_unmarked hf hm (hsame _)
    | true =>
      rintro s rfl rfl g k stack
      refine .head (.lookup_marked hf hm) (.step ?_)
      simp only [Thread.step, seekStep, hf]
      split
      · cases hs : s.registry.store.seek n with
        | nothing => exact hsame none s rfl rfl g k stack
        | early i => exact hsame (some i) (s.report ..) rfl rfl g k stack
        | pending f rest =>
          obtain ⟨i, hi⟩ := hreturns f
          obtain ⟨-, -, rfl⟩ := Store.seek_eq_pending hs
          simp only [hi]
          have hfinals : ((s.registry.store.fetch n).memoize n i).2.finals =
              s.registry.store.finals := by
            unfold Store.memoize
            split <;> rfl
          refine .step (h _ _ hfinals _ ?_ ?_ g k stack)
          · rfl
          · rfl
      · cases he : s.registry.store.early? n with
        | none => exact hsame none s rfl rfl g k stack
        | some i => exact hsame (some i) (s.report ..) rfl rfl g k stack

end Lookup

/-! ### Builds -/

/-- A request for the final instance of a name is answered with it, or refused, or a build is begun
and settled with what the construct returns. -/
theorem create {c : v.Closure .construct} {next : Except Error v.Inst → Code v α} (hn : n ≠ "")
    (ht : r.tearingDown = false)
    (hfinal : ∀ i, r.store.final? n = some i → Ensures app (next (.ok i)) r w Q)
    (hrefused : ∀ e, r.store.final? n = none → r.openBuild n = .error e →
      Ensures app (next (.error e)) r w Q)
    (hbuilt : ∀ r', r.store.final? n = none → r.openBuild n = .ok r' →
      Ensures app (app.body c) r' w fun a r'' w' =>
        Ensures app (next (r''.settle n r.suppressed.isNone a).reply)
          (r''.settle n r.suppressed.isNone a).registry w' Q) :
    Ensures app (.create n c next) r w Q := by
  rintro s rfl rfl g k stack
  cases hf : s.registry.store.final? n with
  | some i => exact .head (.create_final hn hf) (hfinal i hf (s.report ..) rfl rfl g k stack)
  | none =>
    refine .head (.create_inside hn hf) (.step ?_)
    cases ho : s.registry.openBuild n with
    | error e =>
      simp only [Thread.step, beginStep, hf, ht, ho, Bool.false_eq_true, if_false]
      exact hrefused e hf ho (s.report ..) rfl rfl g k stack
    | ok r' =>
      simp only [Thread.step, beginStep, hf, ht, ho, Bool.false_eq_true, if_false]
      obtain ⟨a, s', l, hl, ha⟩ := hbuilt r' hf ho
        ((s.report stack.depth (.creating n)).withRegistry r') rfl rfl .construct .done
        (.building n s.registry.suppressed.isNone (fun a => (next a).bind k) stack)
      rw [Code.bind_done] at hl
      exact .head hl (.step (ha (s'.after ..) (s'.registry_after ..) (s'.world_after ..) g k stack))

end Ensures

/-! ### Programs -/

/-- A finished thread stays finished. -/
theorem run_of_finished {c : State v × Thread v} {k : Nat} {s : State v} {o : Except Panic Unit}
    (h : run app k c = (s, .finished o)) (j : Nat) : run app (k + j) c = (s, .finished o) := by
  induction j with
  | zero => exact h
  | succ j ih =>
    rw [← Nat.add_assoc, run_succ_last, ih]
    rfl

/-- A program that comes to an end is finished after some number of steps, and at no time has it
been left by a panic. -/
theorem Ensures.run_start {main : Code v Unit} {s : State v}
    {Q : Unit → v.Registry → v.World → Prop} (h : Ensures app main s.registry s.world Q) :
    (∃ k s', run app k (s, .start main) = (s', .finished (.ok ())) ∧ Q () s'.registry s'.world) ∧
      ∀ k p, (run app k (s, .start main)).2 ≠ .finished (.error p) := by
  obtain ⟨⟨⟩, s', l, ⟨k, hk, -⟩, hQ⟩ := h s rfl rfl .main .done .top
  rw [Code.bind_done] at hk
  have hend : run app (k + 1) (s, .start main) = (s', .finished (.ok ())) := by
    rw [run_succ_last, Thread.start, hk]
    rfl
  refine ⟨⟨k + 1, s', hend, hQ⟩, fun j p hp => ?_⟩
  -- both ends last, so they are the same
  have hlater := run_of_finished (Prod.ext (Eq.refl (run app j (s, .start main)).1) hp) (k + 1)
  rw [Nat.add_comm, run_of_finished hend j] at hlater
  cases congrArg Prod.snd hlater

end Wiring
