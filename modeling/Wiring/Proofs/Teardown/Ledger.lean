import Mathlib.Algebra.Order.Group.Multiset
import Mathlib.Data.Multiset.Range
import Mathlib.Tactic.Abel
import Wiring.Proofs.Builds.Serial
import Wiring.Proofs.Teardown.Change
import Wiring.Proofs.Tiers.Exclusive

/-!
# A ledger of hooks

Each call that stores a hook is given a *token*, and a ledger is kept of the tokens over a run: a
token is pending while its hook is stored, detached while its hook waits on the agenda of a thread,
and begun from the moment the hook is run; or its hook was replaced by another one of the same name,
or dropped when the registry was cleared. The ledger is kept by looking at the change of each step
only. That it tells the truth about the hooks in the registry and on the agendas is an invariant,
and so is that a token is never lost and never in two places.

## Main definitions

* `Wiring.Token`, `Wiring.Ledger` — where the tokens of a run are.
* `Wiring.Ledger.step` — what the change of a step does to the ledger.
* `Wiring.Ledger.Tracks` — the ledger tells the truth about a pool.
* `Wiring.Pool.ledger` — the ledger that is kept over the steps of a schedule.

## Main results

* `Wiring.Ledger.map_number_tokens_step` — a step loses no token and doubles none.
* `Wiring.Pool.tracks_ledger` — the ledger tells the truth at every point of a run.
-/

namespace Wiring

variable {v : Vocabulary}

/-! ### The ledger -/

/-- A call that stored a hook: how many such calls came before it, the name and the hook. -/
structure Token (v : Vocabulary) where
  number : Nat
  name : String
  hook : v.Closure .hook

/-- The name and the hook of a token. -/
def Token.entry (k : Token v) : String × v.Closure .hook := (k.name, k.hook)

/-- Where the tokens of a run are. -/
structure Ledger (v : Vocabulary) where
  /-- How many tokens there are. -/
  issued : Nat
  /-- The hook is stored for its name. -/
  pending : Table String (Token v)
  /-- The hook was detached by a thread and has not been begun, the latest first. -/
  detached : List (Nat × Token v)
  begun : Multiset (Token v)
  /-- Another hook was stored for the name in the place of the hook. -/
  replaced : Multiset (Token v)
  /-- The hook was dropped when the registry was cleared. -/
  cleared : Multiset (Token v)

namespace Ledger

/-- The ledger of a registry into which no hook has been stored. -/
def empty : Ledger v := ⟨0, .empty, [], 0, 0, 0⟩

/-- The tokens in all places of the ledger. -/
def tokens (l : Ledger v) : Multiset (Token v) :=
  l.pending.values + l.detached.map Prod.snd + l.begun + l.replaced + l.cleared

theorem begun_le_tokens (l : Ledger v) : l.begun ≤ l.tokens :=
  calc l.begun
      ≤ l.pending.values + l.detached.map Prod.snd + l.begun := Multiset.le_add_left ..
    _ ≤ l.pending.values + l.detached.map Prod.snd + l.begun + l.replaced :=
      Multiset.le_add_right ..
    _ ≤ l.tokens := Multiset.le_add_right ..

/-- The tokens of the hooks that thread `i` has detached and not begun, the latest first. -/
def detachedBy (l : Ledger v) (i : Nat) : List (Token v) :=
  (l.detached.filter (·.1 = i)).map Prod.snd

/-- The ledger after a step of thread `i` that changes the hooks. -/
def step (l : Ledger v) (i : Nat) : Hooks.Change (v.Closure .hook) → Ledger v
  | .keep => l
  | .store n h =>
    { l with
      issued := l.issued + 1
      pending := l.pending.insert n ⟨l.issued, n, h⟩
      replaced := (l.pending.find? n).toList + l.replaced }
  | .detach n =>
    { l with
      pending := l.pending.erase n
      detached := (l.pending.find? n).toList.map (i, ·) ++ l.detached }
  | .begin .. =>
    { l with
      detached := l.detached.eraseP (·.1 = i)
      begun := (l.detached.find? (·.1 = i)).toList.map Prod.snd + l.begun }
  | .clear =>
    { l with
      pending := .empty
      cleared := l.pending.values + l.cleared }

/-! ### No token is lost, none is doubled -/

theorem eraseP_perm {α : Type} (p : α → Bool) (l : List α) :
    l.Perm ((l.find? p).toList ++ l.eraseP p) := by
  induction l with
  | nil => exact .refl _
  | cons a l ih =>
    cases ha : p a with
    | true => simp [ha]
    | false => simpa [ha] using (ih.cons a).trans List.perm_middle.symm

/-- A step moves tokens from place to place; only a call that stores a hook brings a new one. -/
theorem tokens_step (l : Ledger v) (i : Nat) (c : Hooks.Change (v.Closure .hook)) :
    (l.step i c).tokens =
      match c with
      | .store n h => ⟨l.issued, n, h⟩ ::ₘ l.tokens
      | .keep | .detach _ | .begin .. | .clear => l.tokens := by
  have hpending (n : String) :
      (l.pending.values : Multiset (Token v)) =
        (l.pending.find? n).toList + (l.pending.erase n).values :=
    Multiset.coe_eq_coe.mpr (l.pending.values_perm n)
  cases c with
  | keep => rfl
  | store n h =>
    have hinsert : ((l.pending.insert n ⟨l.issued, n, h⟩).values : Multiset (Token v)) =
        ⟨l.issued, n, h⟩ ::ₘ (l.pending.erase n).values :=
      Multiset.coe_eq_coe.mpr (l.pending.values_insert_perm n _)
    simp only [step, tokens, hinsert, hpending n, ← Multiset.singleton_add]
    abel
  | detach n =>
    simp only [step, tokens, hpending n, List.map_append, ← Multiset.coe_add, List.map_map,
      Function.comp_def, List.map_id']
    abel
  | begin n h =>
    have hdetached : (l.detached.map Prod.snd : Multiset (Token v)) =
        (l.detached.find? (·.1 = i)).toList.map Prod.snd +
          (l.detached.eraseP (·.1 = i)).map Prod.snd := by
      rw [Multiset.coe_add, ← List.map_append]
      exact Multiset.coe_eq_coe.mpr ((eraseP_perm _ l.detached).map Prod.snd)
    simp only [step, tokens, hdetached]
    abel
  | clear =>
    have hempty : ((Table.empty : Table String (Token v)).values : Multiset (Token v)) = 0 := rfl
    simp only [step, tokens, hempty]
    abel

/-- If every number below the number of tokens belongs to exactly one token in exactly one place,
the same holds after a step. -/
theorem map_number_tokens_step {l : Ledger v}
    (h : l.tokens.map Token.number = Multiset.range l.issued) (i : Nat)
    (c : Hooks.Change (v.Closure .hook)) :
    (l.step i c).tokens.map Token.number = Multiset.range (l.step i c).issued := by
  rw [tokens_step]
  cases c with
  | store n k =>
    rw [Multiset.map_cons, h]
    exact (Multiset.range_succ l.issued).symm
  | _ => exact h

/-! ### What a step does to the detached tokens of a thread -/

theorem filter_eraseP {α : Type} (p q : α → Bool) (hpq : ∀ a, p a = true → q a = false)
    (l : List α) : (l.eraseP p).filter q = l.filter q := by
  induction l with
  | nil => rfl
  | cons a l ih =>
    cases ha : p a with
    | true => simp [ha, hpq a ha]
    | false => simp [ha, List.filter_cons, ih]

theorem filter_eraseP_self {α : Type} (p : α → Bool) (l : List α) :
    (l.eraseP p).filter p = (l.filter p).tail := by
  induction l with
  | nil => rfl
  | cons a l ih =>
    cases ha : p a with
    | true => simp [ha]
    | false => simp [ha, ih]

theorem detachedBy_step_of_ne (l : Ledger v) {i j : Nat} (hij : i ≠ j)
    (c : Hooks.Change (v.Closure .hook)) : (l.step i c).detachedBy j = l.detachedBy j := by
  cases c with
  | detach n => simp [step, detachedBy, List.filter_map, Function.comp_def, hij]
  | begin n h =>
    refine congrArg (List.map Prod.snd) (filter_eraseP _ _ (fun a ha => ?_) l.detached)
    simpa [of_decide_eq_true ha] using hij
  | _ => rfl

/-- The detached tokens of the thread that takes a step change like its detached hooks. -/
theorem detachedBy_step (l : Ledger v) (i : Nat) (c : Hooks.Change (v.Closure .hook)) :
    (l.step i c).detachedBy i =
      match c with
      | .detach n => (l.pending.find? n).toList ++ l.detachedBy i
      | .begin .. => (l.detachedBy i).tail
      | .keep | .store .. | .clear => l.detachedBy i := by
  cases c with
  | detach n =>
    simp [step, detachedBy, List.filter_map, Function.comp_def]
  | begin n h =>
    simp only [step, detachedBy, filter_eraseP_self, List.map_tail]
  | _ => rfl

/-- A hook that is begun is that of the token that the thread has detached last. -/
theorem begun_step_begin {l : Ledger v} {i : Nat} {k : Token v} {rest : List (Token v)}
    (h : l.detachedBy i = k :: rest) (n : String) (hook : v.Closure .hook) :
    (l.step i (.begin n hook)).begun = k ::ₘ l.begun := by
  obtain ⟨a, l', hfilter, rfl, -⟩ := List.map_eq_cons_iff.mp h
  have hfind : l.detached.find? (·.1 = i) = some a := by
    rw [← List.head?_filter, hfilter, List.head?_cons]
  simp [step, hfind]

/-! ### Telling the truth -/

/-- The ledger tells the truth about a pool: what is pending are the hooks in the registry, and what
a thread has detached are, in order, the hooks on its agenda. Every number below the number of
tokens belongs to exactly one token in exactly one place. -/
structure Tracks (l : Ledger v) (p : Pool v) : Prop where
  once : l.tokens.map Token.number = Multiset.range l.issued
  pending : ∀ n, (l.pending.find? n).map Token.entry = (p.state.registry.hooks.find? n).map (n, ·)
  detached : ∀ i,
    (l.detachedBy i).map Token.entry = (p.threads[i]?.map Thread.detachedHooks).getD []

theorem Tracks.start (o : Options) (w : v.World) (programs : List (Code v Unit)) :
    (empty : Ledger v).Tracks (.start (.start o w) programs) where
  once := rfl
  pending _ := rfl
  detached i := by
    rw [Pool.start, List.getElem?_map]
    cases programs[i]? <;> rfl

/-- A pending token is that of the hook that is stored for its name. -/
theorem Tracks.of_pending {l : Ledger v} {p : Pool v} (h : l.Tracks p) {n : String} {k : Token v}
    (hk : l.pending.find? n = some k) :
    k.name = n ∧ p.state.registry.hooks.find? n = some k.hook := by
  have hpending := h.pending n
  rw [hk] at hpending
  obtain ⟨hook, hfind, he⟩ := Option.map_eq_some_iff.mp hpending.symm
  obtain ⟨rfl, rfl⟩ := Prod.ext_iff.mp he
  exact ⟨rfl, hfind⟩

/-- A step of a thread keeps the ledger true if it is entered there. -/
theorem Tracks.step (app : Application v) {l : Ledger v} {p : Pool v} (h : l.Tracks p) {i : Nat}
    {t : Thread v} (ht : p.Takes i t) :
    (l.step i t.hookChange).Tracks
      ⟨(t.step app p.state).1, p.threads.set i (t.step app p.state).2⟩ where
  once := map_number_tokens_step h.once i t.hookChange
  pending n := by
    rw [t.hooks_step app p.state]
    cases t.hookChange with
    | keep | begin => exact h.pending n
    | store m k =>
      rw [Ledger.step, Hooks.Change.apply, Table.find?_insert, Table.find?_insert]
      split
      · next hmn =>
        subst hmn
        rfl
      · exact h.pending n
    | detach m =>
      rw [Ledger.step, Hooks.Change.apply, Table.find?_erase, Table.find?_erase]
      split
      · rfl
      · exact h.pending n
    | clear => rfl
  detached j := by
    by_cases hij : i = j
    · subst hij
      have hlt := (List.getElem?_eq_some_iff.mp ht.1).1
      have hbefore : (l.detachedBy i).map Token.entry = t.detachedHooks := by
        rw [h.detached i, ht.1, Option.map_some, Option.getD_some]
      rw [List.getElem?_set_self hlt, Option.map_some, Option.getD_some,
        t.detachedHooks_step app p.state, detachedBy_step]
      cases t.hookChange with
      | detach n =>
        have hpending := congrArg Option.toList (h.pending n)
        rw [Option.toList_map, Option.toList_map] at hpending
        rw [List.map_append, hpending, hbefore, Hooks.Change.detached]
      | begin n k => rw [List.map_tail, hbefore, Hooks.Change.detached]
      | _ => exact hbefore
    · rw [detachedBy_step_of_ne l hij, h.detached j, List.getElem?_set_ne hij]

end Ledger

/-! ### Runs -/

namespace Pool

/-- What the next step of a pool does to the hooks, if it is the turn of thread `i`. -/
def hookChange (p : Pool v) (i : Nat) : Hooks.Change (v.Closure .hook) :=
  match p.threads[i]? with
  | some t => if p.mayStep i t then t.hookChange else .keep
  | none => .keep

theorem hookChange_of_takes {p : Pool v} {i : Nat} {t : Thread v} (h : p.Takes i t) :
    p.hookChange i = t.hookChange := by
  simp [hookChange, h.1, h.2]

theorem hookChange_of_not_takes {p : Pool v} {i : Nat} (h : ∀ t, ¬ p.Takes i t) :
    p.hookChange i = .keep := by
  unfold hookChange
  split
  · next t ht =>
    have hmay : ¬ p.mayStep i t = true := fun hm => h t ⟨ht, hm⟩
    simp [hmay]
  · rfl

/-- The ledger that is kept over the steps of a schedule, where `l` is the ledger before. -/
def ledgerFrom (app : Application v) : Pool v → Ledger v → List Nat → Ledger v
  | _, l, [] => l
  | p, l, i :: rest => ledgerFrom app (p.step app i) (l.step i (p.hookChange i)) rest

/-- The ledger that is kept when programs are run on a fresh registry. -/
def ledger (app : Application v) (o : Options) (w : v.World) (programs : List (Code v Unit))
    (schedule : List Nat) : Ledger v :=
  ledgerFrom app (start (.start o w) programs) .empty schedule

theorem ledgerFrom_concat (app : Application v) (p : Pool v) (l : Ledger v) (schedule : List Nat)
    (i : Nat) :
    ledgerFrom app p l (schedule ++ [i]) =
      (ledgerFrom app p l schedule).step i ((p.run app schedule).hookChange i) := by
  induction schedule generalizing p l with
  | nil => rfl
  | cons j rest ih => exact ih (p.step app j) (l.step j (p.hookChange j))

section Reached

variable (app : Application v) (o : Options) (w : v.World) (programs : List (Code v Unit))

theorem ledger_concat (schedule : List Nat) (i : Nat) :
    ledger app o w programs (schedule ++ [i]) =
      (ledger app o w programs schedule).step i
        ((reached app o w programs schedule).hookChange i) :=
  ledgerFrom_concat ..

/-- The ledger that is kept over a run tells the truth at every point of it. -/
theorem tracks_ledger (schedule : List Nat) :
    (ledger app o w programs schedule).Tracks (reached app o w programs schedule) := by
  induction schedule using List.reverseRecOn with
  | nil => exact .start o w programs
  | append_singleton schedule i ih =>
    rw [ledger_concat, reached_concat]
    by_cases ht : ∃ t, (reached app o w programs schedule).Takes i t
    · obtain ⟨t, ht⟩ := ht
      rw [hookChange_of_takes ht, step_of_takes app ht]
      exact ih.step app ht
    · rw [hookChange_of_not_takes (not_exists.mp ht), step_of_not_takes app (not_exists.mp ht)]
      exact ih

end Reached

end Pool

end Wiring
