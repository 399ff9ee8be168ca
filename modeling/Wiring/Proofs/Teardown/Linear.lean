import Wiring.Proofs.Sample
import Wiring.Proofs.Teardown.Ledger
import Wiring.Proofs.Teardown.Running

/-!
# Hooks are linear

A hook that is stored is run at most once, and what becomes of it is always known: it waits in the
registry, or the destruction that has detached it is under way and has yet to run it, or it has been
run, or it was dropped, because another hook was stored for its name or the registry was cleared.
A destruction that has detached a hook runs it before it is over, whatever the hooks do that are run
meanwhile, and a teardown of the whole registry leaves no hook pending that was pending when it
began.

## Main definitions

* `Wiring.Ledger.Awaits` — a thread has yet to begin the hook of a token that it has detached.

## Main results

* `Wiring.Ledger.Awaits.step` — it still has after a step, unless the step begins the hook.
* `Wiring.Pool.awaits_or_begun` — over a run, what becomes of a hook that was detached.
* `Wiring.Pool.pending_ne_of_destroyAll` — what a teardown of the whole registry leaves pending.
* `Wiring.Pool.hooks_linear` — hooks are linear.
-/

namespace Wiring

variable {v : Vocabulary}

/-! ### Detached hooks are begun -/

namespace Ledger

/-- Thread `i`, which stands at `t`, has detached the hook of the token `k` and has yet to begin it.
After that come the tasks in `rest`, and then the caller of the teardown goes on. -/
structure Awaits (l : Ledger v) (i : Nat) (t : Thread v) (k : Token v) (rest : List (Task v))
    (caller : Caller v) : Prop where
  ahead : Ahead (.hook k.name k.hook) rest caller t.agenda
  /-- The tokens that the thread has detached before are those of the hooks further down. -/
  held : ∃ first later, l.detachedBy i = first ++ k :: later ∧
    later.length = ((Level.teardown rest caller :: caller.stack.agenda).flatMap Level.hooks).length

theorem begun_le_step (l : Ledger v) (i : Nat) (c : Hooks.Change (v.Closure .hook)) :
    l.begun ≤ (l.step i c).begun := by
  cases c with
  | begin n h => exact Multiset.le_add_left ..
  | _ => exact le_rfl

/-- A token that thread `i` has detached stays where it is in the order of detached tokens when the
thread takes a step, unless its hook is begun. -/
theorem begun_or_held {l : Ledger v} {i : Nat} {k : Token v} {first later : List (Token v)}
    (h : l.detachedBy i = first ++ k :: later) (c : Hooks.Change (v.Closure .hook)) :
    k ∈ (l.step i c).begun ∨ ∃ first', (l.step i c).detachedBy i = first' ++ k :: later := by
  rw [detachedBy_step, h]
  cases c with
  | keep | store | clear => exact .inr ⟨first, rfl⟩
  | detach n => exact .inr ⟨_, (List.append_assoc ..).symm⟩
  | begin n hook =>
    cases first with
    | nil =>
      rw [begun_step_begin h]
      exact .inl (Multiset.mem_cons_self ..)
    | cons k' first => exact .inr ⟨first, rfl⟩

namespace Awaits

variable {l : Ledger v} {p : Pool v} {i j : Nat} {t u : Thread v} {k : Token v}
  {rest : List (Task v)} {caller : Caller v}

/-- When the hook is next on the agenda, its token is the one that was detached last. -/
theorem detachedBy_eq
    (h : l.Awaits i (.walk (.hook k.name k.hook :: rest) caller.next caller.stack) k rest caller)
    (hl : l.Tracks p)
    (ht : p.threads[i]? = some (.walk (.hook k.name k.hook :: rest) caller.next caller.stack)) :
    ∃ later, l.detachedBy i = k :: later := by
  obtain ⟨first, later, heq, hlength⟩ := h.held
  have hhooks : (Thread.walk (.hook k.name k.hook :: rest) caller.next caller.stack).detachedHooks =
      (k.name, k.hook) ::
        (Level.teardown rest caller :: caller.stack.agenda).flatMap Level.hooks := rfl
  have hdetached := congrArg List.length (hl.detached i)
  rw [ht, Option.map_some, Option.getD_some, hhooks, heq, List.length_map, List.length_append,
    List.length_cons, List.length_cons, hlength] at hdetached
  obtain rfl : first = [] := List.length_eq_zero_iff.mp (by omega)
  exact ⟨later, heq⟩

/-- A thread that has yet to begin a hook still has after a step of the pool, unless the step begins
the hook. -/
theorem step (app : Application v) (h : l.Awaits i t k rest caller) (hl : l.Tracks p)
    (ht : p.threads[i]? = some t) (hu : p.Takes j u) :
    k ∈ (l.step j u.hookChange).begun ∨
      ∃ t', (p.threads.set j (u.step app p.state).2)[i]? = some t' ∧
        (l.step j u.hookChange).Awaits i t' k rest caller := by
  obtain ⟨hahead, first, later, heq, hlength⟩ := h
  by_cases hji : j = i
  · subst hji
    obtain rfl : u = t := Option.some.inj (hu.1.symm.trans ht)
    have hlt := (List.getElem?_eq_some_iff.mp ht).1
    obtain hstays | rfl := hahead.step (u.moves_step app p.state)
    · refine (begun_or_held heq u.hookChange).imp_right fun ⟨first', heq'⟩ => ?_
      exact ⟨_, List.getElem?_set_self hlt, hstays, first', later, heq', hlength⟩
    · -- the hook is next on the agenda, and the step begins it
      obtain ⟨later', heq'⟩ := detachedBy_eq ⟨hahead, first, later, heq, hlength⟩ hl ht
      refine .inl ?_
      rw [Thread.hookChange, begun_step_begin heq']
      exact Multiset.mem_cons_self ..
  · refine .inr ⟨t, by rw [List.getElem?_set_ne hji, ht], hahead, first, later, ?_, hlength⟩
    rw [detachedBy_step_of_ne l hji, heq]

/-- While the hook is yet to be begun, the destruction that has detached it is not over, and the
caller of the teardown has not gone on. -/
theorem not_returned {n : String} {todo : List (Task v)}
    (h : l.Awaits i t k (.parts n :: .scrub n :: todo) caller) :
    t ≠ .walk todo caller.next caller.stack ∧ ¬ t.depth ≤ caller.stack.depth := by
  refine ⟨?_, ?_⟩
  · rintro rfl
    obtain ha | ⟨-, first, he⟩ := Ahead.cons_iff.mp h.ahead
    · have hlt := ha.lt_length
      rw [Stack.length_agenda] at hlt
      exact absurd hlt (Nat.lt_irrefl _)
    · have hlength := congrArg List.length (Level.teardown.inj he).1
      simp at hlength
      omega
  · have hlt := h.ahead.lt_length
    rw [t.length_agenda] at hlt
    exact hlt.not_ge

end Awaits

/-! ### Pending tokens -/

theorem issued_le_step (l : Ledger v) (i : Nat) (c : Hooks.Change (v.Closure .hook)) :
    l.issued ≤ (l.step i c).issued := by
  cases c with
  | store n h => exact Nat.le_succ _
  | _ => exact le_rfl

/-- Only a new token becomes pending. -/
theorem pending_of_step {l : Ledger v} {i : Nat} {c : Hooks.Change (v.Closure .hook)} {n : String}
    {k : Token v} (hk : (l.step i c).pending.find? n = some k) (hlt : k.number < l.issued) :
    l.pending.find? n = some k := by
  cases c with
  | keep | begin => exact hk
  | store m h =>
    rw [step, Table.find?_insert] at hk
    split at hk
    · cases hk
      exact absurd hlt (Nat.lt_irrefl _)
    · exact hk
  | detach m =>
    rw [step, Table.find?_erase] at hk
    split at hk
    · cases hk
    · exact hk
  | clear => cases hk

/-- A pending token has been given out. -/
theorem Tracks.number_lt {l : Ledger v} {p : Pool v} (h : l.Tracks p) {n : String} {k : Token v}
    (hk : l.pending.find? n = some k) : k.number < l.issued := by
  have hvalues : k ∈ l.pending.values :=
    (l.pending.values_perm n).mem_iff.mpr (List.mem_append_left _ (by simp [hk]))
  have htokens : k ∈ l.tokens := by
    simp only [tokens, Multiset.mem_add, Multiset.mem_coe]
    exact .inl (.inl (.inl (.inl hvalues)))
  rw [← Multiset.mem_range, ← h.once]
  exact Multiset.mem_map_of_mem _ htokens

/-- A step that begins a hook enters the token that the thread has detached last as begun, and gets
into its hook; no other step enters any token, or gets into any hook. -/
theorem begun_step (app : Application v) {l : Ledger v} {p : Pool v} (h : l.Tracks p) {i : Nat}
    {t : Thread v} (ht : p.threads[i]? = some t) :
    (∀ n, t.occurrence p.state = some (.hookBegun n) → ∃ k rest, l.detachedBy i = k :: rest ∧
      k.name = n ∧ (l.step i t.hookChange).begun = k ::ₘ l.begun ∧
      t.Enters app (t.step app p.state).2 n k.hook) ∧
    ((∀ n, t.occurrence p.state ≠ some (.hookBegun n)) →
      (l.step i t.hookChange).begun = l.begun ∧
      (t.step app p.state).2.running <:+ t.running) := by
  constructor
  · intro n ho
    obtain ⟨g, hook, todo, next, stack, rfl⟩ := Thread.walk_of_hookBegun ho
    have hdetached := h.detached i
    rw [ht] at hdetached
    obtain ⟨k, rest, hk, he, -⟩ := List.map_eq_cons_iff.mp hdetached
    obtain ⟨hname, hhook⟩ : k.name = n ∧ k.hook = hook := Prod.ext_iff.mp he
    exact ⟨k, rest, hk, hname, begun_step_begin hk n hook, hhook ▸ Thread.enters_step app _ rfl⟩
  · intro hnone
    refine ⟨?_, Thread.running_step_suffix app _ (Thread.hook?_of_not_begun hnone)⟩
    cases hc : t.hookChange with
    | begin n hook =>
      obtain ⟨g, todo, next, stack, rfl⟩ := Thread.walk_of_begin hc
      exact absurd rfl (hnone n)
    | _ => rfl

end Ledger

/-! ### Runs -/

namespace Pool

variable (app : Application v) (o : Options) (w : v.World) (programs : List (Code v Unit))

theorem issued_le_ledger (l m : List Nat) :
    (ledger app o w programs l).issued ≤ (ledger app o w programs (l ++ m)).issued := by
  induction m using List.reverseRecOn with
  | nil => rw [List.append_nil]
  | append_singleton m i ih =>
    rw [← List.append_assoc, ledger_concat]
    exact ih.trans (Ledger.issued_le_step ..)

/-- A token that is pending has been pending since it was given out. -/
theorem pending_of_ledger {l m : List Nat} {n : String} {k : Token v}
    (hk : (ledger app o w programs (l ++ m)).pending.find? n = some k)
    (hlt : k.number < (ledger app o w programs l).issued) :
    (ledger app o w programs l).pending.find? n = some k := by
  induction m using List.reverseRecOn with
  | nil => rwa [List.append_nil] at hk
  | append_singleton m i ih =>
    rw [← List.append_assoc, ledger_concat] at hk
    exact ih (Ledger.pending_of_step hk (hlt.trans_le (issued_le_ledger app o w programs l m)))

/-- After a step that destroys a component no hook is pending for it. -/
theorem pending_eq_none_of_takes {l : List Nat} {i : Nat} {n : String} {todo : List (Task v)}
    {g : Goal} {next : Code v (g.Result v.Inst)} {stack : Stack v g}
    (ht : (reached app o w programs l).Takes i (.walk (.destroy n :: todo) next stack)) :
    (ledger app o w programs (l ++ [i])).pending.find? n = none := by
  rw [ledger_concat, hookChange_of_takes ht]
  exact Table.find?_erase_self ..

/-- When a component is destroyed while a hook is pending for it, the thread has detached the hook
and has yet to begin it. -/
theorem awaits_of_takes {l : List Nat} {i : Nat} {n : String} {todo : List (Task v)} {g : Goal}
    {next : Code v (g.Result v.Inst)} {stack : Stack v g} {k : Token v}
    (ht : (reached app o w programs l).Takes i (.walk (.destroy n :: todo) next stack))
    (hk : (ledger app o w programs l).pending.find? n = some k) :
    ∃ t, (reached app o w programs (l ++ [i])).threads[i]? = some t ∧
      (ledger app o w programs (l ++ [i])).Awaits i t k (.parts n :: .scrub n :: todo)
        ⟨next, stack⟩ := by
  have htracks := tracks_ledger app o w programs l
  obtain ⟨hname, hhook⟩ := htracks.of_pending hk
  have hlt := (List.getElem?_eq_some_iff.mp ht.1).1
  have hdetached := congrArg List.length (htracks.detached i)
  rw [ht.1, List.length_map, Option.map_some, Option.getD_some] at hdetached
  rw [reached_concat, step_of_takes app ht, ledger_concat, hookChange_of_takes ht]
  refine ⟨_, List.getElem?_set_self hlt, ?_, ?_⟩
  · refine ⟨[], ((reached app o w programs l).state.registry.links.dependentsOf n).map .destroy, ?_⟩
    simp [Thread.step, walkStep, Thread.agenda, destroyTasks, hhook, hname]
  · refine ⟨[], (ledger app o w programs l).detachedBy i, ?_, hdetached⟩
    rw [Thread.hookChange, Ledger.detachedBy_step]
    simp [hk]

/-- What becomes of a hook that is detached when a component is destroyed: at any later point it has
been begun, or the thread has yet to begin it. -/
theorem awaits_or_begun {l : List Nat} {i : Nat} {n : String} {todo : List (Task v)} {g : Goal}
    {next : Code v (g.Result v.Inst)} {stack : Stack v g} {k : Token v}
    (ht : (reached app o w programs l).Takes i (.walk (.destroy n :: todo) next stack))
    (hk : (ledger app o w programs l).pending.find? n = some k) (m : List Nat) :
    k ∈ (ledger app o w programs (l ++ i :: m)).begun ∨
      ∃ t, (reached app o w programs (l ++ i :: m)).threads[i]? = some t ∧
        (ledger app o w programs (l ++ i :: m)).Awaits i t k (.parts n :: .scrub n :: todo)
          ⟨next, stack⟩ := by
  induction m using List.reverseRecOn with
  | nil => exact .inr (awaits_of_takes app o w programs ht hk)
  | append_singleton m j ih =>
    rw [← List.cons_append, ← List.append_assoc, ledger_concat, reached_concat]
    obtain hbegun | ⟨t, hi, hawaits⟩ := ih
    · exact .inl (Multiset.mem_of_le (Ledger.begun_le_step ..) hbegun)
    · by_cases hj : ∃ u, (reached app o w programs (l ++ i :: m)).Takes j u
      · obtain ⟨u, hu⟩ := hj
        rw [hookChange_of_takes hu, step_of_takes app hu]
        exact hawaits.step app (tracks_ledger app o w programs _) hi hu
      · rw [hookChange_of_not_takes (not_exists.mp hj), step_of_not_takes app (not_exists.mp hj)]
        exact .inr ⟨t, hi, hawaits⟩

/-- When the caller of a teardown of the whole registry goes on, no hook is pending any more that
was pending when the teardown began. -/
theorem pending_ne_of_destroyAll {l m : List Nat} {i : Nat} {g : Goal}
    {next : Code v (g.Result v.Inst)} {stack : Stack v g} {t : Thread v} {n : String} {k : Token v}
    (hl : (reached app o w programs l).Takes i (.exec (.destroyAll next) stack))
    (hm : (reached app o w programs (l ++ i :: m)).threads[i]? = some t)
    (hover : t.depth ≤ stack.depth)
    (hk : (ledger app o w programs l).pending.find? n = some k) :
    (ledger app o w programs (l ++ i :: m)).pending.find? n ≠ some k := by
  intro hstill
  have htracks := tracks_ledger app o w programs l
  have hmem : n ∈ (reached app o w programs l).state.registry.hooks.keys.reverse := by
    rw [List.mem_reverse, Table.mem_keys_iff, (htracks.of_pending hk).2]
    rfl
  obtain ⟨first, rest, hkeys⟩ := List.append_of_mem hmem
  -- the task that destroys `n` waits from the first step of the teardown on, and is taken up
  have hlt := (List.getElem?_eq_some_iff.mp hl.1).1
  have hbegun : (reached app o w programs (l ++ [i])).threads[i]? = some
      (.walk (first.map .destroy ++ .destroy n :: (rest.map .destroy ++ [.reset])) next stack) := by
    rw [reached_concat, step_of_takes app hl, List.getElem?_set_self hlt]
    simp [Thread.step, execStep, hkeys]
  have hrun (m : List Nat) : (reached app o w programs (l ++ [i])).run app m =
      reached app o w programs (l ++ i :: m) := by
    simp [reached, run, List.foldl_append]
  have hahead : Ahead (.destroy n) (rest.map .destroy ++ [.reset]) ⟨next, stack⟩
      (Thread.walk (first.map .destroy ++ .destroy n :: (rest.map .destroy ++ [.reset]))
        next stack).agenda := .of_first _
  obtain ⟨m₁, m₂, rfl, htaken⟩ := taken_of_ahead app hbegun hahead m (by rw [hrun, hm]) hover
  rw [hrun] at htaken
  have hnone := pending_eq_none_of_takes app o w programs htaken
  have hschedule : l ++ i :: (m₁ ++ i :: m₂) = l ++ i :: m₁ ++ [i] ++ m₂ := by simp
  rw [hschedule] at hstill
  have hlater := pending_of_ledger app o w programs hstill <| (htracks.number_lt hk).trans_le <| by
    simpa using issued_le_ledger app o w programs l (i :: m₁ ++ [i])
  rw [hnone] at hlater
  cases hlater

/-- **Hooks are linear.** Programs are run on a fresh registry, in any order of their steps, and
each call that stores a hook is given a token. At every point of the run:

* each token is in exactly one place: it is pending, for the hook that is stored for its name; or it
  is detached, for a hook on the agenda of a thread; or it was begun, replaced or cleared;
* no token was begun twice; a step that begins a hook enters a token of that name as begun, the one
  that its thread has detached last, and the thread gets into the hook of the token; no other step
  enters a token as begun, or gets into a hook;
* a hook that was detached when a component was destroyed has been begun, or the thread has yet to
  begin it before it comes to the end of that destruction; so it has been begun when the destruction
  is over, or when the caller of the teardown has gone on;
* once the caller of a teardown of the whole registry has gone on, no hook is pending that was
  pending when the teardown began. -/
theorem hooks_linear :
    (∀ l, (ledger app o w programs l).Tracks (reached app o w programs l)) ∧
    (∀ l, ((ledger app o w programs l).begun.map Token.number).Nodup) ∧
    (∀ l i t, (reached app o w programs l).Takes i t →
      ∃ t', (reached app o w programs (l ++ [i])).threads[i]? = some t' ∧
      (∀ n, t.occurrence (reached app o w programs l).state = some (.hookBegun n) →
        ∃ k rest, (ledger app o w programs l).detachedBy i = k :: rest ∧ k.name = n ∧
          (ledger app o w programs (l ++ [i])).begun = k ::ₘ (ledger app o w programs l).begun ∧
          t.Enters app t' n k.hook) ∧
      ((∀ n, t.occurrence (reached app o w programs l).state ≠ some (.hookBegun n)) →
        (ledger app o w programs (l ++ [i])).begun = (ledger app o w programs l).begun ∧
        t'.running <:+ t.running)) ∧
    (∀ (l : List Nat) (i : Nat) (n : String) (todo : List (Task v)) (g : Goal)
      (next : Code v (g.Result v.Inst)) (stack : Stack v g) (k : Token v) (m : List Nat),
      (reached app o w programs l).Takes i (.walk (.destroy n :: todo) next stack) →
      (ledger app o w programs l).pending.find? n = some k →
      (k ∈ (ledger app o w programs (l ++ i :: m)).begun ∨
        ∃ t, (reached app o w programs (l ++ i :: m)).threads[i]? = some t ∧
          (ledger app o w programs (l ++ i :: m)).Awaits i t k (.parts n :: .scrub n :: todo)
            ⟨next, stack⟩) ∧
      ∀ t, (reached app o w programs (l ++ i :: m)).threads[i]? = some t →
        t = .walk todo next stack ∨ t.depth ≤ stack.depth →
        k ∈ (ledger app o w programs (l ++ i :: m)).begun) ∧
    ∀ (l : List Nat) (i : Nat) (g : Goal) (next : Code v (g.Result v.Inst)) (stack : Stack v g)
      (m : List Nat) (t : Thread v) (n : String) (k : Token v),
      (reached app o w programs l).Takes i (.exec (.destroyAll next) stack) →
      (reached app o w programs (l ++ i :: m)).threads[i]? = some t → t.depth ≤ stack.depth →
      (ledger app o w programs l).pending.find? n = some k →
      (ledger app o w programs (l ++ i :: m)).pending.find? n ≠ some k := by
  refine ⟨tracks_ledger app o w programs, fun l => ?_, fun l i t ht => ?_, ?_, ?_⟩
  · refine Multiset.nodup_of_le (Multiset.map_le_map (Ledger.begun_le_tokens _)) ?_
    rw [(tracks_ledger app o w programs l).once]
    exact Multiset.nodup_range _
  · have hlt := (List.getElem?_eq_some_iff.mp ht.1).1
    rw [reached_concat, step_of_takes app ht, ledger_concat, hookChange_of_takes ht]
    exact ⟨_, List.getElem?_set_self hlt,
      Ledger.begun_step app (tracks_ledger app o w programs l) ht.1⟩
  · intro l i n todo g next stack k m ht hk
    have hk' := awaits_or_begun app o w programs ht hk m
    refine ⟨hk', fun t hi hover => hk'.resolve_right ?_⟩
    rintro ⟨u, hu, hawaits⟩
    obtain rfl : t = u := Option.some.inj (hi.symm.trans hu)
    obtain ⟨hwalk, hdepth⟩ := hawaits.not_returned
    exact hover.elim hwalk hdepth
  · intro l i g next stack m t n k hl hm hover hk
    exact pending_ne_of_destroyAll app o w programs hl hm hover hk

end Pool

/-! ### A hook that is replaced -/

namespace Sample

/-- A program that stores two hooks for "a" and destroys "a". -/
def replacingMain : Code vocabulary Unit := do
  let _ ← .ask (.storeHook "a" "first")
  let _ ← .ask (.storeHook "a" "second")
  .destroy "a" (.done ())

example :
    let l := Pool.ledger idle .default () [replacingMain] (List.replicate 8 0)
    l.begun.map Token.number = {1} ∧ l.replaced.map Token.number = {0} ∧ l.detached = [] := by
  decide

end Sample

end Wiring
