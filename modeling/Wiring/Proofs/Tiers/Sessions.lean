import Wiring.Proofs.Tiers.Partition
import Wiring.Store.Session

/-!
# Sessions whose producers give no commands

The jobs of a session are worked off one by one, and a lookup that meets a producer is one of the
commands that take two of them: between the two, the store is in a state that nobody asks about as
long as producers give no commands themselves. Then the session is a sequence of operations.

## Main definitions

* `Wiring.Store.Command.operation` — the operation that a command asks for.
* `Wiring.Store.Command.Plain`, `Wiring.Store.Plain` — producers that give no commands.

## Main results

* `Wiring.Store.Plain.perform_command` — a command does what its operation says.
* `Wiring.Store.session_inspect` — what such a session shows of the store in the end.
-/

namespace Wiring

namespace Store

/-- The operation that a command asks for. A producer makes the value that it was offered with. -/
def Command.operation : Command → Operation Int Production
  | .put n v => .put n v
  | .offer n v steps => .offer n (v, steps)
  | .obtain n => .obtain n Prod.fst
  | .remove n => .remove n
  | .discard n => .discard n
  | .clear => .clear
  | .final _ | .early _ | .isFinal _ | .isStaged _ | .inspect => .look

/-- A producer that the command offers gives no commands. -/
def Command.Plain : Command → Prop
  | .offer _ _ steps => steps = []
  | .put .. | .final _ | .early _ | .obtain _ | .remove _ | .isFinal _ | .isStaged _ | .discard _
  | .clear | .inspect => True

/-- The producers that wait give no commands. -/
def Plain (s : Store Int Production) : Prop :=
  ∀ n p, s.producers.find? n = some p → p.2 = []

namespace Plain

variable {s : Store Int Production}

theorem erase (h : s.Plain) {t : Store Int Production} {n : String}
    (ht : t.producers = s.producers.erase n) : t.Plain := by
  intro m p hp
  rw [ht, Table.find?_erase] at hp
  split at hp
  · cases hp
  · exact h m p hp

theorem offer (h : s.Plain) (n : String) (v : Int) : (s.offer n (v, [])).2.Plain := by
  unfold Store.offer
  split
  · exact h
  · intro m p hp
    rw [Table.find?_insert] at hp
    split at hp
    · cases hp
      rfl
    · exact h m p hp

theorem apply (h : s.Plain) {c : Command} (hc : c.Plain) : (c.operation.apply s).Plain := by
  cases c with
  | put n v => exact h.erase rfl
  | offer n v steps =>
    cases hc
    exact h.offer n v
  | obtain n =>
    obtain hsame | ⟨p, -, -, hmade⟩ := apply_obtain (s := s) (n := n) Prod.fst
    · rwa [Command.operation, hsame]
    · exact h.erase (congrArg producers hmade)
  | remove n => exact h.erase rfl
  | discard n => exact h.erase rfl
  | clear => exact fun _ _ hp => nomatch hp
  | final | early | isFinal | isStaged | inspect => exact h

/-- A command does what its operation says, in one job or, where a producer makes a value, in two.
The weight of the command and a producer that does not wait any longer make up for them. -/
theorem perform_command (h : s.Plain) {c : Command} (hc : c.Plain) :
    ((s.perform (.command c)).2 = ([], c.operation.apply s) ∧
      (c.operation.apply s).producers.size < s.producers.size + c.weight) ∨
    ∃ n v rest, (s.perform (.command c)).2 = ([.memoize n v], rest) ∧
      (rest.memoize n v).2 = c.operation.apply s ∧
      (c.operation.apply s).producers.size + 1 < s.producers.size + c.weight := by
  have herase (n : String) := s.producers.size_erase_le n
  cases c with
  | put n v => exact .inl ⟨rfl, Nat.lt_succ_of_le (herase n)⟩
  | offer n v steps =>
    cases hc
    refine .inl ⟨rfl, ?_⟩
    have hinsert := s.producers.size_insert_le n (v, [])
    simp only [Command.operation, Operation.apply, Store.offer, Command.weight, weightAll]
    split <;> simp only <;> omega
  | obtain n =>
    cases hs : s.seek n with
    | nothing | early i =>
      refine .inl ⟨by simp [perform, hs, Command.operation, Operation.apply], ?_⟩
      simp [hs, Command.operation, Operation.apply, Command.weight]
    | pending p rest =>
      obtain ⟨v, steps⟩ := p
      obtain ⟨he, hp, -⟩ := seek_eq_pending hs
      obtain rfl : steps = [] := h n _ hp
      refine .inr ⟨n, v, rest, by simp [perform, hs], ?_, ?_⟩
      · simp [hs, Command.operation, Operation.apply]
      · have hweight : (Command.obtain n).weight = 1 := rfl
        have hsize := s.producers.size_eq_add n
        rw [hp, Option.toList_some, List.length_singleton] at hsize
        rw [Command.operation, apply_obtain_of_producer he hp, hweight]
        simp only
        omega
  | remove n => exact .inl ⟨rfl, Nat.lt_succ_of_le (herase n)⟩
  | discard n => exact .inl ⟨rfl, Nat.lt_succ_of_le (herase n)⟩
  | clear => exact .inl ⟨rfl, Nat.succ_pos _⟩
  | final | early | isFinal | isStaged | inspect => exact .inl ⟨rfl, Nat.lt_succ_self _⟩

end Plain

/-- A job that is done: its answers come first, then those to the jobs it leads to and to the rest. -/
theorem work_succ (fuel : Nat) (s : Store Int Production) (job : Job) (rest : List Job) :
    work (fuel + 1) s (job :: rest) =
      (s.perform job).1 ++ work fuel (s.perform job).2.2 ((s.perform job).2.1 ++ rest) := rfl

/-- With fuel enough for the commands and for the producers that wait, a session gets to the
overview that it ends with. -/
theorem exists_work_inspect {s : Store Int Production} (hs : s.Plain) {commands : List Command}
    (hc : ∀ c ∈ commands, c.Plain) (fuel : Nat)
    (hfuel : weightAll commands + s.producers.size < fuel) :
    let s' := (commands.map Command.operation).foldl Operation.apply s
    ∃ replies, work fuel s (commands.map .command ++ [.command .inspect]) =
      replies ++ [.state s'.names s'.count s'.finalCount s'.shape.inline] := by
  induction commands generalizing s fuel with
  | nil =>
    obtain ⟨fuel, rfl⟩ := Nat.exists_eq_add_one_of_ne_zero (Nat.ne_zero_of_lt hfuel)
    refine ⟨[], ?_⟩
    rw [List.map_nil, List.nil_append, work_succ]
    cases fuel <;> rfl
  | cons c commands ih =>
    obtain ⟨fuel, rfl⟩ := Nat.exists_eq_add_one_of_ne_zero (Nat.ne_zero_of_lt hfuel)
    have hplain := hc c List.mem_cons_self
    -- from wherever the command leads, the rest of the session gets to its end
    have hrest := ih (hs.apply hplain) fun d hd => hc d (List.mem_cons_of_mem c hd)
    rw [weightAll] at hfuel
    intro s'
    rw [List.map_cons, List.cons_append, work_succ]
    obtain ⟨hdone, hsize⟩ | ⟨n, v, rest, hjob, hmade, hsize⟩ := hs.perform_command hplain
    · obtain ⟨replies, hreplies⟩ := hrest fuel (by omega)
      rw [hdone, List.nil_append, hreplies, ← List.append_assoc]
      exact ⟨_, rfl⟩
    · obtain ⟨fuel, rfl⟩ := Nat.exists_eq_add_one_of_ne_zero (by omega : fuel ≠ 0)
      obtain ⟨replies, hreplies⟩ := hrest fuel (by omega)
      rw [hjob, List.singleton_append, work_succ]
      simp only [perform]
      rw [hmade, List.nil_append, hreplies, ← List.append_assoc, ← List.append_assoc]
      exact ⟨_, rfl⟩

theorem weightAll_append (commands commands' : List Command) :
    weightAll (commands ++ commands') = weightAll commands + weightAll commands' := by
  induction commands with
  | nil => simp [weightAll]
  | cons c commands ih => simp [weightAll, ih, Nat.add_assoc]

/-- **What a session shows.** A session whose producers give no commands, and that ends with an
overview, shows the store after the operations that its commands ask for. -/
theorem session_inspect (commands : List Command) (h : ∀ c ∈ commands, c.Plain) :
    let s := after (commands.map Command.operation)
    (session (commands ++ [.inspect])).getLast? =
      some (.state s.names s.count s.finalCount s.shape.inline) := by
  intro s
  have hfuel : weightAll commands + (empty : Store Int Production).producers.size <
      weightAll (commands ++ [.inspect]) := by
    rw [weightAll_append]
    exact Nat.lt_succ_self _
  have hplain : (empty : Store Int Production).Plain := fun _ _ hp => nomatch hp
  obtain ⟨replies, hreplies⟩ := exists_work_inspect hplain h _ hfuel
  rw [session, List.map_append, List.map_singleton, hreplies, List.getLast?_concat]
  rfl

end Store

end Wiring
