import Wiring.Proofs.Teardown.Ranks
import Wiring.Proofs.Teardown.Returning

/-!
# Teardowns that end

Where the code that a registry holds is ranked, teardowns end. A hook that is run has taken its
rank out of the backlog, and while it runs, only lower ranks come in: whatever it calls for, be it
another teardown, has less of a backlog to deal with. Between two hooks, a task puts others in front
of the rest only if it takes out as many records. So the induction is on the backlog first, with the
rank of the code that runs counted in, and then on the code, or on the load of the teardown.

## Main definitions

* `Wiring.Running` — what the registry holds while code of a rank is run.
* `Wiring.CodeEnds`, `Wiring.WalkEnds` — code and teardowns within a backlog come to their ends.
* `Wiring.Stack.Waits` — a frame waits for code.

## Main results

* `Wiring.ends_of_backlog` — ranked code and teardowns come to their ends.
* `Wiring.Teardown.ends_of_ranked` — a teardown ends if the stored code is ranked.
-/

namespace Wiring

variable {v : Vocabulary} {app : Application v} {rank : (g : Goal) → v.Closure g → ℕ} {m d : ℕ}
  {Z : Multiset ℕ}

/-- While code of the rank `m` is run, what the registry holds is ranked: there is no more than `Z`,
apart from what that code has stored, which is of lower ranks. -/
structure Running (app : Application v) (rank : (g : Goal) → v.Closure g → ℕ) (m : ℕ)
    (Z : Multiset ℕ) (r : v.Registry) : Prop where
  ranked : app.Ranked rank r
  below : ∃ Y, (∀ y ∈ Y, y < m) ∧ Within (backlog rank r) (Z + Y)

namespace Running

theorem start {r : v.Registry} (h : app.Ranked rank r) : Running app rank m (backlog rank r) r :=
  ⟨h, 0, fun _ hy => absurd hy (Multiset.notMem_zero _), .inl (add_zero _).symm⟩

/-- What a step of code of the rank `m` stores is below `m`. -/
theorem step {s : State v} {t : Thread v} (h : Running app rank m Z s.registry)
    (ht : t.StoresBelow app rank m s) : Running app rank m Z (t.step app s).1.registry := by
  obtain ⟨A, hA, hle⟩ := backlog_step_le ht
  obtain ⟨Y, hY, hwithin⟩ := h.below
  refine ⟨h.ranked.step ht, Y + A, fun y hy => ?_, ?_⟩
  · obtain hy | hy := Multiset.mem_add.mp hy
    · exact hY y hy
    · exact hA y hy
  · rw [← add_assoc]
    exact (Within.of_le hle).trans (hwithin.add_right A)

/-- What is left is less than what there was when the code was stored itself. -/
theorem lt {r : v.Registry} (h : Running app rank m Z r) :
    (backlog rank r).IsDershowitzMannaLT (Z + {m}) := by
  obtain ⟨Y, hY, hwithin⟩ := h.below
  exact hwithin.trans_lt (lower_lt hY Z)

theorem of_within {r r' : v.Registry} (h : Running app rank m Z r) (hranked : app.Ranked rank r')
    (hwithin : Within (backlog rank r') (backlog rank r)) : Running app rank m Z r' := by
  obtain ⟨Y, hY, hbelow⟩ := h.below
  exact ⟨hranked, Y, hY, hwithin.trans hbelow⟩

end Running

/-! ### Requests that run code -/

/-- A first step that takes up no task. -/
theorem Works.of_step {s : State v} {t : Thread v} {c c' : State v × Thread v} {l : List (Task v)}
    (hstep : t.step app s = c) (ht : t.task? = none) (h : Works app d c l c') (hd : d < t.depth) :
    Works app d (s, t) l c' := by
  subst hstep
  have hworks := h.head hd
  rwa [ht] at hworks

/-- A lookup is answered, or takes a producer out of the registry and begins it. -/
theorem works_lookup (app : Application v) (s : State v) (n : String) (early : Bool) {g : Goal}
    (next : Option v.Inst → Code v (g.Result v.Inst)) {stack : Stack v g} (hd : d < stack.depth) :
    ∃ s' t, s'.registry.hooks = s.registry.hooks ∧
      Works app d (s, .exec (.lookup n early next) stack) [] (s', t) ∧
      ((s'.registry.store = s.registry.store ∧ ∃ a, t = .exec (next a) stack) ∨
        ∃ p, s.registry.store.producers.find? n = some p ∧
          s'.registry.store = s.registry.store.fetch n ∧
          t = .exec (app.body p) (.producing n next stack)) := by
  have hd' : d < stack.depth + 1 := Nat.lt_succ_of_lt hd
  cases hf : s.registry.store.final? n with
  | some i =>
    refine ⟨s, _, rfl, .of_step ?_ rfl (.refl _) hd, .inl ⟨rfl, some i, rfl⟩⟩
    simp only [Thread.step, execStep, hf]
  | none =>
    have hasked : Thread.step app s (.exec (.lookup n early next) stack) =
        (s, .seek .reading n early next stack) := by simp only [Thread.step, execStep, hf]
    cases hm : s.registry.marks.isMarked n with
    | false =>
      refine ⟨s, _, rfl, .of_step hasked rfl (.of_step ?_ rfl (.refl _) hd') hd,
        .inl ⟨rfl, none, rfl⟩⟩
      simp [Thread.step, seekStep, hm]
    | true =>
      have hread : Thread.step app s (.seek .reading n early next stack) =
          (s, .seek .waiting n early next stack) := by simp [Thread.step, seekStep, hm]
      refine ⟨_, _, Thread.hooks_step app s (.seek .inside n early next stack),
        .of_step hasked rfl (.of_step hread rfl (.of_step rfl rfl (.of_step rfl rfl (.refl _) hd')
          hd') hd') hd, ?_⟩
      simp only [Thread.step, seekStep, hf]
      split <;> split
      · exact .inl ⟨rfl, _, rfl⟩
      · exact .inl ⟨rfl, _, rfl⟩
      · next p store hseek =>
        obtain ⟨-, hp, hstore⟩ := Store.seek_eq_pending hseek
        exact .inr ⟨p, hp, hstore, rfl⟩
      · exact .inl ⟨rfl, _, rfl⟩
      · exact .inl ⟨rfl, _, rfl⟩

/-- A request for a final instance is answered, or begins the construct. -/
theorem works_create (app : Application v) (s : State v) (n : String) (c : v.Closure .construct)
    {g : Goal} (next : Except Error v.Inst → Code v (g.Result v.Inst)) {stack : Stack v g}
    (hd : d < stack.depth) :
    ∃ s' t, s'.registry.hooks = s.registry.hooks ∧ s'.registry.store = s.registry.store ∧
      Works app d (s, .exec (.create n c next) stack) [] (s', t) ∧
      ((∃ a, t = .exec (next a) stack) ∨
        ∃ outermost, t = .exec (app.body c) (.building n outermost next stack)) := by
  have hd' : d < stack.depth + 1 := Nat.lt_succ_of_lt hd
  cases hn : checkName n with
  | error e =>
    refine ⟨s, _, rfl, rfl, .of_step ?_ rfl (.refl _) hd, .inl ⟨.error e, rfl⟩⟩
    simp only [Thread.step, execStep, hn]
  | ok u =>
    have hasked : Thread.step app s (.exec (.create n c next) stack) =
        (s, .begin .reading n c next stack) := by simp only [Thread.step, execStep, hn]
    cases hf : s.registry.store.final? n with
    | some i =>
      refine ⟨s.report stack.depth (.cachedReturned n), _, rfl, rfl, .of_step hasked rfl
        (.of_step ?_ rfl (.refl _) hd') hd, .inl ⟨.ok i, rfl⟩⟩
      simp only [Thread.step, beginStep, hf]
    | none =>
      have hread : Thread.step app s (.begin .reading n c next stack) =
          (s, .begin .waiting n c next stack) := by simp only [Thread.step, beginStep, hf]
      refine ⟨_, _, Thread.hooks_step app s (.begin .inside n c next stack),
        Thread.store_step app s (.begin .inside n c next stack), .of_step hasked rfl
        (.of_step hread rfl (.of_step rfl rfl (.of_step rfl rfl (.refl _) hd') hd') hd') hd, ?_⟩
      simp only [hf]
      split
      · exact .inl ⟨_, rfl⟩
      · split
        · exact .inl ⟨_, rfl⟩
        · exact .inr ⟨_, rfl⟩

/-! ### Ranked code comes to its end -/

/-- Where the backlog is within `N`, with the rank of the code that runs counted in, ranked code
comes to its end. -/
def CodeEnds (app : Application v) (rank : (g : Goal) → v.Closure g → ℕ) (N : Multiset ℕ) : Prop :=
  ∀ ⦃m : ℕ⦄ ⦃g : Goal⦄ ⦃code : Code v (g.Result v.Inst)⦄, code.Ranked app rank m →
    ∀ ⦃Z : Multiset ℕ⦄, Within (Z + {m}) N → ∀ (stack : Stack v g) ⦃d : ℕ⦄, d < stack.depth →
      ∀ ⦃s : State v⦄, Running app rank m Z s.registry →
        ∃ s' o l, Works app d (s, .exec code stack) l (s', stack.concluded o) ∧
          Running app rank m Z s'.registry

/-- Where the backlog is within `N`, with the hooks that wait counted in, a teardown comes to its
end. -/
def WalkEnds (app : Application v) (rank : (g : Goal) → v.Closure g → ℕ) (N : Multiset ℕ) : Prop :=
  ∀ ⦃s : State v⦄ ⦃todo : List (Task v)⦄, app.Ranked rank s.registry →
    (∀ n k, .hook n k ∈ todo → (app.body k).Ranked app rank (rank .hook k)) →
    Within (backlog rank s.registry + waiting rank todo) N →
    ∀ ⦃g : Goal⦄ (next : Code v (g.Result v.Inst)) (stack : Stack v g) ⦃d : ℕ⦄, d ≤ stack.depth →
      ∃ s' l, Works app d (s, .walk todo next stack) l (s', .exec next stack) ∧
        app.Ranked rank s'.registry ∧ Within (backlog rank s'.registry) N

/-- A teardown that is called for comes to its end, if one does that has the same backlog. -/
theorem WalkEnds.calling {N : Multiset ℕ} (h : WalkEnds app rank N) {s : State v}
    (hranked : app.Ranked rank s.registry) (hN : Within (backlog rank s.registry) N) (c : Teardown)
    {g : Goal} (next : Code v (g.Result v.Inst)) {stack : Stack v g} (hd : d ≤ stack.depth) :
    ∃ s' l, Works app d ((Thread.exec (c.calling next) stack).step app s) l (s', .exec next stack) ∧
      app.Ranked rank s'.registry ∧ Within (backlog rank s'.registry) N := by
  obtain ⟨s₁, hs₁, hstep⟩ := c.step_calling s next stack
  have hhooks : s₁.registry.hooks = s.registry.hooks := by rw [hs₁]; cases c <;> rfl
  have hstore : s₁.registry.store = s.registry.store := by rw [hs₁]; cases c <;> rfl
  rw [hstep]
  refine h (hranked.congr hhooks hstore) (fun n k hk => ?_) ?_ next stack hd
  · cases c <;> simp [Teardown.tasks] at hk
  · rwa [waiting_tasks, add_zero, backlog_congr hhooks hstore]

/-- A frame waits for code, and `next` goes on with the answer on `stack`, unless a panic passes. -/
inductive Stack.Waits {g : Goal} (stack : Stack v g) :
    {α : Type} → (α → Code v (g.Result v.Inst)) → {g' : Goal} → Stack v g' → Prop
  | building (n : String) (outermost : Bool)
      (next : Except Error v.Inst → Code v (g.Result v.Inst)) :
      Waits stack next (.building n outermost next stack)
  | producing (n : String) (next : Option v.Inst → Code v (g.Result v.Inst)) :
      Waits stack next (.producing n next stack)
  | holding (next : Except Error Unit → Code v (g.Result v.Inst)) :
      Waits stack next (.holding next stack)
  | guarding (next : Except Panic (Except Error Unit) → Code v (g.Result v.Inst)) :
      Waits stack next (.guarding next stack)

/-- Where the code that a frame waits for is at its end, what goes on then comes to its end, too. -/
theorem Stack.Waits.ends {g g' : Goal} {stack : Stack v g} {α : Type}
    {next : α → Code v (g.Result v.Inst)} {frame : Stack v g'} (h : stack.Waits next frame)
    (hd : d < stack.depth)
    (hnext : ∀ a (s : State v), Running app rank m Z s.registry →
      ∃ s' o l, Works app d (s, .exec (next a) stack) l (s', stack.concluded o) ∧
        Running app rank m Z s'.registry)
    {s : State v} (hs : Running app rank m Z s.registry) (o : Except Panic (g'.Result v.Inst)) :
    ∃ s' o' l, Works app d (s, frame.concluded o) l (s', stack.concluded o') ∧
      Running app rank m Z s'.registry := by
  have hd' : d < stack.depth + 1 := Nat.lt_succ_of_lt hd
  cases o with
  | ok a =>
    have hafter := hs.step (t := .exec (.done a) frame) (Thread.storesBelow_of_ne_call nofun)
    cases h with
    | building | producing | holding | guarding =>
      obtain ⟨s', o, l, hworks, hs'⟩ := hnext _ _ hafter
      exact ⟨s', o, _, .head hworks hd', hs'⟩
  | error p =>
    have hafter := hs.step (t := .unwind p frame) (Thread.storesBelow_of_ne_call nofun)
    cases h with
    | building | producing | holding => exact ⟨_, .error p, _, .head (.refl _) hd', hafter⟩
    | guarding =>
      obtain ⟨s', o, l, hworks, hs'⟩ := hnext _ _ hafter
      exact ⟨s', o, _, .head hworks hd', hs'⟩

/-- Ranked code comes to its end, if ranked code and teardowns with less of a backlog do. -/
theorem codeEnds_of_less {N : Multiset ℕ}
    (hless : ∀ N', N'.IsDershowitzMannaLT N → CodeEnds app rank N' ∧ WalkEnds app rank N') :
    CodeEnds app rank N := by
  intro m g code h Z hZ stack d hd s hs
  induction h generalizing s with
  | done a => exact ⟨s, .ok a, [], .refl _, hs⟩
  | panic p => exact ⟨s, .error p, _, .head (.refl _) hd, hs⟩
  | note x _ ih =>
    obtain ⟨s', o, l, hworks, hs'⟩ := ih hZ stack hd (s := s.write stack.depth (.note x)) hs
    exact ⟨s', o, _, .head hworks hd, hs'⟩
  | access change _ ih =>
    obtain ⟨s', o, l, hworks, hs'⟩ :=
      ih s.world hZ stack hd (s := { s with world := change s.world }) hs
    exact ⟨s', o, _, .head hworks hd, hs'⟩
  | @call m g q hlower hhook hlower' hproducer next _ _ _ ih =>
    have hleft := hs.step (t := .exec (.call q next) stack)
      (Thread.storesBelow_call (fun n k hq => ⟨hlower n k hq, hhook n k hq⟩)
        fun n p hq => ⟨hlower' n p hq, hproducer n p hq⟩)
    obtain ⟨s', o, l, hworks, hs'⟩ := ih _ hZ stack hd hleft
    exact ⟨s', o, _, .head hworks hd, hs'⟩
  | @lookup m g n early next _ ih =>
    obtain ⟨s₁, t, hhooks, hanswer, ⟨hstore, a, rfl⟩ | ⟨p, hp, hstore, rfl⟩⟩ :=
      works_lookup app s n early next hd
    · have hleft := hs.of_within (hs.ranked.congr hhooks hstore)
        (.inl (backlog_congr hhooks hstore))
      obtain ⟨s', o, l, hworks, hs'⟩ := ih a hZ stack hd hleft
      exact ⟨s', o, _, hanswer.trans hworks, hs'⟩
    · -- the producer has taken its rank out of the backlog
      have hbacklog : backlog rank s.registry = _ := backlog_fetch hp hhooks hstore
      have hproducer : Running app rank (rank .producer p) (backlog rank s₁.registry) s₁.registry :=
        .start (hs.ranked.fetch hhooks hstore)
      obtain ⟨s₂, o₂, l₂, hbody, hs₂⟩ := (hless _ (Within.lt_trans hs.lt hZ)).1
        (hs.ranked.producers n p hp) (.inl hbacklog.symm) (.producing n next stack)
        (Nat.lt_succ_of_lt hd) hproducer
      have hleft := hs.of_within hs₂.ranked (.inr (hbacklog ▸ hs₂.lt))
      obtain ⟨s', o, l, hworks, hs'⟩ := (Stack.Waits.producing n next).ends hd
        (fun a s hs => ih a hZ stack hd hs) hleft o₂
      exact ⟨s', o, _, hanswer.trans (hbody.trans hworks), hs'⟩
  | @create m g n c _ next _ ihc ih =>
    obtain ⟨s₁, t, hhooks, hstore, hanswer, ht⟩ := works_create app s n c next hd
    have hleft := hs.of_within (hs.ranked.congr hhooks hstore) (.inl (backlog_congr hhooks hstore))
    obtain ⟨a, rfl⟩ | ⟨outermost, rfl⟩ := ht
    · obtain ⟨s', o, l, hworks, hs'⟩ := ih a hZ stack hd hleft
      exact ⟨s', o, _, hanswer.trans hworks, hs'⟩
    · obtain ⟨s₂, o₂, l₂, hbody, hs₂⟩ :=
        ihc hZ (.building n outermost next stack) (Nat.lt_succ_of_lt hd) hleft
      obtain ⟨s', o, l, hworks, hs'⟩ := (Stack.Waits.building n outermost next).ends hd
        (fun a s hs => ih a hZ stack hd hs) hs₂ o₂
      exact ⟨s', o, _, hanswer.trans (hbody.trans hworks), hs'⟩
  | @destroy m g n next _ ih =>
    obtain ⟨s₁, l₁, hwalk, hranked, hwithin⟩ := (hless _ (Within.lt_trans hs.lt hZ)).2.calling
      hs.ranked (.refl _) (.one n) next (Nat.le_of_lt hd)
    obtain ⟨s', o, l, hworks, hs'⟩ := ih hZ stack hd (hs.of_within hranked hwithin)
    exact ⟨s', o, _, .head (hwalk.trans hworks) hd, hs'⟩
  | @destroyAll m g next _ ih =>
    obtain ⟨s₁, l₁, hwalk, hranked, hwithin⟩ := (hless _ (Within.lt_trans hs.lt hZ)).2.calling
      hs.ranked (.refl _) .all next (Nat.le_of_lt hd)
    obtain ⟨s', o, l, hworks, hs'⟩ := ih hZ stack hd (hs.of_within hranked hwithin)
    exact ⟨s', o, _, .head (hwalk.trans hworks) hd, hs'⟩
  | @hold m g b _ next _ ihb ih =>
    obtain ⟨s₁, o₁, l₁, hblock, hs₁⟩ := ihb hZ (.holding next stack) (Nat.lt_succ_of_lt hd) hs
    obtain ⟨s', o, l, hworks, hs'⟩ := (Stack.Waits.holding next).ends hd
      (fun a s hs => ih a hZ stack hd hs) hs₁ o₁
    exact ⟨s', o, _, .head (hblock.trans hworks) hd, hs'⟩
  | @guard m g b _ next _ ihb ih =>
    obtain ⟨s₁, o₁, l₁, hblock, hs₁⟩ := ihb hZ (.guarding next stack) (Nat.lt_succ_of_lt hd) hs
    obtain ⟨s', o, l, hworks, hs'⟩ := (Stack.Waits.guarding next).ends hd
      (fun a s hs => ih a hZ stack hd hs) hs₁ o₁
    exact ⟨s', o, _, .head (hblock.trans hworks) hd, hs'⟩

/-- A task that begins no hook changes the registry and puts its subtasks in front of the others. -/
theorem Teardown.step_walk (app : Application v) (s : State v) {task : Task v}
    (htask : task.hook? = none) (rest : List (Task v)) {g : Goal}
    (next : Code v (g.Result v.Inst)) (stack : Stack v g) :
    ∃ s', Thread.step app s (.walk (task :: rest) next stack) =
        (s', .walk (task.subtasks s.registry ++ rest) next stack) ∧
      s'.registry = task.effect s.registry := by
  cases task with
  | hook n k => cases htask
  | destroy n =>
    refine ⟨_, rfl, ?_⟩
    unfold Task.effect
    split <;> rfl
  | parts n | scrub n | reset => exact ⟨_, rfl, rfl⟩

/-- A teardown comes to its end, if ranked code with the same backlog does, and teardowns with less
of a backlog do. -/
theorem walkEnds_of_less {N : Multiset ℕ} (hcode : CodeEnds app rank N)
    (hless : ∀ N', N'.IsDershowitzMannaLT N → WalkEnds app rank N') : WalkEnds app rank N := by
  intro s todo hranked hwaiting hN g next stack d hd
  have hd' : d < stack.depth + 1 := Nat.lt_succ_of_le hd
  generalize hr : s.registry = r at hranked hN
  induction r, todo using Teardown.course.induct generalizing s with
  | case1 r =>
    refine ⟨s, _, .head (.refl _) hd', hr ▸ hranked, ?_⟩
    rw [hr]
    exact (add_zero (backlog rank r)) ▸ hN
  | case2 r task rest ih =>
    subst hr
    cases htask : task.hook? with
    | none =>
      obtain ⟨s₁, hstep, hs₁⟩ := Teardown.step_walk app s htask rest next stack
      have hleft := hranked.step (m := 0) (t := .walk (task :: rest) next stack)
        Thread.storesBelow_walk
      rw [hstep, hs₁] at hleft
      have hjoined : ∀ n k, .hook n k ∈ task.subtasks s.registry ++ rest →
          (app.body k).Ranked app rank (rank .hook k) := by
        intro n k hk
        obtain hk | hk := List.mem_append.mp hk
        · exact hranked.hooks n k (Task.hook_mem_subtasks.mp hk).2
        · exact hwaiting n k (List.mem_cons_of_mem _ hk)
      obtain ⟨s', l, hworks, hs'⟩ := ih hjoined hs₁ hleft
        ((Within.of_le (backlog_effect_le _ htask rest)).trans hN)
      exact ⟨s', _, .head (hstep ▸ hworks) hd', hs'⟩
    | some hook =>
      obtain ⟨n, k, rfl⟩ : ∃ n k, task = .hook n k := by
        cases task <;> cases htask
        exact ⟨_, _, rfl⟩
      have hsplit : waiting rank (.hook n k :: rest) = {rank .hook k} + waiting rank rest := rfl
      rw [hsplit, ← add_assoc] at hN
      -- the rank of the hook is taken out of the backlog while the hook is run
      have hrunning : Running app rank (rank .hook k) (backlog rank s.registry) s.registry :=
        .start hranked
      obtain ⟨s₁, o, l₁, hbody, hs₁⟩ := hcode (hwaiting n k List.mem_cons_self)
        ((Within.of_le (Multiset.le_add_right ..)).trans hN) (.tearing n rest next stack) hd'
        hrunning
      have hlt : (backlog rank s₁.registry + waiting rank rest).IsDershowitzMannaLT N :=
        Within.lt_trans (Within.lt_add_right hs₁.lt _) hN
      obtain ⟨s', l, hworks, hranked', hs'⟩ := hless _ hlt
        (s := s₁.report stack.depth (Teardown.verdict n o)) hs₁.ranked
        (fun n k hk => hwaiting n k (List.mem_cons_of_mem _ hk)) (.refl _) next stack hd
      have hend : Works app d (s₁, (Stack.tearing n rest next stack).concluded o) l
          (s', .exec next stack) :=
        .of_step (Teardown.step_concluded ..) (by cases o <;> rfl) hworks (by cases o <;> exact hd')
      exact ⟨s', _, .head (hbody.trans hend) hd', hranked', hs'.trans (.inr hlt)⟩

/-- Ranked code and teardowns come to their ends, whatever the backlog. -/
theorem ends_of_backlog (app : Application v) (rank : (g : Goal) → v.Closure g → ℕ)
    (N : Multiset ℕ) : CodeEnds app rank N ∧ WalkEnds app rank N := by
  refine Multiset.wellFounded_isDershowitzMannaLT.induction
    (C := fun N => CodeEnds app rank N ∧ WalkEnds app rank N) N fun N ih => ?_
  have hcode := codeEnds_of_less ih
  exact ⟨hcode, walkEnds_of_less hcode fun N' hN' => (ih N' hN').2⟩

/-- If the code that is stored in the registry can be ranked, a teardown ends. -/
theorem Teardown.ends_of_ranked {s : State v} (h : app.Ranked rank s.registry) (c : Teardown)
    {g : Goal} (next : Code v (g.Result v.Inst)) (stack : Stack v g) :
    ∃ k, EndsAfter app (s, .exec (c.calling next) stack) k := by
  obtain ⟨s', l, ⟨k, hrun, -, hdeep⟩, -⟩ :=
    WalkEnds.calling (ends_of_backlog app rank _).2 h (.refl _) c next (Nat.le_refl _)
  refine ⟨k + 1, endsAfter_succ_iff.mpr ⟨?_, hdeep⟩⟩
  rw [hrun]
  exact Nat.le_refl _

end Wiring
