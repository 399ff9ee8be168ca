import Wiring.Proofs.Transcript

/-!
# Runs in lockstep

Two applications whose code makes the same requests may still come to different ends. Which ends may
differ is a matter of the goal: here it is a parameter. Run from the same place, the two take the
same steps, write the same lines and make the same of the registry, for as long as neither has got
to an end at which they differ. What waits further down on the stack than both were at first is not
touched by either of them, and stays the same.

## Main definitions

* `Wiring.Code.ending` — code that has come to its end.
* `Wiring.Code.Alike`, `Wiring.Application.Alike` — code that differs in its ends only.
* `Wiring.Stack.Alike`, `Wiring.Thread.Alike` — the same for what waits and what is run.
* `Wiring.Lockstep` — two runs stand at the same place.
* `Wiring.Thread.Parts` — two threads are at ends at which they may differ.

## Main results

* `Wiring.Lockstep.step` — a step keeps the lockstep, unless the threads part.
* `Wiring.Lockstep.run` — the same over runs.
-/

namespace Wiring

variable {v : Vocabulary}

/-! ### Code that differs in its ends -/

/-- Code that has come to its end: it returns, or panics. -/
def Code.ending {α : Type} : Except Panic α → Code v α
  | .ok a => .done a
  | .error p => .panic p

/-- Which ends of two pieces of code may stand for each other, by the goal of the code. -/
abbrev Partings (v : Vocabulary) : Type :=
  (g : Goal) → Except Panic (g.Result v.Inst) → Except Panic (g.Result v.Inst) → Prop

/-- Two pieces of code do the same on the way to their ends, and come to the same end, or to ends
that may stand for each other. -/
inductive Code.Alike {α : Type} (D : Except Panic α → Except Panic α → Prop) :
    Code v α → Code v α → Prop
  | parting {o o' : Except Panic α} (h : D o o') : Alike D (.ending o) (.ending o')
  | done (a : α) : Alike D (.done a) (.done a)
  | panic (p : Panic) : Alike D (.panic p) (.panic p)
  | note (x : v.Note) {next next' : Code v α} (h : Alike D next next') :
      Alike D (.note x next) (.note x next')
  | access (change : v.World → v.World) {next next' : v.World → Code v α}
      (h : ∀ w, Alike D (next w) (next' w)) : Alike D (.access change next) (.access change next')
  | call (q : Request v) {next next' : q.Reply → Code v α} (h : ∀ a, Alike D (next a) (next' a)) :
      Alike D (.call q next) (.call q next')
  | lookup (n : String) (early : Bool) {next next' : Option v.Inst → Code v α}
      (h : ∀ a, Alike D (next a) (next' a)) : Alike D (.lookup n early next) (.lookup n early next')
  | create (n : String) (c : v.Closure .construct) {next next' : Except Error v.Inst → Code v α}
      (h : ∀ a, Alike D (next a) (next' a)) : Alike D (.create n c next) (.create n c next')
  | destroy (n : String) {next next' : Code v α} (h : Alike D next next') :
      Alike D (.destroy n next) (.destroy n next')
  | destroyAll {next next' : Code v α} (h : Alike D next next') :
      Alike D (.destroyAll next) (.destroyAll next')
  | hold (b : v.Closure .block) {next next' : Except Error Unit → Code v α}
      (h : ∀ a, Alike D (next a) (next' a)) : Alike D (.hold b next) (.hold b next')
  | guard (b : v.Closure .block) {next next' : Except Panic (Except Error Unit) → Code v α}
      (h : ∀ a, Alike D (next a) (next' a)) : Alike D (.guard b next) (.guard b next')

namespace Code.Alike

variable {α : Type} {D D' : Except Panic α → Except Panic α → Prop} {c c' : Code v α}

theorem refl (c : Code v α) : c.Alike D c := by
  induction c with
  | done a => exact .done a
  | panic p => exact .panic p
  | note x next ih => exact .note x ih
  | access change next ih => exact .access change ih
  | call q next ih => exact .call q ih
  | lookup n early next ih => exact .lookup n early ih
  | create n c next ih => exact .create n c ih
  | destroy n next ih => exact .destroy n ih
  | destroyAll next ih => exact .destroyAll ih
  | hold b next ih => exact .hold b ih
  | guard b next ih => exact .guard b ih

theorem symm (hD : ∀ o o', D o o' → D' o' o) (h : c.Alike D c') : c'.Alike D' c := by
  induction h with
  | parting h => exact .parting (hD _ _ h)
  | done a => exact .done a
  | panic p => exact .panic p
  | note x _ ih => exact .note x ih
  | access change _ ih => exact .access change ih
  | call q _ ih => exact .call q ih
  | lookup n early _ ih => exact .lookup n early ih
  | create n c _ ih => exact .create n c ih
  | destroy n _ ih => exact .destroy n ih
  | destroyAll _ ih => exact .destroyAll ih
  | hold b _ ih => exact .hold b ih
  | guard b _ ih => exact .guard b ih

/-- Code that returns may stand for code that panics only if the two ends may. -/
theorem of_done_panic {a : α} {p : Panic} (h : (Code.done (v := v) a).Alike D (.panic p)) :
    D (.ok a) (.error p) := by
  generalize hc : Code.done a = c at h
  generalize hc' : Code.panic p = c' at h
  cases h with
  | @parting o o' h =>
    cases o <;> cases o' <;> cases hc <;> cases hc'
    exact h
  | done => cases hc'
  | _ => cases hc

end Code.Alike

/-- Two applications whose closures differ in their ends only. -/
def Application.Alike (D : Partings v) (app app' : Application v) : Prop :=
  ∀ (g : Goal) (c : v.Closure g), (app.body c).Alike (D g) (app'.body c)

/-! ### Stacks and threads that differ in the ends of their code -/

/-- Two stacks are the same up to the depth `d`; above it the same requests wait, and go on with
code that differs in its ends only. -/
inductive Stack.Alike (D : Partings v) (d : Nat) : {g : Goal} → Stack v g → Stack v g → Prop
  | base {g : Goal} (stack : Stack v g) (h : stack.depth ≤ d) : Alike D d stack stack
  | building {g : Goal} (n : String) (outermost : Bool)
      {resume resume' : Except Error v.Inst → Code v (g.Result v.Inst)} {rest rest' : Stack v g}
      (hd : d ≤ rest.depth) (h : ∀ a, (resume a).Alike (D g) (resume' a))
      (hrest : Alike D d rest rest') :
      Alike D d (.building n outermost resume rest) (.building n outermost resume' rest')
  | producing {g : Goal} (n : String)
      {resume resume' : Option v.Inst → Code v (g.Result v.Inst)} {rest rest' : Stack v g}
      (hd : d ≤ rest.depth) (h : ∀ a, (resume a).Alike (D g) (resume' a))
      (hrest : Alike D d rest rest') :
      Alike D d (.producing n resume rest) (.producing n resume' rest')
  | tearing {g : Goal} (n : String) (todo : List (Task v))
      {next next' : Code v (g.Result v.Inst)} {rest rest' : Stack v g}
      (hd : d ≤ rest.depth) (h : next.Alike (D g) next') (hrest : Alike D d rest rest') :
      Alike D d (.tearing n todo next rest) (.tearing n todo next' rest')
  | holding {g : Goal} {resume resume' : Except Error Unit → Code v (g.Result v.Inst)}
      {rest rest' : Stack v g} (hd : d ≤ rest.depth)
      (h : ∀ a, (resume a).Alike (D g) (resume' a)) (hrest : Alike D d rest rest') :
      Alike D d (.holding resume rest) (.holding resume' rest')
  | guarding {g : Goal}
      {resume resume' : Except Panic (Except Error Unit) → Code v (g.Result v.Inst)}
      {rest rest' : Stack v g} (hd : d ≤ rest.depth)
      (h : ∀ a, (resume a).Alike (D g) (resume' a)) (hrest : Alike D d rest rest') :
      Alike D d (.guarding resume rest) (.guarding resume' rest')

/-- Two threads stand at the same place, with code that differs in its ends only. -/
inductive Thread.Alike (D : Partings v) (d : Nat) : Thread v → Thread v → Prop
  | exec {g : Goal} {code code' : Code v (g.Result v.Inst)} {stack stack' : Stack v g}
      (h : code.Alike (D g) code') (hs : stack.Alike D d stack') :
      Alike D d (.exec code stack) (.exec code' stack')
  | seek {g : Goal} (stage : Stage) (n : String) (early : Bool)
      {resume resume' : Option v.Inst → Code v (g.Result v.Inst)} {stack stack' : Stack v g}
      (h : ∀ a, (resume a).Alike (D g) (resume' a)) (hs : stack.Alike D d stack') :
      Alike D d (.seek stage n early resume stack) (.seek stage n early resume' stack')
  | begin {g : Goal} (stage : Stage) (n : String) (c : v.Closure .construct)
      {resume resume' : Except Error v.Inst → Code v (g.Result v.Inst)} {stack stack' : Stack v g}
      (h : ∀ a, (resume a).Alike (D g) (resume' a)) (hs : stack.Alike D d stack') :
      Alike D d (.begin stage n c resume stack) (.begin stage n c resume' stack')
  | walk {g : Goal} (todo : List (Task v)) {next next' : Code v (g.Result v.Inst)}
      {stack stack' : Stack v g} (h : next.Alike (D g) next') (hs : stack.Alike D d stack') :
      Alike D d (.walk todo next stack) (.walk todo next' stack')
  | unwind {g : Goal} (p : Panic) {stack stack' : Stack v g} (hs : stack.Alike D d stack') :
      Alike D d (.unwind p stack) (.unwind p stack')
  | finished (outcome : Except Panic Unit) : Alike D d (.finished outcome) (.finished outcome)

/-- Two threads are at ends of their code that may stand for each other. -/
inductive Thread.Parts (D : Partings v) (d : Nat) : Thread v → Thread v → Prop
  | intro {g : Goal} {o o' : Except Panic (g.Result v.Inst)} {stack stack' : Stack v g}
      (h : D g o o') (hs : stack.Alike D d stack') :
      Parts D d (.exec (.ending o) stack) (.exec (.ending o') stack')

/-- Whether the code that a thread runs has come to its end. -/
def Thread.atEnd : Thread v → Bool
  | .exec (.done _) _ | .exec (.panic _) _ => true
  | .exec .. | .seek .. | .begin .. | .walk .. | .unwind .. | .finished _ => false

variable {D : Partings v} {d : Nat}

theorem Thread.Parts.atEnd {t t' : Thread v} (h : t.Parts D d t') : t.atEnd = true := by
  obtain ⟨h, hs⟩ := h
  rename_i o _ _ _
  cases o <;> rfl

theorem Stack.Alike.depth_eq {g : Goal} {stack stack' : Stack v g} (h : stack.Alike D d stack') :
    stack.depth = stack'.depth := by
  induction h with
  | base => rfl
  | building _ _ _ _ _ ih | producing _ _ _ _ ih | tearing _ _ _ _ _ ih | holding _ _ _ ih
  | guarding _ _ _ ih => exact congrArg Nat.succ ih

/-- Up to the depth `d`, there is no difference. -/
theorem Stack.Alike.eq_of_depth_le {g : Goal} {stack stack' : Stack v g}
    (h : stack.Alike D d stack') (hd : stack.depth ≤ d) : stack = stack' := by
  cases h with
  | base => rfl
  | building _ _ hle | producing _ hle | tearing _ _ hle | holding hle | guarding hle =>
    exact absurd hd (Nat.not_le.mpr (Nat.lt_succ_of_le hle))

theorem Thread.Alike.depth_eq {t t' : Thread v} (h : t.Alike D d t') : t.depth = t'.depth := by
  cases h with
  | exec _ hs | unwind _ hs => exact hs.depth_eq
  | seek _ _ _ _ hs | begin _ _ _ _ hs | walk _ _ hs => exact congrArg Nat.succ hs.depth_eq
  | finished => rfl

/-! ### Steps in lockstep -/

attribute [ext] State

/-- Two runs stand at the same place: what they share with others is the same, except perhaps for
the transcript, and the threads differ in the ends of their code only. -/
structure Lockstep (D : Partings v) (d : Nat) (c c' : State v × Thread v) : Prop where
  registry : c.1.registry = c'.1.registry
  world : c.1.world = c'.1.world
  thread : c.2.Alike D d c'.2

namespace Lockstep

section Steps

variable {r : v.Registry} {w : v.World} {l l' : List (Entry v)} {app app' : Application v}

theorem leave {g : Goal} {stack stack' : Stack v g} (h : stack.Alike D d stack')
    (hd : d < stack.depth) (a : g.Result v.Inst) :
    stack.writes ⟨r, w, l⟩ a = stack'.writes ⟨r, w, l'⟩ a ∧
      Lockstep D d (stack.leave ⟨r, w, l⟩ a) (stack'.leave ⟨r, w, l'⟩ a) := by
  cases h with
  | base _ hle => exact absurd hle (Nat.not_le.mpr hd)
  | building n outermost _ h hrest =>
    refine ⟨?_, by simp [Stack.leave], by simp [Stack.leave], .exec (h _) hrest⟩
    simp only [Stack.writes, hrest.depth_eq]
  | producing n _ h hrest =>
    refine ⟨?_, rfl, rfl, .exec (h _) hrest⟩
    simp only [Stack.writes, hrest.depth_eq]
  | tearing n todo _ h hrest =>
    cases a with
    | ok u =>
      refine ⟨?_, rfl, rfl, .walk todo h hrest⟩
      simp only [Stack.writes, hrest.depth_eq]
    | error reason =>
      refine ⟨?_, rfl, rfl, .walk todo h hrest⟩
      simp only [Stack.writes, hrest.depth_eq]
  | holding _ h hrest => exact ⟨rfl, rfl, rfl, .exec (h _) hrest⟩
  | guarding _ h hrest => exact ⟨rfl, rfl, rfl, .exec (h _) hrest⟩

theorem unwind {g : Goal} {stack stack' : Stack v g} (h : stack.Alike D d stack')
    (hd : d < stack.depth) (p : Panic) :
    stack.unwindWrites p = stack'.unwindWrites p ∧
      Lockstep D d (stack.unwind ⟨r, w, l⟩ p) (stack'.unwind ⟨r, w, l'⟩ p) := by
  cases h with
  | base _ hle => exact absurd hle (Nat.not_le.mpr hd)
  | building n outermost _ h hrest => exact ⟨rfl, rfl, rfl, .unwind p hrest⟩
  | producing n _ h hrest => exact ⟨rfl, rfl, rfl, .unwind p hrest⟩
  | tearing n todo _ h hrest =>
    refine ⟨?_, rfl, rfl, .walk todo h hrest⟩
    simp only [Stack.unwindWrites, hrest.depth_eq]
  | holding _ h hrest => exact ⟨rfl, rfl, rfl, .unwind p hrest⟩
  | guarding _ h hrest => exact ⟨rfl, rfl, rfl, .exec (h _) hrest⟩

theorem seekStep (happ : app.Alike D app') {g : Goal} {stack stack' : Stack v g}
    (hs : stack.Alike D d stack') (hd : d ≤ stack.depth) (n : String) (early : Bool)
    {resume resume' : Option v.Inst → Code v (g.Result v.Inst)}
    (h : ∀ a, (resume a).Alike (D g) (resume' a)) (stage : Stage) :
    Lockstep D d (seekStep app ⟨r, w, l⟩ n early resume stack stage)
      (seekStep app' ⟨r, w, l'⟩ n early resume' stack' stage) := by
  cases stage with
  | reading =>
    simp only [Wiring.seekStep]
    split
    · exact ⟨rfl, rfl, .seek .waiting n early h hs⟩
    · exact ⟨rfl, rfl, .exec (h none) hs⟩
  | waiting => exact ⟨rfl, rfl, .seek .inside n early h hs⟩
  | inside =>
    simp only [Wiring.seekStep]
    split
    · next i _ => exact ⟨rfl, rfl, .exec (h (some i)) hs⟩
    · split <;> split
      · exact ⟨rfl, rfl, .exec (h none) hs⟩
      · next i _ => exact ⟨rfl, rfl, .exec (h (some i)) hs⟩
      · next p store _ => exact ⟨rfl, rfl, .exec (happ _ p) (.producing n hd h hs)⟩
      · exact ⟨rfl, rfl, .exec (h none) hs⟩
      · next i _ => exact ⟨rfl, rfl, .exec (h (some i)) hs⟩

theorem beginStep (happ : app.Alike D app') {g : Goal} {stack stack' : Stack v g}
    (hs : stack.Alike D d stack') (hd : d ≤ stack.depth) (n : String) (c : v.Closure .construct)
    {resume resume' : Except Error v.Inst → Code v (g.Result v.Inst)}
    (h : ∀ a, (resume a).Alike (D g) (resume' a)) (stage : Stage) :
    Lockstep D d (beginStep app ⟨r, w, l⟩ n c resume stack stage)
      (beginStep app' ⟨r, w, l'⟩ n c resume' stack' stage) := by
  cases stage with
  | reading =>
    simp only [Wiring.beginStep]
    split
    · next i _ => exact ⟨rfl, rfl, .exec (h (.ok i)) hs⟩
    · exact ⟨rfl, rfl, .begin .waiting n c h hs⟩
  | waiting => exact ⟨rfl, rfl, .begin .inside n c h hs⟩
  | inside =>
    simp only [Wiring.beginStep]
    split
    · next i _ => exact ⟨rfl, rfl, .exec (h (.ok i)) hs⟩
    · split
      · exact ⟨rfl, rfl, .exec (h _) hs⟩
      · split
        · next e _ => exact ⟨rfl, rfl, .exec (h (.error e)) hs⟩
        · exact ⟨rfl, rfl, .exec (happ _ c) (.building n _ hd h hs)⟩

theorem walkStep (happ : app.Alike D app') {g : Goal} {stack stack' : Stack v g}
    (hs : stack.Alike D d stack') (hd : d ≤ stack.depth) {next next' : Code v (g.Result v.Inst)}
    (h : next.Alike (D g) next') (todo : List (Task v)) :
    Lockstep D d (walkStep app ⟨r, w, l⟩ next stack todo)
      (walkStep app' ⟨r, w, l'⟩ next' stack' todo) := by
  cases todo with
  | nil => exact ⟨rfl, rfl, .exec h hs⟩
  | cons task todo =>
    cases task with
    | destroy n =>
      simp only [Wiring.walkStep]
      split <;> exact ⟨rfl, rfl, .walk _ h hs⟩
    | hook n k => exact ⟨rfl, rfl, .exec (happ _ k) (.tearing n todo hd h hs)⟩
    | parts n => exact ⟨rfl, rfl, .walk _ h hs⟩
    | scrub n => exact ⟨rfl, rfl, .walk _ h hs⟩
    | reset => exact ⟨rfl, rfl, .walk _ h hs⟩

theorem execStep (happ : app.Alike D app') {g : Goal} {stack stack' : Stack v g}
    (hs : stack.Alike D d stack') (hd : d < stack.depth) {code code' : Code v (g.Result v.Inst)}
    (h : code.Alike (D g) code') :
    (Thread.exec code stack).Parts D d (.exec code' stack') ∨
      execWrites ⟨r, w, l⟩ stack code = execWrites ⟨r, w, l'⟩ stack' code' ∧
      Lockstep D d (execStep app ⟨r, w, l⟩ stack code) (execStep app' ⟨r, w, l'⟩ stack' code') := by
  cases h with
  | parting h => exact .inl ⟨h, hs⟩
  | done a => exact .inr (leave hs hd a)
  | panic p => exact .inr ⟨rfl, rfl, rfl, .unwind p hs⟩
  | note x h =>
    refine .inr ⟨?_, rfl, rfl, .exec h hs⟩
    simp only [execWrites, hs.depth_eq]
  | access change h => exact .inr ⟨rfl, rfl, rfl, .exec (h w) hs⟩
  | call q h =>
    refine .inr ⟨?_, ?_, ?_, .exec (h _) hs⟩
    · simp only [execWrites, hs.depth_eq]
    · simp [Wiring.execStep]
    · simp [Wiring.execStep]
  | lookup n early h =>
    refine .inr ⟨rfl, ?_⟩
    simp only [Wiring.execStep]
    split
    · next i _ => exact ⟨rfl, rfl, .exec (h (some i)) hs⟩
    · exact ⟨rfl, rfl, .seek .reading n early h hs⟩
  | create n c h =>
    refine .inr ⟨rfl, ?_⟩
    simp only [Wiring.execStep]
    split
    · next e _ => exact ⟨rfl, rfl, .exec (h (.error e)) hs⟩
    · exact ⟨rfl, rfl, .begin .reading n c h hs⟩
  | destroy n h => exact .inr ⟨rfl, rfl, rfl, .walk _ h hs⟩
  | destroyAll h =>
    refine .inr ⟨?_, rfl, rfl, .walk _ h hs⟩
    simp only [execWrites, hs.depth_eq]
  | hold b h => exact .inr ⟨rfl, rfl, rfl, .exec (happ _ b) (.holding (Nat.le_of_lt hd) h hs)⟩
  | guard b h => exact .inr ⟨rfl, rfl, rfl, .exec (happ _ b) (.guarding (Nat.le_of_lt hd) h hs)⟩

end Steps

variable {app app' : Application v} {c c' : State v × Thread v}

/-- As long as two threads are deeper than at first and have not parted, a step keeps them in
lockstep, and both write the same line. -/
theorem step (happ : app.Alike D app') (h : Lockstep D d c c') (hd : d < c.2.depth) :
    c.2.Parts D d c'.2 ∨ c.2.writes c.1 = c'.2.writes c'.1 ∧
      Lockstep D d (c.2.step app c.1) (c'.2.step app' c'.1) := by
  obtain ⟨⟨r, w, l⟩, t⟩ := c
  obtain ⟨⟨r', w', l'⟩, t'⟩ := c'
  obtain ⟨hr, hw, ht⟩ := h
  obtain rfl : r = r' := hr
  obtain rfl : w = w' := hw
  cases ht with
  | exec h hs => exact execStep happ hs hd h
  | seek stage n early h hs =>
    refine .inr ⟨?_, seekStep happ hs (Nat.le_of_lt_succ hd) n early h stage⟩
    simp only [Thread.writes, hs.depth_eq]
    cases stage <;> rfl
  | begin stage n k h hs =>
    refine .inr ⟨?_, beginStep happ hs (Nat.le_of_lt_succ hd) n k h stage⟩
    simp only [Thread.writes, hs.depth_eq]
    cases stage <;> rfl
  | walk todo h hs =>
    refine .inr ⟨?_, walkStep happ hs (Nat.le_of_lt_succ hd) h todo⟩
    simp only [Thread.writes, hs.depth_eq]
    cases todo with
    | nil => rfl
    | cons task todo => cases task <;> rfl
  | unwind p hs => exact .inr (unwind hs hd p)
  | finished outcome => exact .inr ⟨rfl, rfl, rfl, .finished outcome⟩

/-- Two runs from one state are in the same state for as long as they have not parted. -/
theorem run (happ : app.Alike D app') (h : Lockstep D d c c') (hs : c.1 = c'.1) {j : Nat}
    (hdeep : ∀ i < j, d < (run app i c).2.depth)
    (hfirst : ∀ i < j, ¬ (run app i c).2.Parts D d (run app' i c').2) :
    (run app j c).1 = (run app' j c').1 ∧ Lockstep D d (run app j c) (run app' j c') := by
  induction j with
  | zero => exact ⟨hs, h⟩
  | succ j ih =>
    obtain ⟨heq, hlock⟩ := ih (fun i hi => hdeep i (Nat.lt_succ_of_lt hi))
      fun i hi => hfirst i (Nat.lt_succ_of_lt hi)
    obtain hparts | ⟨hwrites, hnext⟩ := hlock.step happ (hdeep j (Nat.lt_succ_self j))
    · exact absurd hparts (hfirst j (Nat.lt_succ_self j))
    · rw [run_succ_last, run_succ_last]
      refine ⟨State.ext hnext.registry hnext.world ?_, hnext⟩
      rw [Thread.transcript_step, Thread.transcript_step, hwrites, heq]

end Lockstep

end Wiring
