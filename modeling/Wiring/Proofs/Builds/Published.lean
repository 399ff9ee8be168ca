import Wiring.Proofs.Alteration
import Wiring.Proofs.Builds.Frames
import Wiring.Proofs.Builds.Stranded

/-!
# Published early references

During a build of `n` an early reference of `n` can be published. From then on, until the build
ends, `n` is final, or something is staged for it, or a lookup is running the producer; nothing can
come in between but a purge of `n`, the end of a build of `n`, or a panic that leaves the producer.
Since the build holds the lock of the registry, no other thread can get in the way.

That does not mean that a lookup finds it. A lookup consults the early tier for marked names only,
and a build of a name that is excluded from tracking sets no mark, although an early reference may
be published for it. So the early reference of an excluded name is out of reach: the lookup finds
nothing, and resolving the name begins a second construct of it.

## Main definitions

* `Wiring.Thread.Withdraws`, `Wiring.Pool.Undisturbed` — what can take an early reference away.
* `Wiring.Pool.Published` — a thread is in a build of a name whose early reference is published.
* `Wiring.ProducerReturns` — the producer of an early reference returns, and does nothing else.

## Main results

* `Wiring.Pool.Published.run` — an early reference stays published.
* `Wiring.Leads.lookup_published` — a lookup of a marked name finds it.
* `Wiring.Pool.published_found_iff_marked` — who finds a published early reference, over all runs.
* `Wiring.Sample.constructBegun_unmarked` — a second construct of a name that is being built.
-/

namespace Wiring

variable {v : Vocabulary}

/-! ### What takes an early reference away -/

/-- The next step of a thread purges `n`, ends a build of `n`, or lets a panic leave the producer of
an early reference of `n`. -/
inductive Thread.Withdraws (n : String) : Thread v → Prop
  | purge {t : Thread v} (h : t.Purges n) : Withdraws n t
  | returned {g : Goal} {outermost : Bool} (a : Except Error v.Inst)
      (resume : Except Error v.Inst → Code v (g.Result v.Inst)) (rest : Stack v g) :
      Withdraws n (.exec (g := .construct) (.done a) (.building n outermost resume rest))
  | abandoned {g : Goal} {outermost : Bool} (p : Panic)
      (resume : Except Error v.Inst → Code v (g.Result v.Inst)) (rest : Stack v g) :
      Withdraws n (.unwind p (.building n outermost resume rest))
  | lost {g : Goal} (p : Panic) (resume : Option v.Inst → Code v (g.Result v.Inst))
      (rest : Stack v g) : Withdraws n (.unwind p (.producing n resume rest))

/-- No step of a schedule withdraws `n`. -/
def Pool.Undisturbed (app : Application v) (n : String) : Pool v → List Nat → Prop
  | _, [] => True
  | p, i :: rest => (∀ t, p.Takes i t → ¬ t.Withdraws n) ∧ Undisturbed app n (p.step app i) rest

/-- Something is staged for `n`, or it is final. -/
def Store.Holds {ι φ : Type} (s : Store ι φ) (n : String) : Prop :=
  s.final? n ≠ none ∨ s.isStaged n = true

/-- Only few changes can take away what the tiers hold for a name. -/
theorem Store.Holds.apply {ι φ : Type} {s : Store ι φ} {n : String} (h : s.Holds n)
    {c : Change ι φ} (hfetch : c ≠ .fetch n) (hremove : c ≠ .remove n) (hdiscard : c ≠ .discard n)
    (hclear : c ≠ .clear) : (c.apply s).Holds n := by
  unfold Holds at h ⊢
  cases c with
  | keep => exact h
  | put m i =>
    rw [Change.apply, final?_put, isStaged_put]
    by_cases hmn : m = n
    · simp [hmn]
    · simpa [hmn] using h
  | offer m q =>
    rw [Change.apply, final?_offer, isStaged_offer]
    exact h.imp_right fun hs => by simp [hs]
  | fetch m =>
    have hmn : m ≠ n := fun he => hfetch (he ▸ rfl)
    refine h.imp_right fun hs => ?_
    simpa [Change.apply, Store.fetch, isStaged, Table.contains_erase, hmn] using hs
  | memoize m i =>
    rw [Change.apply, final?_memoize, isStaged_memoize]
    exact h.imp_right fun hs => by simp [hs]
  | remove m =>
    have hmn : m ≠ n := fun he => hremove (he ▸ rfl)
    rw [Change.apply, final?_remove, isStaged_remove]
    simpa [hmn] using h
  | discard m =>
    have hmn : m ≠ n := fun he => hdiscard (he ▸ rfl)
    rw [Change.apply, final?_discard, isStaged_discard]
    simpa [hmn] using h
  | clear => exact absurd rfl hclear

namespace Thread

/-- What is staged for a name is discarded only at the end of a build of that name. -/
theorem withdraws_of_discard {s : State v} {t : Thread v} {n : String}
    (h : t.storeChange s = .discard n) : t.Withdraws n := by
  cases t with
  | exec code stack =>
    cases code with
    | done a =>
      cases stack with
      | building m outermost resume rest =>
        have hsettle : s.registry.settleChange m outermost a = .discard n := h
        unfold Registry.settleChange at hsettle
        split at hsettle <;> cases hsettle
        exact .returned a resume rest
      | _ => cases h
    | call q next =>
      have hq : q.storeChange s.registry = .discard n := h
      cases q with
      | register m i =>
        simp only [Request.storeChange] at hq
        split at hq <;> cases hq
      | publish m f =>
        simp only [Request.storeChange] at hq
        split at hq <;> cases hq
      | _ => cases hq
    | _ => cases h
  | seek stage m early resume stack =>
    cases stage with
    | inside =>
      simp only [storeChange] at h
      split at h <;> cases h
    | _ => cases h
  | walk todo next stack =>
    cases todo with
    | nil => cases h
    | cons task todo => cases task <;> cases h
  | unwind p stack =>
    cases stack with
    | building m outermost resume rest =>
      cases h
      exact .abandoned p resume rest
    | _ => cases h
  | begin | finished => cases h

/-- When a producer has been taken out, the thread runs it. -/
theorem producing_of_fetch (app : Application v) {s : State v} {t : Thread v} {n : String}
    (h : t.storeChange s = .fetch n) : Frame.producing n ∈ (t.step app s).2.frames := by
  have hcause := t.cause_storeChange s
  rw [h] at hcause
  cases hcause with
  | @fetch _ _ early resume stack hf =>
    simp only [storeChange, hf] at h
    split at h
    · next f rest _ he hs =>
      have hstep : ((Thread.seek .inside n early resume stack).step app s).2 =
          .exec (app.body f) (.producing n resume stack) := by
        simp only [step, seekStep, hf, he, if_true, hs]
      rw [hstep]
      exact List.mem_cons_self
    · cases h

/-- A build of `n` stays open unless a step withdraws `n`. -/
theorem building_stays (app : Application v) {s : State v} {t : Thread v} {n : String}
    (hf : .building n ∈ t.frames) (hw : ¬ t.Withdraws n) :
    .building n ∈ (t.step app s).2.frames := by
  refine (frame_stays_or app hf).resolve_right ?_
  rintro ⟨g, stack, l, hl, ⟨a, rfl⟩ | ⟨p, rfl⟩⟩
  · cases stack with
    | building =>
      cases hl
      exact hw (.returned ..)
    | _ => cases hl
  · cases stack with
    | building =>
      cases hl
      exact hw (.abandoned ..)
    | _ => cases hl

/-- While a lookup of `n` runs the producer, a step that does not withdraw `n` leaves it running, or
takes up its product. -/
theorem producing_stays_or (app : Application v) {s : State v} {t : Thread v} {n : String}
    (hf : .producing n ∈ t.frames) (hw : ¬ t.Withdraws n) :
    .producing n ∈ (t.step app s).2.frames ∨ ∃ i, t.storeChange s = .memoize n i := by
  refine (frame_stays_or app hf).imp_right ?_
  rintro ⟨g, stack, l, hl, ⟨a, rfl⟩ | ⟨p, rfl⟩⟩
  · cases stack with
    | producing =>
      cases hl
      exact ⟨a, rfl⟩
    | _ => cases hl
  · cases stack with
    | producing =>
      cases hl
      exact absurd (.lost ..) hw
    | _ => cases hl

/-- While `n` is final, staged, or being produced, it stays so if no step withdraws it. -/
theorem holds_or_producing_step (app : Application v) {s : State v} {t : Thread v} {n : String}
    (h : s.registry.store.Holds n ∨ .producing n ∈ t.frames) (hw : ¬ t.Withdraws n) :
    (t.step app s).1.registry.store.Holds n ∨ .producing n ∈ (t.step app s).2.frames := by
  by_cases hfetch : t.storeChange s = .fetch n
  · exact .inr (producing_of_fetch app hfetch)
  rw [store_step]
  rcases h with h | h
  · refine .inl (h.apply hfetch ?_ (fun hc => hw (withdraws_of_discard hc)) ?_)
    · intro hc
      have hcause := t.cause_storeChange s
      rw [hc] at hcause
      cases hcause with
      | remove hn => exact hw (.purge hn)
    · intro hc
      have hcause := t.cause_storeChange s
      rw [hc] at hcause
      cases hcause with
      | clear hn => exact hw (.purge (hn n))
  · refine (producing_stays_or app h hw).symm.imp_left ?_
    rintro ⟨i, hc⟩
    rw [hc, Store.Change.apply]
    exact .inr (by simp [Store.isStaged_memoize])

end Thread

/-! ### Early references stay published -/

/-- An early reference that is taken is staged. -/
theorem Registry.isStaged_publish {ι φ η : Type} {r : Registry ι φ η} {n : String} {f : φ}
    (h : (r.publish n f).reply = true) : (r.publish n f).registry.store.isStaged n = true := by
  unfold publish at h ⊢
  split at h
  · cases h
  · next hc =>
    split at h
    · cases h
    · next hm =>
      have hfinal : r.store.isFinal n = false := by
        cases hf : r.store.isFinal n with
        | false => rfl
        | true => simp [Store.offer, hf] at h
      rw [if_neg hc, if_neg hm, Store.isStaged_offer, hfinal]
      simp

namespace Pool

/-- Thread `i` is in a build of `n`, and `n` is final, or something is staged for it, or a lookup of
the thread is running the producer of an early reference of `n`. -/
structure Published (p : Pool v) (i : Nat) (n : String) (t : Thread v) : Prop where
  thread : p.threads[i]? = some t
  building : .building n ∈ t.frames
  held : p.store.Holds n ∨ .producing n ∈ t.frames

/-- An early reference stays published as long as no step withdraws it. -/
theorem Published.run (app : Application v) {p : Pool v} (hp : p.Serial) {i : Nat} {n : String}
    {t : Thread v} (h : p.Published i n t) {schedule : List Nat}
    (hm : Undisturbed app n p schedule) : ∃ t', (p.run app schedule).Published i n t' := by
  induction schedule generalizing p t with
  | nil => exact ⟨t, h⟩
  | cons j rest ih =>
    suffices hnext : ∃ t', (p.step app j).Published i n t' by
      obtain ⟨t', h'⟩ := hnext
      exact ih (serial_step app hp j) h' hm.2
    obtain ⟨hi, hbuilding, hheld⟩ := h
    by_cases hj : ∃ u, p.Takes j u
    · obtain ⟨u, hu⟩ := hj
      have hw := hm.1 u hu
      rw [step_of_takes app hu]
      by_cases hji : j = i
      · subst hji
        obtain rfl : u = t := Option.some.inj (hu.1.symm.trans hi)
        have hlt := (List.getElem?_eq_some_iff.mp hi).1
        exact ⟨_, List.getElem?_set_self hlt, u.building_stays app hbuilding hw,
          u.holds_or_producing_step app hheld hw⟩
      · -- the lock keeps the other threads from the tiers
        have hkeep := storeChange_of_others hp hi (Thread.holdsLock_of_building hbuilding) hu hji
        refine ⟨t, by rw [List.getElem?_set_ne hji, hi], hbuilding, ?_⟩
        rw [store, u.store_step app p.state, hkeep]
        exact hheld
    · rw [step_of_not_takes app (not_exists.mp hj)]
      exact ⟨t, hi, hbuilding, hheld⟩

/-- An early reference that is taken in a build of its name is published. -/
theorem published_of_takes (app : Application v) {p : Pool v} {i : Nat} {g : Goal} {n : String}
    {f : v.Closure .producer} {next : Bool → Code v (g.Result v.Inst)} {stack : Stack v g}
    (ht : p.Takes i (.exec (.call (.publish n f) next) stack))
    (ho : (Thread.exec (.call (.publish n f) next) stack).occurrence p.state =
      some (.answered (.publish n f) true))
    (hopen : .building n ∈ stack.frames) : ∃ t, (p.step app i).Published i n t := by
  obtain ⟨-, -, -, -, hreply⟩ := Thread.calling_of_answered ho
  have hregistry : ((Thread.exec (.call (.publish n f) next) stack).step app p.state).1.registry =
      (p.state.registry.publish n f).registry := State.registry_after ..
  refine ⟨_, getElem?_step_self app ht, hopen, .inl (.inr ?_)⟩
  rw [step_of_takes app ht, store, hregistry]
  exact Registry.isStaged_publish hreply.symm

end Pool

/-! ### Lookups of published names -/

/-- The producer `f` of an early reference of `n`, when it is run for a lookup that goes on with
`next` on `stack`, returns `i`. It makes no request that is answered, and leaves the registry as it
is. -/
def ProducerReturns (app : Application v) (s : State v) (n : String) (f : v.Closure .producer)
    {g : Goal} (next : Option v.Inst → Code v (g.Result v.Inst)) (stack : Stack v g) (i : v.Inst) :
    Prop :=
  let fetched := (s.withRegistry { s.registry with store := s.registry.store.fetch n }).report
    stack.depth (.producing n)
  ∃ s', Leads app (fetched, .exec (app.body f) (.producing n next stack)) []
      (s', .exec (g := .producer) (.done i) (.producing n next stack)) ∧
    s'.registry = fetched.registry

namespace Thread

/-- A lookup that has the lock finds something if the tiers hold something for the name. -/
theorem not_found_none_of_holds {s : State v} {g : Goal} {n : String}
    {next : Option v.Inst → Code v (g.Result v.Inst)} {stack : Stack v g}
    (hc : s.registry.options.circular = true) (h : s.registry.store.Holds n) :
    (Thread.seek .inside n true next stack).occurrence s ≠ some (.found n none) := by
  cases hf : s.registry.store.final? n with
  | some x => simp [occurrence, seekOccurrence, hf]
  | none =>
    have hstaged : s.registry.store.isStaged n = true := h.resolve_left fun hne => hne hf
    cases he : s.registry.store.early? n with
    | some x => simp [occurrence, seekOccurrence, hf, hc, Store.seek, he]
    | none =>
      cases hfind : s.registry.store.producers.find? n with
      | some f => simp [occurrence, seekOccurrence, hf, hc, Store.seek, he, hfind]
      | none => simp [Store.isStaged_eq_false_iff.mpr ⟨he, hfind⟩] at hstaged

/-- No construct is begun of a name that is marked and not excluded. -/
theorem not_constructBegun_of_marked {s : State v} {n : String}
    (hm : s.registry.marks.isMarked n = true) (hx : s.registry.marks.isExcluded n = false)
    (t : Thread v) : t.occurrence s ≠ some (.constructBegun n) := by
  intro h
  obtain ⟨g, c, next, stack, rfl, hf, hdown⟩ := begin_of_constructBegun h
  simp [occurrence, beginOccurrence, hf, hdown, Registry.openBuild_of_marked hm hx] at h

end Thread

namespace Leads

variable {app : Application v} {s : State v} {g : Goal} {n : String} {stack : Stack v g}
  {next : Option v.Inst → Code v (g.Result v.Inst)}

/-- A lookup of a marked name whose producer returns is answered with the product. -/
theorem lookup_returning {f : v.Closure .producer} {i : v.Inst}
    (hc : s.registry.options.circular = true) (hf : s.registry.store.final? n = none)
    (hm : s.registry.marks.isMarked n = true) (he : s.registry.store.early? n = none)
    (hfind : s.registry.store.producers.find? n = some f)
    (hp : ProducerReturns app s n f next stack i) :
    ∃ s', Leads app (s, .exec (.lookup n true next) stack) [.found n (some i)]
        (s', .exec (next (some i)) stack) ∧ s'.registry.store.early? n = some i := by
  have hseek : s.registry.store.seek n = .pending f (s.registry.store.fetch n) := by
    simp [Store.seek, he, hfind, Store.fetch]
  obtain ⟨s', hrun, hsame⟩ := hp
  have hmemo : s'.registry.store.memoize n i =
      (i, { s'.registry.store with early := s'.registry.store.early.insert n i }) := by
    have hnone : s'.registry.store.early? n = none := by
      rw [hsame]
      exact he
    simp [Store.memoize, hnone]
  have hfetch : Leads app (s, .seek .inside n true next stack) []
      ((s.withRegistry { s.registry with store := s.registry.store.fetch n }).report stack.depth
        (.producing n), .exec (app.body f) (.producing n next stack)) := by
    refine single ?_ ?_
    · simp [Thread.step, seekStep, hf, hc, hseek]
    · simp [Thread.occurrence, seekOccurrence, hf, hc, hseek]
  have hback : Leads app (s', .exec (g := .producer) (.done i) (.producing n next stack))
      [.found n (some i)] ((s'.withRegistry { s'.registry with
        store := (s'.registry.store.memoize n i).2 }).report stack.depth (.earlyReturned n),
        .exec (next (some i)) stack) := by
    refine single ?_ ?_
    · simp [Thread.step, execStep, Stack.leave, hmemo]
    · simp [Thread.occurrence, execOccurrence, Stack.occurrence, hmemo]
  refine ⟨_, (lookup_marked hf hm).trans (hfetch.trans (hrun.trans hback)), ?_⟩
  simp [hmemo, Store.early?]

/-- A lookup of a marked name for which something is staged finds an early reference, the one that
was found before if there is one. -/
theorem lookup_published (hc : s.registry.options.circular = true)
    (hf : s.registry.store.final? n = none) (hm : s.registry.marks.isMarked n = true)
    (hs : s.registry.store.isStaged n = true)
    (hp : ∀ f, s.registry.store.early? n = none → s.registry.store.producers.find? n = some f →
      ∃ i, ProducerReturns app s n f next stack i) :
    ∃ x s', Leads app (s, .exec (.lookup n true next) stack) [.found n (some x)]
        (s', .exec (next (some x)) stack) ∧
      s'.registry.store.early? n = some x ∧ ∀ e, s.registry.store.early? n = some e → x = e := by
  cases he : s.registry.store.early? n with
  | some e =>
    have hfound : ∃ s', Leads app (s, .exec (.lookup n true next) stack) [.found n (some e)]
        (s', .exec (next (some e)) stack) ∧ s'.registry = s.registry ∧ s'.world = s.world :=
      lookup_early hc hf hm he
    obtain ⟨s', hrun, hr, -⟩ := hfound
    exact ⟨e, s', hrun, by rw [hr, he], fun e' he' => Option.some.inj he'⟩
  | none =>
    cases hfind : s.registry.store.producers.find? n with
    | none => simp [Store.isStaged_eq_false_iff.mpr ⟨he, hfind⟩] at hs
    | some f =>
      obtain ⟨i, hi⟩ := hp f he hfind
      obtain ⟨s', hrun, hearly⟩ := lookup_returning hc hf hm he hfind hi
      exact ⟨i, s', hrun, hearly, nofun⟩

/-- Resolving a name that is neither final nor marked begins a construct of it, whatever is
staged. -/
theorem resolve_begins (app : Application v) (s : State v) {g : Goal} {n : String}
    (c : v.Closure .construct) (next : Except Error v.Inst → Code v (g.Result v.Inst))
    (stack : Stack v g) (hn : n ≠ "") (hf : s.registry.store.final? n = none)
    (ht : s.registry.tearingDown = false) (hm : s.registry.marks.isMarked n = false) :
    ∃ s' outermost, Leads app (s, .exec ((Code.resolve n c).bind next) stack)
      [.found n none, .constructBegun n]
      (s', .exec (app.body c) (.building n outermost next stack)) := by
  obtain ⟨r, hopen, -⟩ := Registry.exists_openBuild_eq_ok (r := s.registry) (n := n) (by simp [hm])
  refine ⟨(s.report stack.depth (.creating n)).withRegistry r, s.registry.suppressed.isNone,
    (resolve_unmarked app stack c next hf hm).trans ((create_inside hn hf).trans (single ?_ ?_))⟩
  · simp [Thread.step, beginStep, hf, ht, hopen]
  · simp [Thread.occurrence, beginOccurrence, hf, ht, hopen]

end Leads

/-! ### Runs -/

theorem Stack.exists_builds_of_building {g : Goal} {stack : Stack v g} {n : String}
    (h : .building n ∈ stack.frames) : ∃ b ∈ stack.builds, b.name = n := by
  induction stack with
  | top => cases h
  | building m outermost resume rest ih =>
    rcases List.mem_cons.mp h with h | h
    · cases h
      exact ⟨_, List.mem_cons_self, rfl⟩
    · obtain ⟨b, hb, hn⟩ := ih h
      exact ⟨b, List.mem_cons_of_mem _ hb, hn⟩
  | _ =>
    rename_i ih
    exact ih ((List.mem_cons.mp h).resolve_left (by simp))

namespace Pool

/-- A single thread comes from `t` to `t'` by steps of its own, and shows `shown` on the way. -/
def Goes (app : Application v) (p : Pool v) (i : Nat) (t : Thread v) (shown : List (Occurrence v))
    (s' : State v) (t' : Thread v) : Prop :=
  ∃ k, p.run app (List.replicate k i) = ⟨s', p.threads.set i t'⟩ ∧
    happened app k (p.state, t) = shown

theorem options_run (app : Application v) (p : Pool v) (schedule : List Nat) :
    (p.run app schedule).state.registry.options = p.state.registry.options :=
  run_induction (P := fun q => q.state.registry.options = p.state.registry.options)
    (fun q _ t _ h => (t.options_step app q.state).trans h) rfl schedule

theorem exists_builds_of_building {p : Pool v} {i : Nat} {t : Thread v} {n : String}
    (ht : p.threads[i]? = some t) (h : .building n ∈ t.frames) : ∃ b ∈ p.builds, b.name = n := by
  have hbuilds : ∃ b ∈ t.builds, b.name = n := by
    cases t with
    | finished outcome => cases h
    | exec | seek | begin | walk | unwind => exact Stack.exists_builds_of_building h
  obtain ⟨b, hb, hn⟩ := hbuilds
  exact ⟨b, List.mem_flatMap.mpr ⟨t, List.mem_of_getElem? ht, hb⟩, hn⟩

/-- While a build of `n` is open whose tracking has been steady, `n` is marked exactly if it is not
excluded. -/
theorem marked_iff_of_steady (app : Application v) {o : Options} {w : v.World}
    {programs : List (Code v Unit)} {schedule : List Nat} {n : String}
    (hs : Steady app n (start (.start o w) programs) schedule)
    (hopen : ∃ b ∈ (reached app o w programs schedule).builds, b.name = n) :
    (reached app o w programs schedule).state.registry.marks.isMarked n = true ↔
      (reached app o w programs schedule).state.registry.marks.isExcluded n = false := by
  have hmirrors := mirrors_reached app o w programs hs
  obtain ⟨b, hb, hn⟩ := hopen
  have hname : n ∈ (episodes app (start (.start o w) programs) schedule).map Episode.name := by
    rw [map_name_episodes, ← hn]
    exact List.mem_map_of_mem hb
  obtain ⟨e, he, hen⟩ := List.mem_map.mp hname
  have htracked := hmirrors.tracked_eq e he hen
  rw [hmirrors.marked_iff]
  constructor
  · intro hmem
    simpa using hmirrors.tracked_eq _ hmem rfl
  · intro hx
    rw [hx] at htracked
    obtain rfl : e = ⟨n, true⟩ := by
      cases e
      simp_all
    exact he

/-- **Published early references.** Programs are run on a fresh registry that allows circular
references, in any order of their steps. In a build of `n`, thread `i` has an early reference of `n`
taken; since then no step has purged `n`, ended a build of `n`, or let a panic leave a producer of
`n`. At such a point of the run:

* the build is open, nobody else holds the lock, and `n` is final, or something is staged for it, or
  the thread is running a producer of `n`;
* if nobody changes the exclusion of `n` while a build of it is open, `n` is marked exactly if it is
  not excluded;
* no second construct of `n` is begun if `n` is marked and not excluded;
* a lookup of `n` by any thread, unless a producer of `n` makes it, finds nothing only if `n` is not
  marked;
* if the thread looks `n` up, and no producer of `n` does so, the lookup is answered by steps of the
  thread that show nothing else. The answer is the final instance if `n` is final. It is the early
  instance if `n` is marked, the same one as ever, provided that the producer returns where it has
  to be run. If `n` is not marked it is that there is nothing;
* if the thread resolves `n`, which is neither final nor marked, and no teardown is under way, a
  second construct of `n` is begun. -/
theorem published_found_iff_marked (app : Application v) (o : Options)
    (hcircular : o.circular = true) (w : v.World) (programs : List (Code v Unit)) (l : List Nat)
    (i : Nat) {g : Goal} {n : String} {f : v.Closure .producer}
    {resume : Bool → Code v (g.Result v.Inst)} {waiting : Stack v g}
    (ht : (reached app o w programs l).Takes i (.exec (.call (.publish n f) resume) waiting))
    (ho : (Thread.exec (.call (.publish n f) resume) waiting).occurrence
      (reached app o w programs l).state = some (.answered (.publish n f) true))
    (hopen : .building n ∈ waiting.frames) (m : List Nat)
    (hm : Undisturbed app n (reached app o w programs (l ++ [i])) m) :
    let p := reached app o w programs (l ++ [i] ++ m)
    (∃ t, p.Published i n t ∧ p.lockedByOther i = false) ∧
    (Steady app n (start (.start o w) programs) (l ++ [i] ++ m) →
      (p.state.registry.marks.isMarked n = true ↔
        p.state.registry.marks.isExcluded n = false)) ∧
    (p.state.registry.marks.isMarked n = true → p.state.registry.marks.isExcluded n = false →
      ∀ j t, p.Takes j t → t.occurrence p.state ≠ some (.constructBegun n)) ∧
    (∀ (j : Nat) (g : Goal) (stage : Stage) (next : Option v.Inst → Code v (g.Result v.Inst))
      (stack : Stack v g), p.Takes j (.seek stage n true next stack) →
      .producing n ∉ stack.frames →
      (Thread.seek stage n true next stack).occurrence p.state = some (.found n none) →
      p.state.registry.marks.isMarked n = false) ∧
    (∀ (g : Goal) (next : Option v.Inst → Code v (g.Result v.Inst)) (stack : Stack v g),
      p.threads[i]? = some (.exec (.lookup n true next) stack) → .producing n ∉ stack.frames →
      (∀ x, p.store.final? n = some x → p.Goes app i (.exec (.lookup n true next) stack)
        [.found n (some x)] p.state (.exec (next (some x)) stack)) ∧
      (p.store.final? n = none → p.state.registry.marks.isMarked n = true →
        (∀ f, p.store.early? n = none → p.store.producers.find? n = some f →
          ∃ x, ProducerReturns app p.state n f next stack x) →
        ∃ x s', p.Goes app i (.exec (.lookup n true next) stack) [.found n (some x)] s'
            (.exec (next (some x)) stack) ∧
          s'.registry.store.early? n = some x ∧ ∀ e, p.store.early? n = some e → x = e) ∧
      (p.store.final? n = none → p.state.registry.marks.isMarked n = false →
        p.Goes app i (.exec (.lookup n true next) stack) [.found n none] p.state
          (.exec (next none) stack))) ∧
    ∀ (g : Goal) (c : v.Closure .construct) (next : Except Error v.Inst → Code v (g.Result v.Inst))
      (stack : Stack v g), p.threads[i]? = some (.exec ((Code.resolve n c).bind next) stack) →
      n ≠ "" → p.store.final? n = none → p.state.registry.marks.isMarked n = false →
      p.state.registry.tearingDown = false →
      ∃ s' outermost, p.Goes app i (.exec ((Code.resolve n c).bind next) stack)
        [.found n none, .constructBegun n] s'
        (.exec (app.body c) (.building n outermost next stack)) := by
  intro p
  have hserial (l : List Nat) : (reached app o w programs l).Serial :=
    serial_run app (serial_start ..) l
  have hp : p = (reached app o w programs (l ++ [i])).run app m := List.foldl_append
  have hcirc : p.state.registry.options.circular = true := by
    rw [show p.state.registry.options = o from options_run ..]
    exact hcircular
  obtain ⟨t, hpublished⟩ : ∃ t, p.Published i n t := by
    obtain ⟨t, h⟩ := published_of_takes app ht ho hopen
    rw [hp]
    exact Published.run app (hserial _) (by rwa [reached_concat]) hm
  have hlock : t.holdsLock = true := Thread.holdsLock_of_building hpublished.building
  have hfree : p.lockedByOther i = false :=
    lockedByOther_of_holdsLock (hserial _) hpublished.thread hlock
  -- a lookup that no producer of `n` makes meets a name that is final or staged
  have hholds {u : Thread v} (hu : p.threads[i]? = some u) (hnot : .producing n ∉ u.frames) :
      p.store.Holds n := by
    obtain rfl : t = u := Option.some.inj (hpublished.thread.symm.trans hu)
    exact hpublished.held.resolve_right hnot
  refine ⟨⟨t, hpublished, hfree⟩, fun hs => ?steady, fun hmark hx _ t _ => ?begun, ?anyone,
    ?lookup, ?resolve⟩
  case steady =>
    exact marked_iff_of_steady app hs
      (exists_builds_of_building hpublished.thread hpublished.building)
  case begun => exact t.not_constructBegun_of_marked hmark hx
  case anyone =>
    intro j g stage next stack hj hnot hfound
    cases stage with
    | reading =>
      cases hmark : p.state.registry.marks.isMarked n with
      | true => simp [Thread.occurrence, seekOccurrence, hmark] at hfound
      | false => rfl
    | waiting => cases hfound
    | inside =>
      -- it holds the lock, so it is the thread with the open build
      have hji : j = i := Classical.byContradiction fun hji => by
        have hfalse := (lockless_of_others (hserial _) hpublished.thread hlock hj hji).1
        simp [Thread.holdsLock] at hfalse
      subst hji
      exact absurd hfound (Thread.not_found_none_of_holds hcirc (hholds hj.1 hnot))
  case lookup =>
    intro g next stack hi hnot
    refine ⟨fun x hf => ?_, fun hf hmark hreturns => ?_, fun hf hmark => ?_⟩
    · exact run_of_leads app hi hfree (.lookup_final hf)
    · have hstaged : p.store.isStaged n = true :=
        (hholds hi hnot).resolve_left fun h => h hf
      obtain ⟨x, s', hrun, hearly, hsame⟩ :=
        Leads.lookup_published hcirc hf hmark hstaged hreturns
      exact ⟨x, s', run_of_leads app hi hfree hrun, hearly, hsame⟩
    · exact run_of_leads app hi hfree (.lookup_unmarked hf hmark)
  case resolve =>
    intro g c next stack hi hn hf hmark hdown
    obtain ⟨s', outermost, hrun⟩ := Leads.resolve_begins app p.state c next stack hn hf hdown hmark
    exact ⟨s', outermost, run_of_leads app hi hfree hrun⟩

end Pool

/-! ### Early references of excluded names -/

namespace Sample

/-- An application whose construct "publishing" publishes an early reference of "n" and resolves "n"
then; the other constructs, and the producers, return at once. -/
def publishing : Application vocabulary where
  body {g} (c : String) :=
    match g with
    | .construct =>
      if c = "publishing" then .call (.publish "n" "early") fun _ => .resolve "n" "again"
      else .done (.ok (5 : Nat))
    | .producer => .done (7 : Nat)
    | .main => .done ()
    | .hook | .block => .done (.ok ())

/-- A program that asks for "n", which may be excluded from tracking. -/
def publishingMain (excluded : Bool) : Code vocabulary Unit := do
  let _ ← .ask (.setExcluded "n" excluded)
  let _ ← .obtainOrCreate "n" "publishing"

/-- A run of that program, after so many steps. -/
def publishingRun (excluded : Bool) (k : Nat) : Pool vocabulary :=
  .reached publishing .default () [publishingMain excluded] (List.replicate k 0)

/-- The construct of a name that is tracked resolves to its early instance. -/
theorem published_found_iff_marked_tracked :
    ∃ x s next stack, (publishingRun false 6).Goes publishing 0
      (.exec (g := .construct) (.lookup "n" true next) stack) [.found "n" (some x)] s
      (.exec (next (some x)) stack) := by
  obtain ⟨-, -, -, -, hlookup, -⟩ := Pool.published_found_iff_marked publishing .default rfl ()
    [publishingMain false] (List.replicate 5 0) 0 ⟨rfl, rfl⟩ rfl List.mem_cons_self [] trivial
  obtain ⟨x, s, hgoes, -⟩ := (hlookup .construct _ _ rfl (by decide)).2.1 rfl rfl
    fun f _ hf => ⟨(7 : Nat), by
      obtain rfl : "early" = f := Option.some.inj hf
      exact ⟨_, .refl _, rfl⟩⟩
  exact ⟨x, s, _, _, hgoes⟩

/-- In a build of "n", which is excluded from tracking, an early reference of "n" is taken, whose
producer returns at once. Nothing withdraws it, but a lookup of "n" finds nothing, and a second
construct of "n" is begun in the build of "n". -/
theorem constructBegun_unmarked :
    (∃ t, (publishingRun true 5).Takes 0 t ∧ .building "n" ∈ t.frames ∧
      t.occurrence (publishingRun true 5).state = some (.answered (.publish "n" "early") true)) ∧
    publishing.body (g := .producer) "early" = .done (7 : Nat) ∧
    Pool.Undisturbed publishing "n" (publishingRun true 6) (List.replicate 5 0) ∧
    (∃ t, (publishingRun true 7).Takes 0 t ∧
      t.occurrence (publishingRun true 7).state = some (.found "n" none)) ∧
    ∃ t, (publishingRun true 11).Takes 0 t ∧ .building "n" ∈ t.frames ∧
      t.occurrence (publishingRun true 11).state = some (.constructBegun "n") := by
  refine ⟨⟨_, ⟨rfl, rfl⟩, List.mem_cons_self, rfl⟩, rfl, ?_, ⟨_, ⟨rfl, rfl⟩, rfl⟩,
    ⟨_, ⟨rfl, rfl⟩, List.mem_cons_self, rfl⟩⟩
  -- the thread looks "n" up, and asks for it
  refine ⟨?_, ?_, ?_, ?_, ?_, trivial⟩ <;>
    · rintro t ⟨ht, -⟩ hw
      obtain rfl := Option.some.inj ht
      cases hw with
      | purge h => cases h

end Sample

end Wiring
