import Wiring.Proofs.Builds.Change
import Wiring.Proofs.Ensures
import Wiring.Proofs.Records.Containment
import Wiring.Proofs.Tiers.Final
import Wiring.Stress.Building

/-!
# The stress run of nested builds passes its checks

However the operations are chosen, the run comes to its end and no check fails. In a chain, builds
of one name may be nested in builds of others and, if the name is excluded from tracking, of
itself; early references may be found, links may fail, and a build may come too late to install its
component. Of all that, little matters to the checks: whether an instance is new is decided by the
number of components allocated so far, every build that was begun is closed with the mark that it
has set, and what a build is answered with is final at that moment. The producers of a chain return
at once, so every lookup comes to an end.

## Main definitions

* `Wiring.Stress.Building.Orderly` — what holds of the registry at all times, within builds too.
* `Wiring.Stress.Building.AtRest` — what holds of it between operations.
* `Wiring.Stress.Building.Yields` — code that keeps the registry orderly.

## Main results

* `Wiring.Stress.Building.yields_build` — what building a chain comes to.
* `Wiring.Stress.Building.ensures_perform`, `Wiring.Stress.Building.ensures_check` — every operation
  passes its checks.
* `Wiring.Stress.Building.performAll_never_panics` — so does every run.
-/

namespace Wiring

/-- There are no duplicates to erase from a list of names. -/
theorem Names.eraseDups_toList (s : Names) : s.toList.eraseDups = s.toList := by
  obtain ⟨l, hl⟩ := s
  change l.eraseDups = l
  induction l with
  | nil => rfl
  | cons n l ih =>
    obtain ⟨hn, hl⟩ := List.nodup_cons.mp hl
    have hkeep : l.filter (fun m => !m == n) = l :=
      List.filter_eq_self.mpr fun m hm => by
        have : m ≠ n := fun h => hn (h ▸ hm)
        simpa using this
    rw [List.eraseDups_cons, hkeep, ih hl]

namespace Stress

theorem name_ne_empty (i : Nat) : name i ≠ "" := by
  have hnames : ∀ n ∈ names, n ≠ "" := by decide
  have hi : i % names.length < names.length := Nat.mod_lt _ (by decide)
  rw [name, ← List.getElem_eq_getD (h := hi)]
  exact hnames _ (List.getElem_mem hi)

namespace Building

/-- No teardown is under way, the records show edges, and every final component was allocated. -/
structure Orderly (r : vocabulary.Registry) (w : Nat) : Prop where
  standing : r.tearingDown = false
  shown : ∃ e, r.links.Shows e
  allocated : ∀ n c, r.store.final? n = some c → c.id < w

/-- From an orderly registry, `code` comes to an end, leaves the registry orderly and the marks as
they were, and if it returns something, `P` holds of it. -/
def Yields {α : Type} (code : RunCode (Except Error α)) (P : α → vocabulary.Registry → Nat → Prop) :
    Prop :=
  ∀ r w, Orderly r w → Ensures application code r w fun a r' w' =>
    Orderly r' w' ∧ w ≤ w' ∧ r'.marks = r.marks ∧ ∀ x, a = .ok x → P x r' w'

theorem returns_producer (f : vocabulary.Closure .producer) :
    ∃ i, application.body f = .done i := by
  cases f with
  | exposing c => exact ⟨c, rfl⟩

namespace Orderly

variable {r r' : vocabulary.Registry} {w w' : Nat}

theorem mono (h : Orderly r w) (hw : w ≤ w') : Orderly r w' :=
  ⟨h.standing, h.shown, fun n c hc => (h.allocated n c hc).trans_le hw⟩

theorem of_finals (h : Orderly r w) {store : Store Component (vocabulary.Closure .producer)}
    (hs : store.finals = r.store.finals) : Orderly { r with store := store } w := by
  refine ⟨h.standing, h.shown, fun n c hc => h.allocated n c ?_⟩
  rw [← hc, Store.final?, Store.final?, hs]

theorem put (h : Orderly r w) (n : String) {c : Component} (hc : c.id < w) :
    Orderly { r with store := r.store.put n c } w := by
  refine ⟨h.standing, h.shown, fun m d hd => ?_⟩
  rw [Store.final?_put] at hd
  split at hd
  · cases hd
    exact hc
  · exact h.allocated m d hd

theorem remove (h : Orderly r w) (n : String) :
    Orderly { r with store := (r.store.remove n).2 } w := by
  refine ⟨h.standing, h.shown, fun m d hd => ?_⟩
  rw [Store.final?_remove] at hd
  split at hd
  · cases hd
  · exact h.allocated m d hd

theorem depend (h : Orderly r w) (a b : String) :
    Orderly { r with links := (r.links.depend a b).2 } w :=
  ⟨h.standing, h.shown.imp' _ fun _ he => he.depend a b, h.allocated⟩

theorem contain (h : Orderly r w) (a b : String) :
    Orderly { r with links := (r.links.contain a b).2 } w :=
  ⟨h.standing, h.shown.imp' _ fun _ he => he.contain a b, h.allocated⟩

theorem publish (h : Orderly r w) (n : String) (f : vocabulary.Closure .producer) :
    Orderly (r.publish n f).registry w ∧ (r.publish n f).registry.marks = r.marks := by
  have hfinals : (r.store.offer n f).2.finals = r.store.finals := by
    unfold Store.offer
    split <;> rfl
  unfold Registry.publish
  split
  · exact ⟨h, rfl⟩
  · split
    · exact ⟨h, rfl⟩
    · exact ⟨h.of_finals hfinals, rfl⟩

theorem openBuild (h : Orderly r w) {n : String} (ho : r.openBuild n = .ok r') (outermost : Bool) :
    Orderly r' w ∧ (Build.Change.finish ⟨n, outermost⟩).marks r'.marks = r.marks := by
  obtain ⟨m, hm, rfl⟩ := Registry.openBuild_eq_ok ho
  obtain ⟨hopen, rfl⟩ := Marks.begin_eq_ok (b := ⟨n, outermost⟩) hm
  exact ⟨⟨h.standing, h.shown, h.allocated⟩, Build.Change.marks_finish_begin hopen⟩

theorem settle (h : Orderly r w) (n : String) (outermost : Bool) {a : Except Error Component}
    (ha : ∀ c, a = .ok c → c.id < w) : Orderly (r.settle n outermost a).registry w := by
  obtain ⟨store, hs⟩ := r.registry_settle n outermost a
  refine ⟨?_, ?_, fun m c hc => ?_⟩
  · rw [hs]
    exact h.standing
  · rw [hs]
    exact h.shown
  · obtain hf | hr := Registry.final?_settle_or hc
    · exact h.allocated m c hf
    · exact ha c hr

end Orderly

/-! ### Builds -/

/-- The final instance of a name is made of an allocated component. -/
theorem Yields.obtainOrCreate {n : String} (hn : n ≠ "") {c : Closure .construct}
    (h : Yields (application.body c) fun x _ w => x.id < w) :
    Yields (Code.obtainOrCreate n c) fun x r _ => r.store.final? n = some x := by
  intro r w hr
  refine .create hn hr.standing (fun i hi => ?final) (fun e _ _ => ?refused)
    (fun r' _ hopen => ?built)
  case final =>
    refine .done ⟨hr, le_rfl, rfl, fun x hx => ?_⟩
    cases hx
    exact hi
  case refused => exact .done ⟨hr, le_rfl, rfl, nofun⟩
  case built =>
    obtain ⟨hr', hmarks⟩ := hr.openBuild hopen r.suppressed.isNone
    refine (h r' w hr').mono fun a r'' w' ⟨hr'', hw, hkept, ha⟩ =>
      .done ⟨hr''.settle n _ ha, hw, ?_, fun x hx => Registry.final?_settle hx⟩
    obtain ⟨store, hs⟩ := r''.registry_settle n r.suppressed.isNone a
    rw [hs]
    change (r''.closeBuild n r.suppressed.isNone).marks = _
    rw [Registry.marks_closeBuild, hkept, hmarks]

/-- Resolving a name may run a producer, but leaves a registry orderly if asking for it does. -/
theorem Yields.resolve {n : String} (hn : n ≠ "") {c : Closure .construct}
    (h : Yields (application.body c) fun x _ w => x.id < w) :
    Yields (Code.resolve n c) fun _ _ _ => True := by
  intro r w hr
  refine .lookup returns_producer fun x store hs => ?_
  have hr' := hr.of_finals hs
  cases x with
  | some i => exact .done ⟨hr', le_rfl, rfl, fun _ _ => trivial⟩
  | none =>
    exact (Yields.obtainOrCreate hn h _ w hr').mono fun a r'' w' ⟨h', hw, hkept, _⟩ =>
      ⟨h', hw, hkept, fun _ _ => trivial⟩

/-- A chain is built if its first component is final then. -/
def Heads : List Link → Component → vocabulary.Registry → Prop
  | [], _, _ => False
  | l :: _, x, r => r.store.final? (name l.target) = some x

theorem Yields.resolveNext {rest : List Link} (h : Yields (build rest) fun x r _ => Heads rest x r)
    (current : String) (hc : current ≠ "") :
    Yields (resolveNext current rest) fun _ _ _ => True := by
  cases rest with
  | nil => exact fun r w hr => .done ⟨hr, le_rfl, rfl, fun _ _ => trivial⟩
  | cons next rest =>
    intro r w hr
    have hbody : Yields (application.body (Closure.chain (next :: rest)))
        fun x _ w => x.id < w := by
      intro r w hr
      refine (h r w hr).mono fun a r' w' ⟨hr', hw, hkept, ha⟩ => ⟨hr', hw, hkept, fun x hx => ?_⟩
      exact hr'.allocated _ x (ha x hx)
    refine .bind (Yields.resolve (name_ne_empty next.target) hbody r w hr)
      fun a r' w' ⟨hr', hw, hkept, _⟩ => ?_
    cases a with
    | error e => exact .done ⟨hr', hw, hkept, nofun⟩
    | ok x =>
      refine .ask ?_
      rw [show (Request.depend (name next.target) current).answer r' =
        r'.depend (name next.target) current from rfl]
      obtain ⟨-, hlinks⟩ := r'.depend_of_ne (name_ne_empty next.target) hc
      rw [hlinks]
      exact ⟨hr'.depend _ _, hw, hkept, fun _ _ => trivial⟩

/-- Publishes the early reference of a component, if its link says so. -/
def Link.exposure (l : Link) (raw : Component) : RunCode Unit :=
  if l.expose then do
    let _ ← request (.publish (name l.target) (Closure.exposing raw))
  else return ()

/-- What the construct of a link returns, by what came of the next link. -/
def Link.result (l : Link) (raw : Component) : Except Error Unit → Except Error Component
  | .error e => .error e
  | .ok () =>
    if l.fail then .error (.creationFailed (name l.target) "fuzzed failure" []) else .ok raw

theorem constructLink_eq (l : Link) (rest : List Link) :
    constructLink l rest = do
      let raw ← allocate l.target
      let _ ← l.exposure raw
      let a ← resolveNext (name l.target) rest
      return l.result raw a := by
  unfold constructLink
  refine congrArg _ (funext fun raw => ?_)
  have hlast {f : Except Error Unit → RunCode (Except Error Component)}
      (hf : ∀ a, f a = pure (l.result raw a)) :
      resolveNext (name l.target) rest >>= f =
        resolveNext (name l.target) rest >>= fun a => pure (l.result raw a) :=
    congrArg _ (funext hf)
  unfold Link.exposure
  cases l.expose with
  | true =>
    refine congrArg (Code.call _) (funext fun _ => hlast fun a => ?_)
    cases a <;> rfl
  | false =>
    refine hlast fun a => ?_
    cases a <;> rfl

theorem ensures_allocate_bind {α : Type} {value : Nat} {f : Component → RunCode α}
    {r : vocabulary.Registry} {w : Nat} {Q : α → vocabulary.Registry → Nat → Prop}
    (h : Ensures application (f ⟨w, value⟩) r (w + 1) Q) :
    Ensures application (allocate value >>= f) r w Q :=
  Ensures.access h

theorem ensures_exposure (l : Link) (raw : Component) {r : vocabulary.Registry} {w : Nat}
    (h : Orderly r w) :
    Ensures application (l.exposure raw) r w fun _ r' w' =>
      Orderly r' w' ∧ w' = w ∧ r'.marks = r.marks := by
  unfold Link.exposure
  split
  · obtain ⟨hpublished, hmarks⟩ := h.publish (name l.target) (Closure.exposing raw)
    exact .call (.done ⟨hpublished, rfl, hmarks⟩)
  · exact .done ⟨h, rfl, rfl⟩

/-- The construct of a link returns the component that it has allocated, or an error. -/
theorem Yields.constructLink {l : Link} {rest : List Link}
    (h : Yields (build rest) fun x r _ => Heads rest x r) :
    Yields (constructLink l rest) fun x _ w => x.id < w := by
  intro r w hr
  rw [constructLink_eq]
  have hr' : Orderly r (w + 1) := hr.mono (Nat.le_succ w)
  refine ensures_allocate_bind (.bind (ensures_exposure l ⟨w, l.target⟩ hr') ?_)
  rintro - r₁ - ⟨hr₁, rfl, hmarks⟩
  refine .bind (Yields.resolveNext h _ (name_ne_empty l.target) r₁ (w + 1) hr₁) ?_
  rintro a r₂ w₂ ⟨hr₂, hw, hkept, -⟩
  refine .done ⟨hr₂, (Nat.le_succ w).trans hw, hkept.trans hmarks, fun x hx => ?_⟩
  cases a with
  | error e => cases hx
  | ok u =>
    rw [Link.result] at hx
    split at hx
    · cases hx
    · cases hx
      exact hw

/-- Building a chain leaves the registry orderly, however the chain is made, and if it succeeds, its
first component is final. -/
theorem yields_build (chain : List Link) : Yields (build chain) fun x r _ => Heads chain x r := by
  induction chain with
  | nil => exact fun r w hr => .done ⟨hr, le_rfl, rfl, nofun⟩
  | cons l rest ih =>
    exact Yields.obtainOrCreate (name_ne_empty l.target) (c := Closure.link l rest)
      (Yields.constructLink ih)

/-! ### Operations -/

/-- The registry is orderly, and nothing is in creation. -/
structure AtRest (r : vocabulary.Registry) (w : Nat) : Prop where
  orderly : Orderly r w
  unmarked : ∀ n, r.marks.isMarked n = false

section Operations

variable {r : vocabulary.Registry} {w : Nat}

theorem ensures_checkName (h : AtRest r w) (n : String) :
    Ensures application (Building.checkName n) r w fun _ r' w' => r' = r ∧ w' = w := by
  refine .ask_bind (.require_bind (by simp [Request.answer, h.unmarked]) (.ask_bind ?_))
  split
  · next hfinal =>
    have hsome : (r.store.final? n).isSome = true := hfinal
    obtain ⟨i, hi⟩ := Option.isSome_iff_exists.mp hsome
    exact .lookup_final hi (.require rfl ⟨rfl, rfl⟩)
  · exact .done ⟨rfl, rfl⟩

theorem ensures_checkNames (h : AtRest r w) (l : List String) :
    Ensures application (checkNames l) r w fun _ r' w' => r' = r ∧ w' = w := by
  induction l with
  | nil => exact .done ⟨rfl, rfl⟩
  | cons n rest ih =>
    refine .bind (ensures_checkName h n) ?_
    rintro - r' w' ⟨rfl, rfl⟩
    exact ih

/-- At rest, the registry passes the check, which changes nothing. -/
theorem ensures_check (h : AtRest r w) :
    Ensures application check r w fun _ r' w' => r' = r ∧ w' = w := by
  refine .bind (ensures_checkNames h names) ?_
  rintro - r' w' ⟨rfl, rfl⟩
  have hnodup : r'.store.names.eraseDups = r'.store.names := Names.eraseDups_toList _
  refine .ask_bind (.require_bind ?_ (.ask_bind (.require ?_ ⟨rfl, rfl⟩)))
  · simp [Request.answer, hnodup]
  · simp [Request.answer, Store.names, Store.count, Names.size]

theorem ensures_register (h : AtRest r w) (i value : Nat) :
    Ensures application (perform (.register i value)) r w fun _ r' w' => AtRest r' w' := by
  have hgrown := h.orderly.mono (Nat.le_succ w)
  refine .ask_bind (ensures_allocate_bind (.ask_bind ?_))
  simp only [Request.answer, Registry.register, checkName_eq_ok (name_ne_empty i)]
  cases hf : r.store.final? (name i) with
  | none =>
    refine .require ?_ ⟨hgrown.put _ (Nat.lt_succ_self w), h.unmarked⟩
    simp [Store.isFinal_eq_false_iff.mpr hf, Except.isOk, Except.toBool]
  | some c =>
    -- the component that is registered is new, so it is not the final one
    have hne : c ≠ ⟨w, value⟩ := fun hc => by
      have hid := h.orderly.allocated _ _ hf
      rw [hc] at hid
      exact absurd hid (lt_irrefl w)
    have hfinal : r.store.isFinal (name i) = true := Option.isSome_of_eq_some hf
    simp only [if_neg hne]
    exact .require (by simp [hfinal, Except.isOk, Except.toBool]) ⟨hgrown, h.unmarked⟩

theorem ensures_obtain (h : AtRest r w) (i : Nat) (early : Bool) :
    Ensures application (perform (.obtain i early)) r w fun _ r' w' => AtRest r' w' := by
  cases hf : r.store.final? (name i) with
  | none =>
    refine .lookup_unmarked hf (h.unmarked _) (.ask_bind (.require ?_ h))
    simp [Request.answer, Store.isFinal_eq_false_iff.mpr hf]
  | some c =>
    have hfinal : r.store.isFinal (name i) = true := Option.isSome_of_eq_some hf
    exact .lookup_final hf (.ask_bind (.require (by simp [Request.answer, hfinal]) h))

theorem ensures_checkBuilt {chain : List Link} {x : Component} (h : Heads chain x r) :
    Ensures application (checkBuilt x chain) r w fun _ r' w' => r' = r ∧ w' = w := by
  cases chain with
  | nil => cases h
  | cons l rest =>
    exact .lookup_final h (.require_bind (decide_eq_true rfl) (.require rfl ⟨rfl, rfl⟩))

theorem ensures_build (h : AtRest r w) (chain : List Link) :
    Ensures application (perform (.build chain)) r w fun _ r' w' => AtRest r' w' := by
  refine .bind (yields_build chain r w h.orderly) ?_
  rintro a r' w' ⟨hr', -, hkept, ha⟩
  have hrest : AtRest r' w' := ⟨hr', by rw [hkept]; exact h.unmarked⟩
  cases a with
  | error e => exact .done hrest
  | ok x =>
    refine (ensures_checkBuilt (ha x rfl)).mono ?_
    rintro - r'' w'' ⟨rfl, rfl⟩
    exact hrest

theorem ensures_remove (h : AtRest r w) (i : Nat) :
    Ensures application (perform (.remove i)) r w fun _ r' w' => AtRest r' w' := by
  refine .ask_bind (.ask_bind (.require ?_ ⟨h.orderly.remove _, h.unmarked⟩))
  have hf : (r.store.remove (name i)).2.final? (name i) = none := by
    rw [Store.final?_remove, if_pos rfl]
  simp [Request.answer, Store.isFinal_eq_false_iff.mpr hf]

theorem ensures_depend (h : AtRest r w) (a b : Nat) :
    Ensures application (perform (.depend a b)) r w fun _ r' w' => AtRest r' w' := by
  obtain ⟨hreply, hlinks⟩ := r.depend_of_ne (name_ne_empty a) (name_ne_empty b)
  have hrecorded : name b ∈ (r.links.depend (name a) (name b)).2.dependentsOf (name a) :=
    Links.mem_dependentsOf_depend.mpr (.inr ⟨rfl, rfl⟩)
  have horderly := h.orderly.depend (name a) (name b)
  obtain ⟨e, he⟩ := horderly.shown
  have hback : name a ∈ (r.links.depend (name a) (name b)).2.dependenciesOf (name b) :=
    he.mem_dependenciesOf.mpr (he.mem_dependentsOf.mp hrecorded)
  refine .ask_bind ?_
  simp only [Request.answer, hreply, hlinks]
  refine .require_bind rfl (.ask_bind (.require_bind (Links.isDependent_of_mem hrecorded)
    (.ask_bind (.require ?_ ⟨horderly, h.unmarked⟩))))
  simpa [Request.answer] using hback

theorem ensures_contain (h : AtRest r w) (a b : Nat) :
    Ensures application (perform (.contain a b)) r w fun _ r' w' => AtRest r' w' := by
  obtain ⟨hreply, hlinks⟩ := r.contain_of_ne (name_ne_empty a) (name_ne_empty b)
  have hrecorded : name a ∈ (r.links.contain (name a) (name b)).2.partsOf (name b) :=
    Links.mem_partsOf_contain.mpr (.inr ⟨rfl, rfl⟩)
  refine .ask_bind ?_
  simp only [Request.answer, hreply, hlinks]
  refine .require_bind rfl (.ask_bind (.require ?_ ⟨h.orderly.contain _ _, h.unmarked⟩))
  simpa [Request.answer] using hrecorded

theorem ensures_exclude (h : AtRest r w) (i : Nat) (on : Bool) :
    Ensures application (perform (.exclude i on)) r w fun _ r' w' => AtRest r' w' :=
  .ask ⟨⟨h.orderly.standing, h.orderly.shown, h.orderly.allocated⟩, h.unmarked⟩

/-- Every operation passes its own checks, and leaves the registry at rest. -/
theorem ensures_perform (h : AtRest r w) (op : Operation) :
    Ensures application (perform op) r w fun _ r' w' => AtRest r' w' := by
  cases op with
  | register i value => exact ensures_register h i value
  | obtain i early => exact ensures_obtain h i early
  | build chain => exact ensures_build h chain
  | remove i => exact ensures_remove h i
  | depend a b => exact ensures_depend h a b
  | contain inner outer => exact ensures_contain h inner outer
  | isDependent i candidate => exact .ask_bind (.done h)
  | exclude i on => exact ensures_exclude h i on

theorem ensures_performAll (h : AtRest r w) (ops : List Operation) :
    Ensures application (performAll ops) r w fun _ r' w' => AtRest r' w' := by
  induction ops generalizing r w with
  | nil => exact .done h
  | cons op rest ih =>
    refine .bind (ensures_perform h op) fun _ r' w' hrest => ?_
    refine .bind (ensures_check hrest) ?_
    rintro - r'' w'' ⟨rfl, rfl⟩
    exact ih hrest

/-- At rest, a lookup finds the final instance or nothing, and changes nothing. -/
theorem AtRest.lookup (h : AtRest r w) {s : State vocabulary} (hs : s.registry = r) (n : String)
    (early : Bool) {g : Goal} (next : Option Component → Code vocabulary (g.Result Component))
    (stack : Stack vocabulary g) :
    Leads application (s, .exec (.lookup n early next) stack) [.found n (r.store.final? n)]
      (s, .exec (next (r.store.final? n)) stack) := by
  subst hs
  cases hf : s.registry.store.final? n with
  | some c => exact .lookup_final hf
  | none => exact .lookup_unmarked hf (h.unmarked n)

theorem AtRest.mem_dependentsOf_iff (h : AtRest r w) (a b : String) :
    b ∈ r.links.dependentsOf a ↔ a ∈ r.links.dependenciesOf b := by
  obtain ⟨e, he⟩ := h.orderly.shown
  rw [he.mem_dependentsOf, he.mem_dependenciesOf]

end Operations

/-! ### Runs -/

/-- A fresh registry is at rest. -/
theorem atRest_fresh (o : Options) : AtRest (.fresh o) 0 where
  orderly := ⟨rfl, ⟨.empty, .empty⟩, nofun⟩
  unmarked _ := rfl

/-- **The checks hold.** Any list of operations, with chains of any length, is run on a fresh
registry.

* The run comes to its end after finitely many steps, and never ends in a panic; so no check of an
  operation fails, and none of those that are made after each operation.
* At the end nothing is in creation; a lookup finds exactly the final instances, at once; every
  dependency can be seen from both sides; and the names are listed without duplicates, as many as
  are counted.
* The same holds of the run that makes no more than `maxOperations` of the operations, and uses no
  more than `maxLinks` links of each chain. -/
theorem performAll_never_panics (operations : List Operation) :
    (∃ fuel s, Wiring.run application fuel (.start .default 0, .start (performAll operations)) =
        (s, .finished (.ok ())) ∧
      (∀ n, s.registry.marks.isMarked n = false) ∧
      (∀ (n : String) (early : Bool) (g : Goal)
        (next : Option Component → Code vocabulary (g.Result Component))
        (stack : Stack vocabulary g),
        Leads application (s, .exec (.lookup n early next) stack)
          [.found n (s.registry.store.final? n)]
          (s, .exec (next (s.registry.store.final? n)) stack)) ∧
      (∀ a b, b ∈ s.registry.links.dependentsOf a ↔ a ∈ s.registry.links.dependenciesOf b) ∧
      s.registry.store.names.Nodup ∧
      s.registry.store.names.length = s.registry.store.count) ∧
    (∀ fuel p, (Wiring.run application fuel
      (.start .default 0, .start (performAll operations))).2 ≠ .finished (.error p)) ∧
    (∃ fuel s, run operations fuel = (s, .finished (.ok ()))) ∧
    ∀ fuel p, (run operations fuel).2 ≠ .finished (.error p) := by
  let start : State vocabulary := .start .default 0
  have hensures (ops : List Operation) : Ensures application (performAll ops) start.registry
      start.world fun _ r w => AtRest r w :=
    ensures_performAll (atRest_fresh .default) ops
  obtain ⟨⟨fuel, s, hend, hrest⟩, hnever⟩ := (hensures operations).run_start
  obtain ⟨⟨fuel', s', hend', -⟩, hnever'⟩ :=
    (hensures ((operations.take maxOperations).map Operation.capped)).run_start
  refine ⟨⟨fuel, s, hend, hrest.unmarked, fun n early g next stack => ?_,
    hrest.mem_dependentsOf_iff, s.registry.store.registered.nodup, rfl⟩, hnever, ⟨fuel', s', hend'⟩,
    hnever'⟩
  exact hrest.lookup rfl n early next stack

/-- The chain "a", "b", "a", where "a" shows itself early and "b" is excluded from tracking: inside
the build of "b" for which "a" asks another one is made, and that one finds "a" half-built. -/
example :
    let (s, t) := run [.exclude 1 true,
      .build [⟨0, true, false⟩, ⟨1, false, false⟩, ⟨0, false, false⟩]] 150
    t = .finished (.ok ()) ∧ s.registry.store.final? "a" = some ⟨0, 0⟩ ∧
      s.registry.store.final? "b" = some ⟨1, 1⟩ ∧ s.registry.links.dependentsOf "a" = ["b"] :=
  ⟨rfl, rfl, rfl, rfl⟩

end Building

end Stress

end Wiring
