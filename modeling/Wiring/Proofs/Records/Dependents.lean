import Mathlib.Data.List.Chain
import Mathlib.Logic.Relation
import Wiring.Links

/-!
# Direct and indirect dependents

A component depends on another one indirectly if a path of records leads from the one that is needed
to the one that needs it. The search for such a path passes each name only once, and shares what it
has passed among all the branches that it still has to follow. So a branch may come to nothing
although it does lead to the goal, namely where it runs into a name that was passed on the way to
another branch. What counts is the search as a whole: if a path is left at the last name on it that
has been passed, the rest of the path is still open.

## Main definitions

* `Wiring.Links.Path` — a path of records from a name to an indirect dependent.
* `Wiring.Links.Opens`, `Wiring.Links.Open` — what a search can still find that has passed some
  names.

## Main results

* `Wiring.Links.reaches_iff` — a search finds what is open to it.
* `Wiring.Links.isDependent_iff_path` — one name is a dependent of another one exactly if there is a
  path between them.
-/

namespace Wiring.Links

/-! ### Searches that have passed some names -/

section Search

variable {t : Table String Names} {candidate n m k : String} {rest seen : List String}

/-- `b` is recorded under `a` and has not been passed yet. -/
def Opens (t : Table String Names) (seen : List String) (a b : String) : Prop :=
  b ∈ namesAt t a ∧ b ∉ seen

/-- A name to visit leads, over names that have not been passed yet, to one under which `candidate`
is recorded. -/
def Open (t : Table String Names) (candidate : String) (visit seen : List String) : Prop :=
  ∃ n ∈ visit, n ∉ seen ∧
    ∃ m, Relation.ReflTransGen (Opens t seen) n m ∧ candidate ∈ namesAt t m

theorem opens_of_cons (h : Opens t (n :: seen) m k) : Opens t seen m k :=
  ⟨h.1, fun hk => h.2 (List.mem_cons_of_mem n hk)⟩

/-- What is reached without regard to `n` is reached without coming across `n`, or from `n` itself
without coming back to it. -/
theorem reflTransGen_opens_cons (n : String) (h : Relation.ReflTransGen (Opens t seen) m k) :
    Relation.ReflTransGen (Opens t (n :: seen)) m k ∨
      Relation.ReflTransGen (Opens t (n :: seen)) n k := by
  induction h with
  | refl => exact .inl .refl
  | @tail a b _ hab ih =>
    by_cases hb : b = n
    · subst hb
      exact .inr .refl
    · have hopens : Opens t (n :: seen) a b := ⟨hab.1, by simp [hb, hab.2]⟩
      exact ih.imp (·.tail hopens) (·.tail hopens)

/-- When a name has been passed that was not passed before, its own record answers the search, or
what it opens does, or what was to be visited besides. -/
theorem open_cons_iff (hn : n ∉ seen) :
    Open t candidate (n :: rest) seen ↔
      candidate ∈ namesAt t n ∨
        Open t candidate ((namesAt t n).toList ++ rest) (n :: seen) := by
  constructor
  · rintro ⟨a, ha, haseen, m, ham, hm⟩
    -- the path is followed from the last time it comes across `n`
    obtain ⟨b, hb, hbm⟩ : ∃ b, (b = n ∨ b ∈ rest ∧ b ∉ n :: seen) ∧
        Relation.ReflTransGen (Opens t (n :: seen)) b m := by
      by_cases han : a = n
      · exact ⟨n, .inl rfl, (reflTransGen_opens_cons n ham).elim (han ▸ ·) id⟩
      · have hrest : a ∈ rest := (List.mem_cons.mp ha).resolve_left han
        obtain h | h := reflTransGen_opens_cons n ham
        · exact ⟨a, .inr ⟨hrest, by simp [han, haseen]⟩, h⟩
        · exact ⟨n, .inl rfl, h⟩
    obtain rfl | ⟨hrest, hbseen⟩ := hb
    · obtain rfl | ⟨c, hbc, hcm⟩ := hbm.cases_head
      · exact .inl hm
      · exact .inr ⟨c, List.mem_append_left _ hbc.1, hbc.2, m, hcm, hm⟩
    · exact .inr ⟨b, List.mem_append_right _ hrest, hbseen, m, hbm, hm⟩
  · rintro (hc | ⟨a, ha, haseen, m, ham, hm⟩)
    · exact ⟨n, List.mem_cons_self, hn, n, .refl, hc⟩
    · have ham' : Relation.ReflTransGen (Opens t seen) a m :=
        Relation.ReflTransGen.mono (fun _ _ => opens_of_cons) _ _ ham
      have haseen' : a ∉ seen := fun h => haseen (List.mem_cons_of_mem n h)
      obtain ha | ha := List.mem_append.mp ha
      · exact ⟨n, List.mem_cons_self, hn, m, ham'.head ⟨ha, haseen'⟩, hm⟩
      · exact ⟨a, List.mem_cons_of_mem n ha, haseen', m, ham', hm⟩

theorem open_cons_of_mem (hn : n ∈ seen) :
    Open t candidate (n :: rest) seen ↔ Open t candidate rest seen := by
  constructor
  · rintro ⟨a, ha, haseen, h⟩
    have han : a ≠ n := fun h => haseen (h ▸ hn)
    exact ⟨a, (List.mem_cons.mp ha).resolve_left han, haseen, h⟩
  · rintro ⟨a, ha, h⟩
    exact ⟨a, List.mem_cons_of_mem n ha, h⟩

/-- A search answers whether what it looks for is open to it. -/
theorem reaches_iff (t : Table String Names) (candidate : String) (visit seen : List String) :
    reaches t candidate visit seen = true ↔ Open t candidate visit seen := by
  induction visit, seen using reaches.induct t with
  | case1 seen => simp [reaches, Open]
  | case2 seen n rest hn ih =>
    rw [reaches, dif_pos hn, ih, open_cons_of_mem hn]
  | case3 seen n rest hn hnone ih =>
    have hempty : namesAt t n = .empty := by rw [namesAt, hnone, Option.getD_none]
    rw [reaches, dif_neg hn, open_cons_iff hn, hempty]
    split
    · simp [ih, ← Names.mem_toList]
    · next direct hsome => cases hnone.symm.trans hsome
  | case4 seen n rest hn direct hsome ih =>
    have hdirect : namesAt t n = direct := by rw [namesAt, hsome, Option.getD_some]
    rw [reaches, dif_neg hn, open_cons_iff hn, hdirect]
    split
    · next hnone => cases hnone.symm.trans hsome
    · next direct' hsome' =>
      obtain rfl : direct = direct' := Option.some.inj (hsome.symm.trans hsome')
      simp [ih]

end Search

/-! ### Paths -/

variable {g : Links} {n m candidate : String} {l : List String}

/-- The names `l` lead from `n` to `candidate`, the last of them: each one is a recorded dependent
of the one before, and the first one of `n`. -/
def Path (g : Links) (n : String) (l : List String) (candidate : String) : Prop :=
  List.IsChain (fun a b => b ∈ g.dependentsOf a) (n :: l) ∧ l.getLast? = some candidate

theorem transGen_iff_exists_path :
    Relation.TransGen (fun a b => b ∈ g.dependentsOf a) n candidate ↔
      ∃ l, g.Path n l candidate := by
  rw [Relation.TransGen.head'_iff]
  constructor
  · rintro ⟨a, hna, hac⟩
    obtain ⟨l, hl, hlast⟩ := List.exists_isChain_cons_of_relationReflTransGen hac
    exact ⟨a :: l, hl.cons_cons hna,
      by rw [List.getLast?_eq_some_getLast (List.cons_ne_nil a l), hlast]⟩
  · rintro ⟨l, hl, hlast⟩
    cases l with
    | nil => cases hlast
    | cons a l =>
      rw [List.getLast?_eq_some_getLast (List.cons_ne_nil a l), Option.some.injEq] at hlast
      exact ⟨a, (List.isChain_cons_cons.mp hl).1,
        List.relationReflTransGen_of_exists_isChain_cons l hl.tail hlast⟩

/-- A path goes through each of its names. -/
theorem Path.split (h : g.Path n l candidate) (hm : m ∈ l) :
    Relation.TransGen (fun a b => b ∈ g.dependentsOf a) n m ∧
      Relation.ReflTransGen (fun a b => b ∈ g.dependentsOf a) m candidate := by
  obtain ⟨before, after, rfl⟩ := List.append_of_mem hm
  obtain ⟨hchain, hlast⟩ := h
  rw [← List.cons_append, List.isChain_split] at hchain
  refine ⟨transGen_iff_exists_path.mpr ⟨before ++ [m], hchain.1, List.getLast?_concat ..⟩, ?_⟩
  rw [List.getLast?_append_of_ne_nil _ (List.cons_ne_nil m after),
    List.getLast?_eq_some_getLast (List.cons_ne_nil m after), Option.some.injEq] at hlast
  exact List.relationReflTransGen_of_exists_isChain_cons after hchain.2 hlast

/-- The search from a name finds the names that depend on it, directly or through others. -/
theorem isDependent_iff_transGen (g : Links) (n candidate : String) :
    g.isDependent n candidate = true ↔
      Relation.TransGen (fun a b => b ∈ g.dependentsOf a) n candidate := by
  have hopens : Opens g.dependents [] = fun a b => b ∈ g.dependentsOf a := by
    funext a b
    simp [Opens, dependentsOf, Names.mem_toList]
  rw [isDependent, reaches_iff, Relation.TransGen.tail'_iff]
  simp [Open, hopens, dependentsOf, Names.mem_toList]

/-- **Dependents are found along paths.** Whatever is recorded, cycles and dependencies of a name on
itself included, `candidate` is found to be a dependent of `n` exactly if a path of at least one
record leads from `n` to `candidate`. In particular a name is found to be a dependent of itself
exactly if it lies on a closed path, wherever that path is begun. -/
theorem isDependent_iff_path (g : Links) (n candidate : String) :
    (g.isDependent n candidate = true ↔ ∃ l, g.Path n l candidate) ∧
      (g.isDependent n n = true ↔ ∃ m l, g.Path m l m ∧ n ∈ l) := by
  refine ⟨(isDependent_iff_transGen g n candidate).trans transGen_iff_exists_path, ?_⟩
  rw [isDependent_iff_transGen]
  constructor
  · intro h
    obtain ⟨l, hl⟩ := transGen_iff_exists_path.mp h
    exact ⟨n, l, hl, List.mem_of_getLast? hl.2⟩
  · rintro ⟨m, l, hl, hn⟩
    obtain ⟨hmn, hnm⟩ := hl.split hn
    exact Relation.TransGen.trans_right hnm hmn

end Wiring.Links
