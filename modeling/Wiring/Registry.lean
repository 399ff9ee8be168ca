import Wiring.Hooks
import Wiring.Links
import Wiring.Log.Event
import Wiring.Marks
import Wiring.Store

/-!
# The registry

A registry holds the instances of components by name, the marks of names in creation, the records
between components, the shutdown hooks, whether a teardown is under way, and the errors set aside
during a build. It only holds producers and hooks; running them is the business of whoever drives
the registry, so every function here is a plain change of state.

## Main definitions

* `Wiring.Registry` — the state, `Wiring.Registry.fresh` at the start.
* `Wiring.Registry.register`, `Wiring.Registry.publish` — instances and early references from
  outside.
* `Wiring.Registry.openBuild`, `Wiring.Registry.settle`, `Wiring.Registry.abandon` — the start of a
  build, its regular end, and its end by a panic.
* `Wiring.Registry.detach`, `Wiring.Registry.reset`, `Wiring.Registry.clearAll` — teardown.
* `Wiring.Registry.survey` — everything that can be observed about some names.
-/

namespace Wiring

/-- A registry of instances `ι` with producers `φ` and shutdown hooks `η`. -/
structure Registry (ι φ η : Type) where
  options : Options
  store : Store ι φ
  marks : Marks
  links : Links
  hooks : Hooks η
  /-- Whether a teardown of the whole registry is under way. -/
  tearingDown : Bool
  /-- The errors set aside since the outermost open build began; none without a build. -/
  suppressed : Option (List Error)

/-- The answer to a request: the reply, the registry afterwards, and what is reported. -/
structure Answer (ρ ι φ η : Type) where
  reply : ρ
  registry : Registry ι φ η
  event : Option Log.Event

namespace Registry

variable {ι φ η : Type}

/-- A registry in which nothing has happened. -/
def fresh (o : Options) : Registry ι φ η :=
  ⟨o, .empty, .empty, .empty, Table.empty, false, none⟩

/-! ### Instances from outside -/

/-- Makes `i` the final instance of `n`. A final name accepts only the instance it has. -/
def register [DecidableEq ι] (r : Registry ι φ η) (n : String) (i : ι) :
    Answer (Except Error Unit) ι φ η :=
  match checkName n with
  | .error e => ⟨.error e, r, none⟩
  | .ok () =>
    match r.store.final? n with
    | some i' => ⟨if i' = i then .ok () else .error (.alreadyBound n), r, none⟩
    | none =>
      ⟨.ok (), { r with store := r.store.put n i }, some (.registering n (r.store.count + 1))⟩

/-- Offers a producer for the early reference of `n`. It is taken only where circular references are
allowed, for a name in creation or excluded from tracking, and while the name is not final. -/
def publish (r : Registry ι φ η) (n : String) (p : φ) : Answer Bool ι φ η :=
  if r.options.circular = false then ⟨false, r, some (.earlyForbidden n)⟩
  else if r.marks.isMarked n = false ∧ r.marks.isExcluded n = false then
    ⟨false, r, some (.earlyUnexpected n)⟩
  else
    ⟨(r.store.offer n p).1, { r with store := (r.store.offer n p).2 },
      some (.earlyPublished n (r.store.offer n p).1)⟩

/-! ### Builds -/

/-- Begins a build of `n`. A build that is begun outside every other one starts the list of errors
set aside. -/
def openBuild (r : Registry ι φ η) (n : String) : Except Error (Registry ι φ η) :=
  match r.marks.begin n with
  | .error e => .error e
  | .ok marks => .ok { r with marks := marks, suppressed := some (r.suppressed.getD []) }

/-- Ends a build of `n`, whatever came of it: the mark goes, if it is there to go, and the outermost
build drops the errors set aside. -/
def closeBuild (r : Registry ι φ η) (n : String) (outermost : Bool) : Registry ι φ η :=
  { r with
    marks := match r.marks.finish n with
      | .ok marks => marks
      | .error _ => r.marks
    suppressed := if outermost then none else r.suppressed }

/-- What came of a build: a new instance, one that is final already, or an error. -/
inductive Outcome (ι : Type) where
  | fresh (i : ι)
  | present (i : ι)
  | failed (e : Error)

/-- What the result of the construct of `n` amounts to. An error that says that somebody was first
stands for the final instance, if there is one; any other error takes the errors set aside along
when it leaves the outermost build. -/
def outcome (r : Registry ι φ η) (n : String) (outermost : Bool) :
    Except Error ι → Outcome ι
  | .ok i => .fresh i
  | .error e =>
    if e.isRace n then
      match r.store.final? n with
      | some i => .present i
      | none => .failed e
    else .failed (e.withRelated (if outermost then r.suppressed.getD [] else []))

/-- Forgets what is staged for `n`. -/
def discard (r : Registry ι φ η) (n : String) : Registry ι φ η :=
  { r with store := r.store.discard n }

/-- Installs a new instance of `n` unless another one became final in the meantime; the reply is the
final instance. -/
def install (r : Registry ι φ η) (n : String) (i : ι) : Answer (Except Error ι) ι φ η :=
  match r.store.final? n with
  | some i' => ⟨.ok i', r, some (.superseded n)⟩
  | none =>
    ⟨.ok i, { r with store := r.store.put n i }, some (.created n (r.store.put n i).count)⟩

/-- The registry when a build of `n` with the given outcome has been closed: a failure has forgotten
what was staged. -/
def closed (r : Registry ι φ η) (n : String) (outermost : Bool) : Outcome ι → Registry ι φ η
  | .failed _ => (r.discard n).closeBuild n outermost
  | .fresh _ | .present _ => r.closeBuild n outermost

/-- The end of a build of `n` whose construct returned: the build is closed, and a new instance is
installed. A build that was not marked when it should have been fails whatever came of it. -/
def settle (r : Registry ι φ η) (n : String) (outermost : Bool) (result : Except Error ι) :
    Answer (Except Error ι) ι φ η :=
  let o := r.outcome n outermost result
  match r.marks.finish n, o with
  | .error e, _ => ⟨.error e, r.closed n outermost o, none⟩
  | .ok _, .failed e => ⟨.error e, r.closed n outermost o, none⟩
  | .ok _, .present i => ⟨.ok i, r.closed n outermost o, some (.superseded n)⟩
  | .ok _, .fresh i => (r.closed n outermost o).install n i

/-- The end of a build of `n` whose construct panicked. -/
def abandon (r : Registry ι φ η) (n : String) (outermost : Bool) : Registry ι φ η :=
  (r.discard n).closeBuild n outermost

/-- Sets an error aside; outside every build it is lost. -/
def suppress (r : Registry ι φ η) (e : Error) : Registry ι φ η :=
  { r with suppressed := r.suppressed.map (· ++ [e]) }

/-! ### Records -/

/-- Records that `dependent` needs `dependency`. -/
def depend (r : Registry ι φ η) (dependency dependent : String) :
    Answer (Except Error Unit) ι φ η :=
  match checkName dependency, checkName dependent with
  | .error e, _ | .ok (), .error e => ⟨.error e, r, none⟩
  | .ok (), .ok () =>
    ⟨.ok (), { r with links := (r.links.depend dependency dependent).2 },
      if (r.links.depend dependency dependent).1 then
        some (.dependencyRecorded dependency dependent)
      else none⟩

/-- Records that `inner` is a part of `outer`. -/
def contain (r : Registry ι φ η) (inner outer : String) : Answer (Except Error Unit) ι φ η :=
  match checkName inner, checkName outer with
  | .error e, _ | .ok (), .error e => ⟨.error e, r, none⟩
  | .ok (), .ok () => ⟨.ok (), { r with links := (r.links.contain inner outer).2 }, none⟩

/-- A record is entered, unless one of the names is empty. -/
theorem links_depend (r : Registry ι φ η) (dependency dependent : String) :
    (r.depend dependency dependent).registry.links = r.links ∨
      (r.depend dependency dependent).registry.links =
        (r.links.depend dependency dependent).2 := by
  unfold depend
  split
  · exact .inl rfl
  · exact .inl rfl
  · exact .inr rfl

theorem links_contain (r : Registry ι φ η) (inner outer : String) :
    (r.contain inner outer).registry.links = r.links ∨
      (r.contain inner outer).registry.links = (r.links.contain inner outer).2 := by
  unfold contain
  split
  · exact .inl rfl
  · exact .inl rfl
  · exact .inr rfl

/-! ### Teardown -/

/-- Begins the teardown of the whole registry. -/
def beginTeardown (r : Registry ι φ η) : Registry ι φ η := { r with tearingDown := true }

/-- The first part of destroying `n`: its bindings go, its hook is detached, and the records of its
dependents are withdrawn. -/
def detach (r : Registry ι φ η) (n : String) : Registry ι φ η :=
  { r with
    store := (r.store.remove n).2
    hooks := r.hooks.erase n
    links := (r.links.takeDependents n).2 }

/-- The part of destroying `n` that comes after its hook: its containment records are withdrawn. -/
def detachParts (r : Registry ι φ η) (n : String) : Registry ι φ η :=
  { r with links := (r.links.takeParts n).2 }

/-- The last part of destroying `n`: its remaining dependency records go. -/
def scrub (r : Registry ι φ η) (n : String) : Registry ι φ η :=
  { r with links := r.links.scrub n }

/-- Ends the teardown of the whole registry: records and instances go. -/
def reset (r : Registry ι φ η) : Registry ι φ η :=
  { r with links := r.links.clear, store := r.store.clear, tearingDown := false }

/-- Empties the registry without running hooks. Marks and errors set aside stay. -/
def clearAll (r : Registry ι φ η) : Registry ι φ η :=
  { r with hooks := Table.empty, links := r.links.clear, store := r.store.clear, tearingDown :=
  false }

/-! ### Observation -/

/-- The counts by which a registry describes itself. -/
structure Summary where
  finals : Nat
  inCreation : Nat
  hooks : Nat
  tearingDown : Bool
deriving DecidableEq

/-- What the summary looks like when it is inspected. -/
def Summary.shape (s : Summary) : Text.Shape :=
  .record "SingletonRegistry"
    [("finals", .number s.finals), ("in_creation", .number s.inCreation),
     ("shutdown_hooks", .number s.hooks), ("in_destruction", .flag s.tearingDown)]

/-- The counts by which the registry describes itself. -/
def summary (r : Registry ι φ η) : Summary :=
  ⟨r.store.finalCount, r.marks.count, r.hooks.size, r.tearingDown⟩

/-- The instance of `n` that can be had without running a producer: the final one, or the early one
while the name is in creation. -/
def visible? (r : Registry ι φ η) (n : String) : Option ι :=
  match r.store.final? n with
  | some i => some i
  | none => if r.marks.isMarked n then r.store.early? n else none

/-- Everything that can be observed about one name. -/
structure Status (ι : Type) where
  isFinal : Bool
  visible : Option ι
  inCreation : Bool
  marked : Bool
  hooked : Bool
  dependents : List String
  dependencies : List String
  parts : List String

/-- What can be observed about `n`. -/
def status (r : Registry ι φ η) (n : String) : Status ι where
  isFinal := r.store.isFinal n
  visible := r.visible? n
  inCreation := r.marks.isInCreation n
  marked := r.marks.isMarked n
  hooked := r.hooks.contains n
  dependents := r.links.dependentsOf n
  dependencies := r.links.dependenciesOf n
  parts := r.links.partsOf n

/-- Everything that can be observed about some names. -/
structure Survey (ι : Type) where
  names : List String
  count : Nat
  summary : Summary
  of : List (String × Status ι)

/-- What can be observed about the names `ns`. -/
def survey (r : Registry ι φ η) (ns : List String) : Survey ι where
  names := r.store.names
  count := r.store.count
  summary := r.summary
  of := ns.map fun n => (n, r.status n)

end Registry

end Wiring
