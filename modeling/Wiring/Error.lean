import Wiring.Text.Shape

/-!
# What can go wrong

The causes for which the registry refuses a request or a build fails, with their wording.

## Main definitions

* `Wiring.Error` — the causes. A failed build carries the errors that were set aside while it ran.
* `Wiring.Error.message`, `Wiring.Error.kind`, `Wiring.Error.shape` — sentence, keyword and
  inspection text.
* `Wiring.Error.isRace` — whether an error says that somebody else was first.
* `Wiring.Error.withRelated` — hands errors that were set aside to a failed build.
* `Wiring.checkName` — component names are not empty.
-/

namespace Wiring

/-- Why a request was refused or a build failed. -/
inductive Error where
  /-- Another instance is bound to the name. -/
  | alreadyBound (name : String)
  /-- The name is being built, and no early reference could break the cycle. -/
  | cycle (name : String)
  /-- Another path finished building the name first. -/
  | race (name : String)
  /-- A build was requested during teardown. -/
  | tearingDown (name : String)
  /-- The end of a build was reported for a name that was not being built. -/
  | notInCreation (name : String)
  /-- The construct gave up; `related` are the errors set aside in the meantime. -/
  | creationFailed (name reason : String) (related : List Error)
  /-- A shutdown hook failed. -/
  | hookFailed (name reason : String)
  /-- No final instance is bound to the name. -/
  | notFound (name : String)
  /-- The bound instance is not of the type asked for. -/
  | typeMismatch (name expected : String)
  /-- Component names must not be empty. -/
  | emptyName

namespace Error

instance : Inhabited Error := ⟨.emptyName⟩

/-! ### Equality -/

mutual

/-- Whether two errors have the same cause with the same data, related errors included. -/
def same : Error → Error → Bool
  | .alreadyBound n, .alreadyBound n' => n = n'
  | .cycle n, .cycle n' => n = n'
  | .race n, .race n' => n = n'
  | .tearingDown n, .tearingDown n' => n = n'
  | .notInCreation n, .notInCreation n' => n = n'
  | .creationFailed n r es, .creationFailed n' r' es' => n = n' && r = r' && sameAll es es'
  | .hookFailed n r, .hookFailed n' r' => n = n' && r = r'
  | .notFound n, .notFound n' => n = n'
  | .typeMismatch n t, .typeMismatch n' t' => n = n' && t = t'
  | .emptyName, .emptyName => true
  | _, _ => false

/-- Whether two lists of errors agree place by place. -/
def sameAll : List Error → List Error → Bool
  | [], [] => true
  | e :: es, e' :: es' => same e e' && sameAll es es'
  | _, _ => false

end

mutual

theorem same_iff : (e e' : Error) → (same e e' = true ↔ e = e')
  | .creationFailed n r es, e' => by
    cases e' <;> simp [same, sameAll_iff es, and_assoc]
  | .alreadyBound _, e' => by cases e' <;> simp [same]
  | .cycle _, e' => by cases e' <;> simp [same]
  | .race _, e' => by cases e' <;> simp [same]
  | .tearingDown _, e' => by cases e' <;> simp [same]
  | .notInCreation _, e' => by cases e' <;> simp [same]
  | .hookFailed _ _, e' => by cases e' <;> simp [same]
  | .notFound _, e' => by cases e' <;> simp [same]
  | .typeMismatch _ _, e' => by cases e' <;> simp [same]
  | .emptyName, e' => by cases e' <;> simp [same]

theorem sameAll_iff : (es es' : List Error) → (sameAll es es' = true ↔ es = es')
  | [], es' => by cases es' <;> simp [sameAll]
  | e :: es, es' => by cases es' <;> simp [sameAll, same_iff e, sameAll_iff es]

end

instance : DecidableEq Error := fun e e' => decidable_of_iff _ (same_iff e e')

/-! ### Wording -/

/-- The sentence that reports the error. -/
def message : Error → String
  | .alreadyBound n => "Could not register component '" ++ n ++ "': an instance is already bound"
  | .cycle n => "Component '" ++ n ++
      "' is currently in creation: is there an unresolvable circular reference?"
  | .race n => "Component '" ++ n ++ "' was created concurrently"
  | .tearingDown n => "Creation of component '" ++ n ++
      "' not allowed while singletons are in destruction " ++
      "(do not request a component from a shutdown hook)"
  | .notInCreation n => "Component '" ++ n ++ "' isn't currently in creation"
  | .creationFailed n r _ => "Failed to create component '" ++ n ++ "': " ++ r
  | .hookFailed n r => "Destruction of component '" ++ n ++ "' failed: " ++ r
  | .notFound n => "Component not found: " ++ n
  | .typeMismatch n t => "Component '" ++ n ++ "' is not of type " ++ t
  | .emptyName => "Component name must not be empty"

/-- The keyword of the cause. -/
def kind : Error → String
  | .alreadyBound _ => "DuplicateRegistration"
  | .cycle _ => "CycleDetected"
  | .race _ => "CreationRace"
  | .tearingDown _ => "CreationDuringTeardown"
  | .notInCreation _ => "NotInCreation"
  | .creationFailed .. => "CreationFailed"
  | .hookFailed .. => "ShutdownHookFailed"
  | .notFound _ => "NotFound"
  | .typeMismatch .. => "TypeMismatch"
  | .emptyName => "EmptyName"

/-- The errors set aside while the build ran; only a failed build has any. -/
def related : Error → List Error
  | .creationFailed _ _ es => es
  | _ => []

mutual

/-- What the error looks like when it is inspected. -/
def shape : Error → Text.Shape
  | .alreadyBound n => .record "DuplicateRegistration" [("name", .string n)]
  | .cycle n => .record "CycleDetected" [("name", .string n)]
  | .race n => .record "CreationRace" [("name", .string n)]
  | .tearingDown n => .record "CreationDuringTeardown" [("name", .string n)]
  | .notInCreation n => .record "NotInCreation" [("name", .string n)]
  | .creationFailed n r es => .record "CreationFailed"
      [("name", .string n), ("reason", .string r), ("related", .list (shapes es))]
  | .hookFailed n r => .record "ShutdownHookFailed" [("name", .string n), ("reason", .string r)]
  | .notFound n => .record "NotFound" [("name", .string n)]
  | .typeMismatch n t => .record "TypeMismatch" [("name", .string n), ("expected", .string t)]
  | .emptyName => .atom "EmptyName"

/-- What a list of errors looks like, one by one. -/
def shapes : List Error → List Text.Shape
  | [] => []
  | e :: es => shape e :: shapes es

end

/-! ### Errors of a build -/

/-- Whether the error says that `name` already became final on another path. -/
def isRace (name : String) : Error → Bool
  | .race n => n = name
  | .alreadyBound n => n = name
  | _ => false

/-- Appends `suppressed` to the related errors of a failed build; any other error stays as it is. -/
def withRelated (suppressed : List Error) : Error → Error
  | .creationFailed n r es => .creationFailed n r (es ++ suppressed)
  | e => e

end Error

/-- A component name must not be empty. -/
def checkName (name : String) : Except Error Unit :=
  if name = "" then .error .emptyName else .ok ()

end Wiring
