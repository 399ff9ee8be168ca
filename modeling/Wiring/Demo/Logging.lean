import Wiring.Demo.Basic

/-!
# Demonstration: what the log shows

A database is registered, a user service and an audit log that need each other are built through an
early reference, the user service is asked for again, and a teardown goes on past a hook that fails.

## Main definitions

* `Wiring.Demo.Logging.application` — the constructs and hooks of the components.
* `Wiring.Demo.Logging.program` — the main program.
-/

namespace Wiring.Demo.Logging

/-- The components, each with its identity. -/
inductive Part where
  | database (id : Nat) (url : String)
  | users (id : Nat)
  /-- An audit log with the user service that it watches. -/
  | audit (id : Nat) (users : Part)
deriving DecidableEq

namespace Part

/-- The name of the user service's type. -/
def usersType : String := "logging::UserService"

/-- The name of the audit log's type. -/
def auditType : String := "logging::AuditLog"

/-- The name of the type of a component. -/
def typeOf : Part → String
  | .database .. => "logging::Database"
  | .users _ => usersType
  | .audit .. => auditType

end Part

/-- The constructs, producers and hooks. -/
inductive Closure : Goal → Type where
  | users : Closure .construct
  | audit : Closure .construct
  | usersAgain : Closure .construct
  /-- Would not find the user service. -/
  | missing : Closure .construct
  | exposing (p : Part) : Closure .producer
  | succeed : Closure .hook
  | fail (reason : String) : Closure .hook

/-- Code of the demonstration. -/
abbrev DemoCode (α : Type) : Type := Code (vocabulary Part Part.typeOf Closure) α

/-- Makes a request. -/
def request (q : Request (vocabulary Part Part.typeOf Closure)) : DemoCode q.Reply :=
  Code.ask q

/-- The value of a result that is no error. -/
def certain {α : Type} (r : Except Error α) : DemoCode α := expect "no error can occur here" r

/-- Constructs the user service around its audit log. -/
def constructUsers : DemoCode (Except Error Part) := do
  let users := Part.users (← newId)
  let _ ← request (.publish "users" (Closure.exposing users))
  match ← Code.resolveAs "audit" Part.auditType Closure.audit with
  | .error e => return .error e
  | .ok audit =>
    match ← request (.depend "db" "users") with
    | .error e => return .error e
    | .ok () => do
      bindSlot users audit
      return .ok users

/-- Constructs the audit log with the user service. -/
def constructAudit : DemoCode (Except Error Part) := do
  match ← Code.resolveAs "users" Part.usersType Closure.usersAgain with
  | .error e => return .error e
  | .ok users =>
    match ← request (.depend "users" "audit") with
    | .error e => return .error e
    | .ok () => return .ok (.audit (← newId) users)

/-- The code of every closure. -/
def application : Application (vocabulary Part Part.typeOf Closure) where
  body := fun c =>
    match c with
    | Closure.users => constructUsers
    | Closure.audit => constructAudit
    | Closure.usersAgain => .panic (.text "users is already in creation")
    | Closure.missing => return .error (.notFound "users")
    | Closure.exposing p => Code.done p
    | Closure.succeed => return .ok ()
    | Closure.fail reason => return .error reason

/-- The part of the main program that works with the registry. -/
def work : DemoCode Unit := do
  let db := Part.database (← newId) "postgres://localhost/mydb"
  let _ ← certain (← request (.register "db" db))
  let users ← certain (← Code.createAs "users" Part.usersType Closure.users)
  Code.require (← slotOf users).isBound "the audit log is bound"
  let _ ← certain (← Code.obtainOrCreate "users" Closure.missing)
  request (.storeHook "db" Closure.succeed)
  request (.storeHook "users" (Closure.fail "connection pool still busy"))
  request (.storeHook "audit" Closure.succeed)
  .destroyAll (.done ())

/-- The main program. -/
def program : DemoCode Unit := do
  printAll ["=== Component Registry Logging Demo ===", ""]
  work
  printAll ["", "=== Demo Complete ===",
    "Check the log output above to see structured logging in action!", "",
    "Tip: Use --features logging-json for production (JSON output)",
    "     Use --features logging-pretty for development (colorful output)"]

end Wiring.Demo.Logging
