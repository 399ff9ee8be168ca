import Wiring.Demo.Basic

/-!
# Demonstration: components that point at each other

The order service and the customer service need each other. The order service shows itself early, so
that the customer service can be constructed with it, and binds the customer service afterwards. Two
components that both need the other one in full cannot be constructed.

## Main definitions

* `Wiring.Demo.Circular.application` — the constructs and hooks of the services.
* `Wiring.Demo.Circular.program` — the main program.
-/

namespace Wiring.Demo.Circular

/-- The services, each with its identity. -/
inductive Service where
  | orders (id : Nat)
  /-- A customer service with a name and the order service that it uses. -/
  | customers (id : Nat) (name : String) (orders : Service)
deriving DecidableEq

namespace Service

/-- The name of the order service's type. -/
def ordersType : String := "circular::OrderService"

/-- The name of the customer service's type. -/
def customersType : String := "circular::CustomerService"

/-- The name of the type of a service. -/
def typeOf : Service → String
  | .orders _ => ordersType
  | .customers .. => customersType

/-- Whether a customer service uses the given order service. -/
def uses : Service → Service → Bool
  | .customers _ _ own, other => own = other
  | .orders _, _ => false

end Service

/-- How an order service with the given slot describes itself. -/
def describe (slot : Slot Service) : String :=
  match slot.peer with
  | some (.customers _ name _) => "orders -> " ++ name
  | _ => "orders -> (unbound)"

/-- The constructs, producers and hooks. -/
inductive Closure : Goal → Type where
  | orders : Closure .construct
  | customers : Closure .construct
  /-- Refuses to construct an order service a second time. -/
  | ordersAgain : Closure .construct
  | left : Closure .construct
  | right : Closure .construct
  | leftAgain : Closure .construct
  | exposing (s : Service) : Closure .producer
  | closeOrders : Closure .hook
  | closeCustomers : Closure .hook

/-- Code of the demonstration. -/
abbrev DemoCode (α : Type) : Type := Code (vocabulary Service Service.typeOf Closure) α

/-- Makes a request. -/
def request (q : Request (vocabulary Service Service.typeOf Closure)) : DemoCode q.Reply :=
  Code.ask q

/-- Constructs the order service around its customer service. -/
def constructOrders : DemoCode (Except Error Service) := do
  let orders := Service.orders (← newId)
  let _ ← request (.publish "orders" (Closure.exposing orders))
  match ← Code.resolveAs "customers" Service.customersType Closure.customers with
  | .error e => return .error e
  | .ok customers => do
    bindSlot orders customers
    request (.storeHook "orders" Closure.closeOrders)
    return .ok orders

/-- Constructs the customer service with the order service. -/
def constructCustomers : DemoCode (Except Error Service) := do
  match ← Code.resolveAs "orders" Service.ordersType Closure.ordersAgain with
  | .error e => return .error e
  | .ok orders => do
    let customers := Service.customers (← newId) "customers" orders
    match ← request (.depend "orders" "customers") with
    | .error e => return .error e
    | .ok () => do
      request (.storeHook "customers" Closure.closeCustomers)
      return .ok customers

/-- The code of every closure. -/
def application : Application (vocabulary Service Service.typeOf Closure) where
  body := fun c =>
    match c with
    | Closure.orders => constructOrders
    | Closure.customers => constructCustomers
    | Closure.ordersAgain => return .error (.cycle "orders")
    | Closure.left => Code.resolve "right" Closure.right
    | Closure.right => Code.resolve "left" Closure.leftAgain
    | Closure.leftAgain => .panic (.text "left is already in creation")
    | Closure.exposing s => Code.done s
    | Closure.closeOrders => do
      print "  closing order service"
      return .ok ()
    | Closure.closeCustomers => do
      print "  closing customer service"
      return .ok ()

/-- The main program. -/
def program : DemoCode Unit := do
  print "=== Setter-style cycle ==="
  let orders ← expect "early reference resolves the cycle"
    (← Code.createAs "orders" Service.ordersType Closure.orders)
  let customers ← expect "customers was built"
    (← Code.getAs "customers" Service.customersType)
  print ("  " ++ describe (← slotOf orders))
  print ("  customers -> same order service: " ++
    (if Service.uses customers orders then "true" else "false"))
  printAll ["", "=== Constructor-style cycle ==="]
  match ← Code.obtainOrCreate "left" Closure.left with
  | .ok _ => print "  unexpectedly wired"
  | .error e => print ("  " ++ e.message)
  printAll ["", "=== Teardown ==="]
  .destroyAll (.done ())

end Wiring.Demo.Circular
