import Wiring.Slot

/-!
# The components of a script

Scripts deal in small components of five kinds. Each has an identity, the number under which it was
allocated, and two components are the same exactly when they are equal.
-/

namespace Wiring.Script

/-- The kinds of components. -/
inductive Kind where
  | widget
  | gadget
  | text
  | int
  | proxy
deriving DecidableEq

namespace Kind

/-- The kind as a word. -/
def word : Kind → String
  | .widget => "widget"
  | .gadget => "gadget"
  | .text => "text"
  | .int => "int"
  | .proxy => "proxy"

/-- The name of the kind's type, as messages give it. -/
def typeName : Kind → String
  | .widget => "oracle_driver::Widget"
  | .gadget => "oracle_driver::Gadget"
  | .text => "alloc::string::String"
  | .int => "i64"
  | .proxy => "oracle_driver::Proxy"

end Kind

/-- What a component is made of. -/
inductive Payload where
  | widget (label : String)
  | gadget (n : Int)
  | text (s : String)
  | int (n : Int)
  /-- A view of the component with the given identity. -/
  | proxy (target : Nat)
deriving DecidableEq

/-- The kind of component that a payload makes. -/
def Payload.kind : Payload → Kind
  | .widget _ => .widget
  | .gadget _ => .gadget
  | .text _ => .text
  | .int _ => .int
  | .proxy _ => .proxy

/-- An allocated component. -/
structure Component where
  /-- The identity. -/
  id : Nat
  payload : Payload
deriving DecidableEq

namespace Component

/-- The kind of the component. -/
def kind (c : Component) : Kind := c.payload.kind

/-- The label of the component, if it is a widget. -/
def label? (c : Component) : Option String :=
  match c.payload with
  | .widget label => some label
  | _ => none

end Component

end Wiring.Script
