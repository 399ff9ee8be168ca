/-!
# Levels of severity

The five levels of log events, from the most talkative to the most severe.
-/

namespace Wiring.Log

/-- How severe a log event is. -/
inductive Level where
  | trace
  | debug
  | info
  | warn
  | error
deriving DecidableEq

namespace Level

/-- The rank of a level; a more severe level has a higher rank. -/
def severity : Level → Nat
  | .trace => 0
  | .debug => 1
  | .info => 2
  | .warn => 3
  | .error => 4

/-- Whether an event of level `l` is shown where `threshold` and everything more severe is. -/
def shownAt (threshold l : Level) : Bool := threshold.severity ≤ l.severity

/-- The level in capital letters. -/
def label : Level → String
  | .trace => "TRACE"
  | .debug => "DEBUG"
  | .info => "INFO"
  | .warn => "WARN"
  | .error => "ERROR"

/-- The level as a word. -/
def word : Level → String
  | .trace => "Trace"
  | .debug => "Debug"
  | .info => "Info"
  | .warn => "Warn"
  | .error => "Error"

/-- The level that a label in capital letters names. -/
def ofLabel? : String → Option Level
  | "TRACE" => some .trace
  | "DEBUG" => some .debug
  | "INFO" => some .info
  | "WARN" => some .warn
  | "ERROR" => some .error
  | _ => none

theorem ofLabel?_label (l : Level) : ofLabel? l.label = some l := by
  cases l <;> rfl

end Level

end Wiring.Log
