import Wiring.Log.Level
import Wiring.Text.Shape

/-!
# Setting up the log

What a listener to the registry's events is asked for: a threshold, a format, a target to listen to,
and which extras go with each event. No listener is installed here, so installation always reports
that nothing was installed.

## Main definitions

* `Wiring.Log.Setup` — the request, `Wiring.Log.Setup.default` where nothing is said.
* `Wiring.Log.Setup.Change`, `Wiring.Log.Setup.change` — one decision about it.
* `Wiring.Log.Setup.directive` — the filter it stands for.
-/

namespace Wiring.Log

/-- The target that every event of the registry is sent to. -/
def target : String := "component_registry"

/-- How events are laid out. -/
inductive Format where
  | json
  | pretty
  | compact
deriving DecidableEq

/-- The format as a word. -/
def Format.word : Format → String
  | .json => "Json"
  | .pretty => "Pretty"
  | .compact => "Compact"

/-- What a listener is asked for. -/
structure Setup where
  threshold : Level
  format : Format
  /-- The only target to listen to. -/
  only : Option String
  file : Bool
  lineNumber : Bool
  threadIds : Bool
  threadNames : Bool
deriving DecidableEq

namespace Setup

/-- Everything from debug events on, in the pretty format, from every target, without extras. -/
def default : Setup := ⟨.debug, .pretty, none, false, false, false, false⟩

/-- One decision about the listener. -/
inductive Change where
  | threshold (l : Level)
  | only (target : String)
  | format (f : Format)
  | withFile
  | withLineNumber
  | withThreadIds
  | withThreadNames

/-- Listens to the events of the registry only. -/
def Change.registryOnly : Change := .only target

/-- The request after one more decision. -/
def change (s : Setup) : Change → Setup
  | .threshold l => { s with threshold := l }
  | .only t => { s with only := some t }
  | .format f => { s with format := f }
  | .withFile => { s with file := true }
  | .withLineNumber => { s with lineNumber := true }
  | .withThreadIds => { s with threadIds := true }
  | .withThreadNames => { s with threadNames := true }

/-- The requests after each decision of a list in turn. -/
def changes (s : Setup) : List Change → List Setup
  | [] => []
  | c :: rest => s.change c :: changes (s.change c) rest

/-- The filter that the request stands for: the level, after the target if there is one. -/
def directive (s : Setup) : String :=
  match s.only with
  | some t => t ++ "=" ++ s.threshold.label
  | none => s.threshold.label

/-- Whether a listener could be installed for the request: there is none to install. -/
def install (_ : Setup) : Bool := false

/-- What the request looks like when it is inspected. -/
def shape (s : Setup) : Text.Shape :=
  .record "LoggingBuilder"
    [("level", .tuple "Level" [.atom s.threshold.word]),
     ("format", .atom s.format.word),
     ("target", .optional (s.only.map .string)),
     ("with_file", .flag s.file),
     ("with_line_number", .flag s.lineNumber),
     ("with_thread_ids", .flag s.threadIds),
     ("with_thread_names", .flag s.threadNames)]

end Setup

end Wiring.Log
