/-!
# The inspection text of values

The parts of the library that can be inspected describe themselves as a `Shape`: an atom, a named
record with fields, a named tuple, or a list. A shape is written on one line or, one part a line,
indented. Strings inside it are quoted.

## Main definitions

* `Wiring.Text.quote` — a string in double quotes with its control characters escaped.
* `Wiring.Text.Shape` — what a value looks like.
* `Wiring.Text.Shape.inline`, `Wiring.Text.Shape.indented` — the two ways to write it.
-/

namespace Wiring.Text

/-- A code point in hexadecimal between braces, without leading zeros. -/
def codePoint (c : Char) : String :=
  "\\u\x7b" ++ String.ofList (Nat.toDigits 16 c.toNat) ++ "\x7d"

/-- A double quote and a backslash are preceded by a backslash, the four common control characters
have letters of their own, the other control characters are written as code points, and every other
character stands for itself. -/
def escape (c : Char) : String :=
  if c = '"' then "\\\""
  else if c = '\\' then "\\\\"
  else if c = '\n' then "\\n"
  else if c = '\t' then "\\t"
  else if c = '\r' then "\\r"
  else if c = '\x00' then "\\0"
  else if c.toNat < 0x20 || (0x7f ≤ c.toNat && c.toNat < 0xa0) then codePoint c
  else String.singleton c

/-- A string in double quotes, every character escaped as needed. -/
def quote (s : String) : String :=
  "\"" ++ String.join (s.toList.map escape) ++ "\""

/-- What a value looks like when it is inspected. -/
inductive Shape where
  | atom (text : String)
  | tuple (name : String) (parts : List Shape)
  | list (items : List Shape)
  | record (name : String) (fields : List (String × Shape))

namespace Shape

/-- A quoted string. -/
def string (s : String) : Shape := .atom (quote s)

/-- A count. -/
def number (n : Nat) : Shape := .atom (toString n)

/-- A truth value. -/
def flag (b : Bool) : Shape := .atom (if b then "true" else "false")

/-- A record that shows none of its fields. -/
def hidden (name : String) : Shape := .atom (name ++ " \x7b .. \x7d")

/-- A value that may be missing. -/
def optional : Option Shape → Shape
  | none => .atom "None"
  | some s => .tuple "Some" [s]

/-! ### On one line -/

mutual

/-- The shape on one line. -/
def inline : Shape → String
  | .atom text => text
  | .tuple name parts => name ++ "(" ++ inlineItems parts ++ ")"
  | .list items => "[" ++ inlineItems items ++ "]"
  | .record name fields => name ++ " \x7b " ++ inlineFields fields ++ " \x7d"

/-- Shapes on one line, with commas between them. -/
def inlineItems : List Shape → String
  | [] => ""
  | [s] => inline s
  | s :: rest => inline s ++ ", " ++ inlineItems rest

/-- Named shapes on one line, with commas between them. -/
def inlineFields : List (String × Shape) → String
  | [] => ""
  | [(k, s)] => k ++ ": " ++ inline s
  | (k, s) :: rest => k ++ ": " ++ inline s ++ ", " ++ inlineFields rest

end

/-! ### One part a line -/

/-- The start of a line at a nesting depth: four blanks a level. -/
def margin (depth : Nat) : String := String.ofList (List.replicate (4 * depth) ' ')

mutual

/-- The shape over several lines, its own first line already indented. -/
def indentedAt (depth : Nat) : Shape → String
  | .atom text => text
  | .tuple name parts => name ++ "(\n" ++ indentedItems (depth + 1) parts ++ margin depth ++ ")"
  | .list [] => "[]"
  | .list (s :: rest) =>
    "[\n" ++ indentedItems (depth + 1) (s :: rest) ++ margin depth ++ "]"
  | .record name fields =>
    name ++ " \x7b\n" ++ indentedFields (depth + 1) fields ++ margin depth ++ "\x7d"

/-- Shapes one a line, each with a comma after it. -/
def indentedItems (depth : Nat) : List Shape → String
  | [] => ""
  | s :: rest => margin depth ++ indentedAt depth s ++ ",\n" ++ indentedItems depth rest

/-- Named shapes one a line, each with a comma after it. -/
def indentedFields (depth : Nat) : List (String × Shape) → String
  | [] => ""
  | (k, s) :: rest =>
    margin depth ++ k ++ ": " ++ indentedAt depth s ++ ",\n" ++ indentedFields depth rest

end

/-- The shape over several lines, one part a line. -/
def indented (s : Shape) : String := indentedAt 0 s

end Shape

end Wiring.Text
