import Offload.Text.Printable

/-!
One-line text of structured values: quoted strings, lists, optional values, and records with named
fields, as they appear in descriptions and inside messages.
-/

namespace Offload.Text

def hex (n : Nat) : String :=
  String.ofList (Nat.toDigits 16 n)

/--
A character inside a quoted string. Line ends, tabs, quotes and backslashes have an escape of their
own, and what is not printable is written by its number.
-/
def escapeChar (c : Char) : String :=
  if c = '"' then "\\\""
  else if c = '\\' then "\\\\"
  else if c = '\n' then "\\n"
  else if c = '\r' then "\\r"
  else if c = '\t' then "\\t"
  else if c.toNat = 0 then "\\0"
  else if isPrintable c then c.toString
  else "\\u\x7b" ++ hex c.toNat ++ "\x7d"

def quote (s : String) : String :=
  "\"" ++ String.join (s.toList.map escapeChar) ++ "\""

def list (items : List String) : String :=
  "[" ++ ", ".intercalate items ++ "]"

def naturals (items : List Nat) : String :=
  list (items.map toString)

/-- `name(a, b)`. -/
def application (name : String) (arguments : List String) : String :=
  name ++ "(" ++ ", ".intercalate arguments ++ ")"

def optional : Option String → String
  | none => "None"
  | some text => application "Some" [text]

/-- The name followed by `field: value` pairs in braces. -/
def record (name : String) (fields : List (String × String)) : String :=
  name ++ " \x7b " ++ ", ".intercalate (fields.map fun (field, value) => field ++ ": " ++ value) ++ " \x7d"

/-- `text` moved to the right until it is `width` characters wide. -/
def padLeft (width : Nat) (text : String) : String :=
  String.ofList (List.replicate (width - text.length) ' ') ++ text

end Offload.Text
