/-!
JSON documents: the tree, its compact and its indented text. Numbers that are plain natural numerals
are kept apart from all others, because only they name counts, indices and sizes.
-/

namespace Offload

/--
A JSON value. `decimal` is a number written with a sign, a fraction or an exponent. A string literal
whose escapes leave half of a surrogate pair alone is well formed but has no text, hence `none`.
-/
inductive Json
  | null
  | bool (b : Bool)
  | natural (n : Nat)
  | decimal (written : String)
  | string (text : Option String)
  | array (items : List Json)
  | object (members : List (Option String × Json))
  deriving Repr

namespace Json

def text (s : String) : Json :=
  .string (some s)

def naturals (items : List Nat) : Json :=
  .array (items.map .natural)

def record (members : List (String × Json)) : Json :=
  .object (members.map fun (name, value) => (some name, value))

/-- One member whose name says which case the value belongs to. -/
def tagged (name : String) (content : Json) : Json :=
  record [(name, content)]

def optional : Option Nat → Json
  | none => .null
  | some n => .natural n

def escapeChar (c : Char) : String :=
  if c = '"' then "\\\""
  else if c = '\\' then "\\\\"
  else if c = '\n' then "\\n"
  else if c = '\r' then "\\r"
  else if c = '\t' then "\\t"
  else if c.toNat = 8 then "\\b"
  else if c.toNat = 12 then "\\f"
  else if c.toNat < 16 then "\\u000" ++ (Nat.digitChar c.toNat).toString
  else if c.toNat < 32 then "\\u001" ++ (Nat.digitChar (c.toNat - 16)).toString
  else c.toString

def literal (s : String) : String :=
  "\"" ++ String.join (s.toList.map escapeChar) ++ "\""

mutual

def compact : Json → String
  | .null => "null"
  | .bool b => if b then "true" else "false"
  | .natural n => toString n
  | .decimal written => written
  | .string s => literal (s.getD "")
  | .array items => "[" ++ ",".intercalate (compactItems items) ++ "]"
  | .object members => "\x7b" ++ ",".intercalate (compactMembers members) ++ "\x7d"

def compactItems : List Json → List String
  | [] => []
  | item :: items => item.compact :: compactItems items

def compactMembers : List (Option String × Json) → List String
  | [] => []
  | (name, value) :: members =>
    (literal (name.getD "") ++ ":" ++ value.compact) :: compactMembers members

end

/-- The bracketed `pieces`, each on a line of its own, two spaces deeper than the brackets. -/
def block (indent : String) (opening closing : String) : List String → String
  | [] => opening ++ closing
  | pieces =>
    let line := "\n" ++ indent
    opening ++ ",".intercalate (pieces.map fun piece => line ++ "  " ++ piece) ++ line ++ closing

mutual

/-- The text with one item or member a line; `indent` is the space before the current line. -/
def indented (indent : String) : Json → String
  | .null => "null"
  | .bool b => if b then "true" else "false"
  | .natural n => toString n
  | .decimal written => written
  | .string s => literal (s.getD "")
  | .array items => block indent "[" "]" (indentedItems (indent ++ "  ") items)
  | .object members => block indent "\x7b" "\x7d" (indentedMembers (indent ++ "  ") members)

def indentedItems (indent : String) : List Json → List String
  | [] => []
  | item :: items => item.indented indent :: indentedItems indent items

def indentedMembers (indent : String) : List (Option String × Json) → List String
  | [] => []
  | (name, value) :: members =>
    (literal (name.getD "") ++ ": " ++ value.indented indent) :: indentedMembers indent members

end

def pretty (j : Json) : String :=
  j.indented ""

end Json
end Offload
