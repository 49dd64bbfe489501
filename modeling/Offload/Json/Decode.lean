import Offload.Json

/-!
Typed values out of JSON trees. A structure is read from an object, where unknown names are ignored
and a known name may stand once, or from an array of its fields in order; a case of a choice is read
from its name or from an object with that one name.
-/

namespace Offload.Json

/-- A natural number below `bound`. -/
def natural? (bound : Nat) : Json → Option Nat
  | .natural n => if n < bound then some n else none
  | _ => none

def bool? : Json → Option Bool
  | .bool b => some b
  | _ => none

def text? : Json → Option String
  | .string s => s
  | _ => none

def list? {α : Type} (item? : Json → Option α) : Json → Option (List α)
  | .array items => items.mapM item?
  | _ => none

def optional? {α : Type} (value? : Json → Option α) : Json → Option (Option α)
  | .null => some none
  | j => (value? j).map some

/-- The only value under `name` among `members`: `some none` if there is none, nothing if there are two. -/
def member? (members : List (String × Json)) (name : String) : Option (Option Json) :=
  match members.filter (·.1 == name) with
  | [] => some none
  | [(_, value)] => some (some value)
  | _ => none

/--
The values of the named fields in order, `none` for each that is left out. An array gives the first
fields by position.
-/
def fields? (names : List String) : Json → Option (List (Option Json))
  | .object members => do
    let members ← members.mapM fun (name, value) => name.map (·, value)
    names.mapM (member? members)
  | .array items =>
    if items.length ≤ names.length then
      some (items.map some ++ List.replicate (names.length - items.length) none)
    else none
  | _ => none

/-- As `fields?`, but an array has to give every field. -/
def allFields? (names : List String) (j : Json) : Option (List (Option Json)) :=
  match j with
  | .array items => if items.length = names.length then j.fields? names else none
  | _ => j.fields? names

/-- The name of the case that a value belongs to, and the content if there is any. -/
def case? : Json → Option (String × Option Json)
  | .string name => name.map (·, none)
  | .object [(name, content)] => name.map (·, some content)
  | _ => none

/-- The name of a case without content, which null may stand for. -/
def bareCase? (j : Json) : Option String := do
  match ← j.case? with
  | (name, none) | (name, some .null) => some name
  | _ => none

/-- The member of `choices` that the value names, each one under its name in `nameOf`. -/
def choice? {α : Type} (nameOf : α → String) (choices : List α) (j : Json) : Option α := do
  let name ← j.bareCase?
  choices.find? (nameOf · == name)

end Offload.Json
