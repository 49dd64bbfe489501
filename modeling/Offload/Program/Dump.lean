import Offload.Instruction.Json
import Offload.Json.Reader
import Offload.Program

/-!
Programs as JSON. A dump carries a listing for its readers; reading one back ignores it.
-/

namespace Offload.Program

def codeAndLists (p : Program) : List (String × Json) :=
  [("code", Json.naturals (p.code.map UInt8.toNat)), ("dep_lists", .array (p.lists.map Json.naturals))]

def toJson (p : Program) : Json :=
  .record p.codeAndLists

def dumpLines (p : Program) : List String :=
  match p.decode with
  | .error e => [undecodable e]
  | .ok instructions => instructions.map Instruction.label

def dump (p : Program) : String :=
  (Json.record (p.codeAndLists ++ [("listing", .array (p.dumpLines.map Json.text))])).pretty

/-- Code is bytes, and a slot of a list is a 32-bit number. -/
def ofJson? (j : Json) : Option Program := do
  let [some code, some lists] ← j.allFields? ["code", "dep_lists"] | none
  let code ← code.list? (Json.natural? 256)
  let lists ← lists.list? (Json.list? (Json.natural? 0x100000000))
  some { code := code.map UInt8.ofNat, lists }

def read (source : String) : Except Error Program :=
  match (Json.parse? source).bind ofJson? with
  | some p => pure p
  | none => throw .json

end Offload.Program
