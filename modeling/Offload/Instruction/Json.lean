import Offload.Bytes
import Offload.Instruction
import Offload.Json.Decode

/-!
Opcodes and instructions as JSON and as structured text.
-/

namespace Offload

namespace Opcode

def toJson (op : Opcode) : Json :=
  .text op.name

def ofJson? : Json → Option Opcode :=
  Json.choice? name all

end Opcode

namespace Instruction

/-- A field of an instruction: a number, or a list index that may be absent. -/
inductive Field
  | number (n : Nat)
  | reference (list : Option Nat)

def Field.toJson : Field → Json
  | .number n => .natural n
  | .reference list => .optional list

def Field.describe : Field → String
  | .number n => toString n
  | .reference list => Text.optional (list.map toString)

def fields : Instruction → List (String × Field)
  | .begin slots tasks lists =>
    [("slots", .number slots), ("tasks", .number tasks), ("dep_lists", .number lists)]
  | .context device => [("device", .number device)]
  | .launch task device wait offset threads =>
    [("task", .number task), ("device", .number device), ("deps", .reference wait),
      ("offset", .number offset), ("threads", .number threads)]
  | .streamIn object offset length wait
  | .streamOut object offset length wait
  | .streamOutBlocking object offset length wait =>
    [("object", .number object), ("offset", .number offset), ("length", .number length),
      ("deps", .reference wait)]
  | .addDep list => [("list", .number list)]
  | .barrier wait | .marker wait => [("deps", .reference wait)]
  | .finish => []

def toJson (i : Instruction) : Json :=
  match i.fields with
  | [] => .text i.opcode.name
  | fields => .tagged i.opcode.name (.record (fields.map fun (name, field) => (name, field.toJson)))

def describe (i : Instruction) : String :=
  match i.fields with
  | [] => i.opcode.name
  | fields => Text.record i.opcode.name (fields.map fun (name, field) => (name, field.describe))

def number? (j : Option Json) : Option Nat :=
  j.bind (Json.natural? wordLimit)

/-- A list index; a field that is left out names no list. -/
def waitField? : Option Json → Option (Option Nat)
  | none => some none
  | some j => j.optional? (Json.natural? wordLimit)

def transferOfJson? (make : Nat → Nat → Nat → Option Nat → Instruction) (j : Json) :
    Option Instruction := do
  let [object, offset, length, wait] ← j.allFields? ["object", "offset", "length", "deps"] | none
  some (make (← number? object) (← number? offset) (← number? length) (← waitField? wait))

def waitOfJson? (make : Option Nat → Instruction) (j : Json) : Option Instruction := do
  let [wait] ← j.allFields? ["deps"] | none
  some (make (← waitField? wait))

def contentOfJson? : Opcode → Json → Option Instruction
  | .begin, j => do
    let [slots, tasks, lists] ← j.allFields? ["slots", "tasks", "dep_lists"] | none
    some (.begin (← number? slots) (← number? tasks) (← number? lists))
  | .context, j => do
    let [device] ← j.allFields? ["device"] | none
    some (.context (← number? device))
  | .launch, j => do
    let [task, device, wait, offset, threads] ←
      j.allFields? ["task", "device", "deps", "offset", "threads"] | none
    some (.launch (← number? task) (← number? device) (← waitField? wait) (← number? offset)
      (← number? threads))
  | .streamIn, j => transferOfJson? .streamIn j
  | .streamOut, j => transferOfJson? .streamOut j
  | .streamOutBlocking, j => transferOfJson? .streamOutBlocking j
  | .addDep, j => do
    let [list] ← j.allFields? ["list"] | none
    some (.addDep (← number? list))
  | .barrier, j => waitOfJson? .barrier j
  | .marker, j => waitOfJson? .marker j
  | .finish, .null => some .finish
  | .finish, _ => none

def ofJson? (j : Json) : Option Instruction := do
  let (name, content) ← j.case?
  let op ← Opcode.all.find? (·.name == name)
  match op, content with
  | .finish, none => some .finish
  | _, none => none
  | op, some content => contentOfJson? op content

end Instruction
end Offload
