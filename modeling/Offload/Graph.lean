import Offload.Error
import Offload.Json.Decode

/-!
Task graphs: a list of nodes, each with the nodes it takes its inputs from. A node's place in the list
is its id.
-/

namespace Offload

inductive NodeKind
  | context (device : Nat)
  | task (task : Nat)
  | streamIn (object : Nat)
  | streamOut (object : Nat)
  | dataDependency (producer : Nat)
  deriving DecidableEq, Repr

namespace NodeKind

/-- Tasks and transfers: the nodes that become an instruction. -/
def isInstruction : NodeKind → Bool
  | .task _ | .streamIn _ | .streamOut _ => true
  | _ => false

def isContext : NodeKind → Bool
  | .context _ => true
  | _ => false

def name : NodeKind → String
  | .context _ => "context"
  | .task _ => "task"
  | .streamIn _ => "stream-in"
  | .streamOut _ => "stream-out"
  | .dataDependency _ => "data-dependency"

def label : NodeKind → String
  | .context device => s!"context(device={device})"
  | .task index => s!"task({index})"
  | .streamIn object => s!"stream-in({object})"
  | .streamOut object => s!"stream-out({object})"
  | .dataDependency producer => s!"dep(<- {producer})"

def parts : NodeKind → String × String × Nat
  | .context device => ("Context", "device", device)
  | .task index => ("Task", "task", index)
  | .streamIn object => ("StreamIn", "object", object)
  | .streamOut object => ("StreamOut", "object", object)
  | .dataDependency producer => ("DataDependency", "producer", producer)

def describe (k : NodeKind) : String :=
  let (case, field, n) := k.parts
  Text.record case [(field, toString n)]

def toJson (k : NodeKind) : Json :=
  let (case, field, n) := k.parts
  .tagged case (.record [(field, .natural n)])

def ofNumber : List (String × String × (Nat → NodeKind)) :=
  [("Context", "device", .context), ("Task", "task", .task), ("StreamIn", "object", .streamIn),
    ("StreamOut", "object", .streamOut), ("DataDependency", "producer", .dataDependency)]

def ofJson? (j : Json) : Option NodeKind := do
  let (case, some content) ← j.case? | none
  let (_, field, make) ← ofNumber.find? (·.1 == case)
  let [some value] ← content.allFields? [field] | none
  (value.natural? wordLimit).map make

end NodeKind

structure Node where
  id : Nat
  inputs : List Nat
  kind : NodeKind
  deriving DecidableEq, Repr

namespace Node

def label (n : Node) : String :=
  let inputs := if n.inputs.isEmpty then "" else " inputs=" ++ Text.naturals n.inputs
  s!"[{n.id}] " ++ n.kind.label ++ inputs

def describe (n : Node) : String :=
  Text.record "Node"
    [("id", toString n.id), ("inputs", Text.naturals n.inputs), ("kind", n.kind.describe)]

def toJson (n : Node) : Json :=
  .record [("id", .natural n.id), ("inputs", .naturals n.inputs), ("kind", n.kind.toJson)]

def ofJson? (j : Json) : Option Node := do
  let [some id, some inputs, some kind] ← j.allFields? ["id", "inputs", "kind"] | none
  some {
    id := ← id.natural? wordLimit
    inputs := ← inputs.list? (Json.natural? wordLimit)
    kind := ← NodeKind.ofJson? kind }

end Node

structure Graph where
  nodes : List Node := []
  deriving DecidableEq, Repr

namespace Graph

def size (g : Graph) : Nat :=
  g.nodes.length

def node? (g : Graph) (id : Nat) : Option Node :=
  g.nodes[id]?

def kind? (g : Graph) (id : Nat) : Option NodeKind :=
  (g.node? id).map Node.kind

/-- The graph with one more node, whose inputs may be any numbers. -/
def push (g : Graph) (kind : NodeKind) (inputs : List Nat) : Graph :=
  { nodes := g.nodes ++ [{ id := g.size, inputs, kind }] }

theorem size_push (g : Graph) (kind : NodeKind) (inputs : List Nat) :
    (g.push kind inputs).size = g.size + 1 := by
  simp [push, size]

theorem kind?_push_size (g : Graph) (kind : NodeKind) (inputs : List Nat) :
    (g.push kind inputs).kind? g.size = some kind := by
  simp [push, kind?, node?, size]

theorem kind?_push_of_lt {g : Graph} {id : Nat} (h : id < g.size) (kind : NodeKind) (inputs : List Nat) :
    (g.push kind inputs).kind? id = g.kind? id := by
  simp [push, kind?, node?, List.getElem?_append_left (show id < g.nodes.length from h)]

/-- What keeps a node from being added: an input, or a producer, that is not there yet. -/
def additionFault (g : Graph) (kind : NodeKind) (inputs : List Nat) : Option Misuse :=
  match inputs.find? (g.size ≤ ·), kind with
  | some input, _ => some (.unknownInput g.size input)
  | none, .dataDependency producer =>
    if g.size ≤ producer then some (.unknownProducer g.size producer) else none
  | none, _ => none

/-- The graph with one more node, whose inputs are there already. -/
def add (g : Graph) (kind : NodeKind) (inputs : List Nat) : Except Error Graph :=
  match g.additionFault kind inputs with
  | some cause => throw (.config cause)
  | none => pure (g.push kind inputs)

def idsWhere (g : Graph) (p : NodeKind → Bool) : List Nat :=
  (List.range g.size).filter fun id => (g.kind? id).any p

def contexts (g : Graph) : List Nat :=
  g.idsWhere NodeKind.isContext

/-- The nodes that become instructions; a node's place among them is its slot. -/
def instructionNodes (g : Graph) : List Nat :=
  g.idsWhere NodeKind.isInstruction

def listing (g : Graph) : String :=
  String.join (g.nodes.map fun n => n.label ++ "\n")

def describe (g : Graph) : String :=
  Text.record "TaskGraph" [("nodes", Text.list (g.nodes.map Node.describe))]

def toJson (g : Graph) : Json :=
  .record [("nodes", .array (g.nodes.map Node.toJson))]

def ofJson? (j : Json) : Option Graph := do
  let [some nodes] ← j.allFields? ["nodes"] | none
  some { nodes := ← nodes.list? Node.ofJson? }

end Graph
end Offload
