import Offload.Context
import Offload.Graph

/-!
Steps of work and the graph they are wired into. A task or a stream-out takes each object from the
last task that wrote it, by way of a data dependency, or else from the object's latest stream-in.
-/

namespace Offload

inductive Step
  | streamIn (object : HostObject)
  | task (task : Task)
  | streamOut (object : HostObject)
  deriving DecidableEq, Repr

/-- A graph that is being built, with the context that its objects and tasks are bound in. -/
structure Wiring where
  context : Context
  graph : Graph
  /-- The latest task that writes an object, by the object's index. -/
  writers : List (Nat × Nat) := []
  /-- The latest stream-in of an object, by the object's index. -/
  streamIns : List (Nat × Nat) := []
  deriving DecidableEq, Repr

namespace Wiring

/-- A graph with nothing but the context node, which has id 0. -/
def start (c : Context) (device : Nat) : Except Error Wiring := do
  let _ ← c.place device
  return { context := c, graph := ← ({} : Graph).add (.context device) [] }

def contextNode : Nat :=
  0

def addNode (kind : NodeKind) (inputs : List Nat) : Action Wiring Nat := do
  let w ← get
  let graph ← w.graph.add kind inputs
  set { w with graph }
  return w.graph.size

def bind (o : HostObject) : Action Wiring Nat := do
  let w ← get
  let (index, context) := w.context.bind o
  set { w with context }
  return index

def modifyState (index : Nat) (f : ObjectState → ObjectState) : Action Wiring Unit :=
  modify fun w => { w with context := w.context.modifyState index f }

/-- The node that an object is taken from: a new data dependency if a task wrote the object. -/
def source (object : Nat) : Action Wiring (Option Nat) := do
  let w ← get
  match w.writers.lookup object with
  -- a task that wrote the object comes before any stream-in, also before a later one
  | some writer => return some (← addNode (.dataDependency writer) [])
  | none => return w.streamIns.lookup object

def streamIn (o : HostObject) : Action Wiring Nat := do
  let index ← bind o
  modifyState index fun s => { s with streamIn := true }
  let node ← addNode (.streamIn index) [contextNode]
  modify fun w => { w with streamIns := (index, node) :: w.streamIns }
  return node

/-- The sources of a task's arguments, each listed once, after `inputs`. -/
def argumentSources : List Argument → List Nat → Action Wiring (List Nat)
  | [], inputs => return inputs
  | a :: arguments, inputs => do
    let index ← bind a.object
    match ← source index with
    | some node => argumentSources arguments (if node ∈ inputs then inputs else inputs ++ [node])
    | none => argumentSources arguments inputs

def written (c : Context) (t : Task) : List Nat :=
  (t.arguments.filter (·.access.writes)).filterMap (c.objectIndex? ·.object.handle)

def task (t : Task) : Action Wiring Nat := do
  let w ← get
  let (index, context) := w.context.addTask t
  set { w with context }
  let inputs ← argumentSources t.arguments [contextNode]
  let node ← addNode (.task index) inputs
  modify fun w =>
    { w with writers := (written w.context t).map (·, node) ++ w.writers }
  return node

def streamOut (o : HostObject) : Action Wiring Nat := do
  let index ← bind o
  modifyState index fun s => { s with streamOut := true }
  match ← source index with
  | some node => addNode (.streamOut index) [contextNode, node]
  | none => addNode (.streamOut index) [contextNode]

def step : Step → Action Wiring Nat
  | .streamIn o => streamIn o
  | .task t => task t
  | .streamOut o => streamOut o

def build (c : Context) (device : Nat) (steps : List Step) : Except Error Wiring := do
  let (result, w) := (steps.forM fun s => discard (step s) : Action Wiring Unit) (← start c device)
  result
  return w

end Wiring
end Offload
