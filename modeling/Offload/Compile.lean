import Offload.Compile.Passes
import Offload.Compile.WaitLists
import Offload.Program.Assembly

/-!
Compiling a task graph to a program. The nodes are ordered once and issued once for each pass; each
waits for the list of its direct dependencies, and right after it is issued its event is appended to
every list that contains its slot.
-/

namespace Offload.Compile

def device (g : Graph) : Except Error Nat :=
  match g.contexts with
  | [] => throw (.config .noContextNode)
  | [id] =>
    match g.kind? id with
    | some (.context device) => pure device
    | _ => throw (.config .noContextNode)
  | many => throw (.config (.manyContextNodes many.length))

/-- How the host gets to know that the work is done. -/
inductive Ending
  /-- The last instruction is a stream-out, which blocks. -/
  | blockingStreamOut
  /-- A barrier waits for the nodes that nothing depends on. -/
  | barrier (list : Nat)
  deriving DecidableEq, Repr

/-- What is known of a graph before the passes are. -/
structure Layout where
  device : Nat
  /-- The instruction nodes in the order of their slots. -/
  instructions : List Nat
  /-- The instruction nodes in the order in which they are issued. -/
  order : List Nat
  /-- The list that each node waits for, if it waits for any. -/
  waits : List (Nat × Nat)
  lists : WaitLists
  ending : Ending
  deriving DecidableEq, Repr

def isStreamOut (g : Graph) (id : Nat) : Bool :=
  match g.kind? id with
  | some (.streamOut _) => true
  | _ => false

/-- The ending of a graph, whose barrier may need one more list. -/
def ending (g : Graph) (d : Graph.Dependencies) (order : List Nat) (lists : WaitLists) :
    Ending × WaitLists :=
  if order.getLast?.any (isStreamOut g) then (.blockingStreamOut, lists)
  else
    let (place, lists) := lists.intern (WaitLists.slots g.instructionNodes (g.sinks d))
    (.barrier place, lists)

def layout (g : Graph) (device : Nat) : Except Error Layout := do
  let d ← g.dependencies
  let instructions := g.instructionNodes
  let (waits, lists) := WaitLists.internAll d instructions instructions {}
  let order ← g.order d
  -- the barrier's list comes last, when every wait has its place
  let (ending, lists) := ending g d order lists
  return { device, instructions, order, waits, lists, ending }

def nodeInstruction? (g : Graph) (l : Layout) (pass : Pass) (id : Nat) : Option Instruction :=
  let wait := l.waits.lookup id
  match g.kind? id with
  | some (.task task) => some (.launch task l.device wait pass.offset pass.threads)
  | some (.streamIn object) => some (.streamIn object pass.offset pass.length wait)
  | some (.streamOut object) => some (.streamOut object pass.offset pass.length wait)
  | _ => none

/-- The instruction of a node, and one more for each list that its event belongs to. -/
def nodeBlock (g : Graph) (l : Layout) (pass : Pass) (id : Nat) : List Instruction :=
  match nodeInstruction? g l pass id with
  | none => []
  | some i =>
    let slot := (l.instructions.idxOf? id).getD 0
    i :: (l.lists.containing slot).map .addDep

def passBlock (g : Graph) (l : Layout) (pass : Pass) : List Instruction :=
  l.order.flatMap (nodeBlock g l pass)

/-- Everything up to the ending. -/
def body (g : Graph) (l : Layout) (tasks : Nat) (passes : List Pass) : List Instruction :=
  .begin l.instructions.length tasks l.lists.lists.length :: .context l.device ::
    passes.flatMap (passBlock g l)

def assemble (body : List Instruction) (ending : Ending) : Action Assembly Unit := do
  body.forM Assembly.emit
  match ending with
  -- nothing waits for the last stream-out, so no append has come after it
  | .blockingStreamOut => Assembly.rewriteLast .streamOut .streamOutBlocking
  | .barrier list => Assembly.emit (.barrier (some list))
  Assembly.emit .finish

end Compile

/-- The program of a graph over the tables of a context, in at most as many bytes as the settings allow. -/
def compile (r : Registry) (c : Context) (g : Graph) (batch : Option Nat) (config : Config) :
    Except Error Program := do
  let device ← Compile.device g
  let _ ← c.place device
  let l ← Compile.layout g device
  let passes ← Pass.plan r c batch
  let body := Compile.body g l c.tasks.length passes
  let (result, assembly) := Compile.assemble body l.ending { limit := config.maxBytecodeSize }
  result
  return assembly.program l.lists.lists

end Offload
