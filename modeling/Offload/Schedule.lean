import Offload.Compile
import Offload.Machine.Execution
import Offload.Program.Dump
import Offload.Wiring

/-!
Schedules: steps of work on one device, compiled once and executed as often as needed. A step that is
added after the graph was built discards the graph, the program and the context's bindings.
-/

namespace Offload

structure Schedule where
  config : Config
  context : Context
  device : Nat
  steps : List Step := []
  graph : Option Graph := none
  machine : Option Machine := none
  deriving DecidableEq, Repr

namespace Schedule

abbrev On := Action (Hosted Schedule)

def create (p : Platform) (name : String) (place : Nat) : Schedule :=
  let (device, context) := ({ name } : Context).addDevice place
  { config := p.config, context, device }

def modifySchedule (f : Schedule → Schedule) : On Unit :=
  modify fun s => { s with part := f s.part }

def onContext {α : Type} (act : Context.On α) : On α :=
  Hosted.onPiece Schedule.context (fun s c => { s with context := c }) act

/-- The schedule with a context of the same name and device, in which nothing is bound. -/
def renew (s : Schedule) : Schedule :=
  match s.context.place s.device with
  | .error _ => s
  | .ok place =>
    let (device, context) := ({ name := s.context.name } : Context).addDevice place
    { s with context, device }

def push (step : Step) : On Unit := do
  if (← get).part.graph.isSome then
    -- the context is given up like one that nobody needs any more
    modifySchedule fun s => { s with graph := none, machine := none }
    onContext Context.invalidate
    modifySchedule renew
  modifySchedule fun s => { s with steps := s.steps ++ [step] }

def setConfig (config : Config) : On Unit := do
  config.validate
  modifySchedule fun s => { s with config, machine := none }

def builtGraph : On Graph := do
  let s := (← get).part
  match s.graph with
  | some graph => return graph
  | none =>
    let w ← Wiring.build s.context s.device s.steps
    modifySchedule fun s => { s with context := w.context, graph := some w.graph }
    return w.graph

/-- Compiles the steps, in batches of the given size if there is one. -/
def compile (batch : Option Nat) : On Program := do
  let graph ← builtGraph
  let s ← get
  -- if this fails, the machine made before stays
  let program ← Offload.compile s.platform.registry s.part.context graph batch s.part.config
  let machine ← Machine.create program s.part.config
  modifySchedule fun s => { s with machine := some { machine with counted := true } }
  return program

def execute : On Execution := do
  if (← get).part.machine.isNone then
    let _ ← compile none
  match (← get).part.machine with
  | some machine => onContext machine.execute
  | none => throw (.config .notCompiled)

def sync (objects : List HostObject) : On Unit :=
  onContext (Context.sync objects)

def program? (s : Schedule) : Option Program :=
  s.machine.map Machine.program

def dump (s : Schedule) : Except Error String :=
  match s.program? with
  | some program => pure program.dump
  | none => throw (.config .notCompiled)

def describe (s : Schedule) : String :=
  Text.record "TaskSchedule"
    [("context", s.context.describe), ("steps", toString s.steps.length),
      ("compiled", toString s.machine.isSome)]

end Schedule
end Offload
