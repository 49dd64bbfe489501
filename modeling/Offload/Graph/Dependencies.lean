import Offload.Graph

/-!
Which instruction nodes an instruction node depends on directly: its inputs, with chains of data
dependencies followed to the node that produces the value and contexts left out.
-/

namespace Offload.Graph

/--
The node that produces what node `id` stands for, or `none` for a context. A chain of data
dependencies that takes `fuel` steps without an end is refused.
-/
def producerWithin (g : Graph) : (fuel id : Nat) → Except Error (Option Nat)
  | 0, id => throw (.config (.endlessChain id))
  | fuel + 1, id =>
    match g.kind? id with
    | none => throw (.config (.missingNode id))
    | some (.dataDependency producer) => g.producerWithin fuel producer
    | some (.context _) => pure none
    | some _ => pure (some id)

def producer (g : Graph) (id : Nat) : Except Error (Option Nat) :=
  -- a chain with more links than there are nodes passes some node twice
  g.producerWithin (g.size + 1) id

/-- The producers of a node's inputs, ascending; nothing for a node that is no instruction. -/
def nodeDependencies (g : Graph) (n : Node) : Except Error (List Nat) := do
  if n.kind.isInstruction then
    let producers ← n.inputs.mapM g.producer
    return (List.range g.size).filter fun id => some id ∈ producers
  else return []

/-- The direct dependencies of every node by its id. -/
structure Dependencies where
  lists : List (List Nat)
  deriving DecidableEq, Repr

def dependencies (g : Graph) : Except Error Dependencies := do
  return { lists := ← g.nodes.mapM g.nodeDependencies }

namespace Dependencies

def of (d : Dependencies) (id : Nat) : List Nat :=
  d.lists[id]?.getD []

end Dependencies

/-- The instruction nodes that no node depends on, ascending. -/
def sinks (g : Graph) (d : Dependencies) : List Nat :=
  g.instructionNodes.filter fun id => d.lists.all fun list => id ∉ list

end Offload.Graph
