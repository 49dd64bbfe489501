import Offload.Graph.Dependencies

/-!
List scheduling: the instruction nodes are scanned in ascending order, again and again, and each is
taken as soon as all its dependencies were. What no scan takes lies on or behind a cycle.
-/

namespace Offload.Graph

/-- Takes node `id` if it is new and all it depends on was taken. -/
def take (d : Dependencies) (order : List Nat) (id : Nat) : List Nat :=
  if id ∈ order then order
  else if (d.of id).all (· ∈ order) then order ++ [id]
  else order

def scan (d : Dependencies) (candidates order : List Nat) : List Nat :=
  candidates.foldl (take d) order

/-- Scans until one of them takes nothing, at most `fuel` times. -/
def scans (d : Dependencies) (candidates : List Nat) : Nat → List Nat → List Nat
  | 0, order => order
  | fuel + 1, order =>
    let next := scan d candidates order
    if next.length = order.length then order else scans d candidates fuel next

def taken (d : Dependencies) (candidates : List Nat) : List Nat :=
  -- each scan but the last takes a candidate, so there are at most as many scans as candidates
  scans d candidates candidates.length []

/-- The instruction nodes in an order that respects their dependencies. -/
def order (g : Graph) (d : Dependencies) : Except Error (List Nat) :=
  let candidates := g.instructionNodes
  let order := taken d candidates
  let stuck := candidates.filter (· ∉ order)
  if stuck = [] then pure order
  else throw (.config (.cycle (stuck.map fun id => (id, ((g.kind? id).map NodeKind.name).getD ""))))

end Offload.Graph
