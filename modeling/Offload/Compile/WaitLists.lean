import Offload.Graph.Order

/-!
The table of dependency lists: sets of slots, each of them entered once.
-/

namespace Offload

structure WaitLists where
  lists : List (List Nat) := []
  deriving DecidableEq, Repr

namespace WaitLists

/-- The place of a set of slots in the table, which is entered if it is new. -/
def intern (w : WaitLists) (slots : List Nat) : Nat × WaitLists :=
  match w.lists.idxOf? slots with
  | some place => (place, w)
  | none => (w.lists.length, { lists := w.lists ++ [slots] })

theorem getElem?_intern (w : WaitLists) (slots : List Nat) :
    (w.intern slots).2.lists[(w.intern slots).1]? = some slots := by
  unfold intern
  split
  case h_1 place h =>
    obtain ⟨hlt, heq, _⟩ := List.findIdx?_eq_some_iff_getElem.mp h
    simpa [List.getElem?_eq_getElem hlt] using heq
  case h_2 => simp

/-- The lists that a slot is in, ascending. -/
def containing (w : WaitLists) (slot : Nat) : List Nat :=
  (List.range w.lists.length).filter fun place => slot ∈ w.lists.getD place []

/-- The slots of nodes, where `instructions` holds the nodes in the order of their slots. -/
def slots (instructions nodes : List Nat) : List Nat :=
  nodes.filterMap (instructions.idxOf? ·)

/--
Enters the dependencies of each of the nodes that has any, and answers with the list that each node
waits for.
-/
def internAll (d : Graph.Dependencies) (instructions : List Nat) :
    List Nat → WaitLists → List (Nat × Nat) × WaitLists
  | [], w => ([], w)
  | node :: nodes, w =>
    match slots instructions (d.of node) with
    | [] => internAll d instructions nodes w
    | needed =>
      let (place, w) := w.intern needed
      let (waits, w) := internAll d instructions nodes w
      ((node, place) :: waits, w)

end WaitLists
end Offload
