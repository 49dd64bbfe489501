import Offload.Error
import Offload.Geometry

/-!
Kernels. A kernel sees the shape of its launch and the contents of its arguments, and answers with the
writes it makes, in order, and how it ends. Main statement: whatever a kernel does, every argument
keeps its length.
-/

namespace Offload

structure Invocation where
  geometry : Geometry
  arguments : List Bytes

namespace Invocation

def globalSize (v : Invocation) (dimension : Nat) : Nat :=
  v.geometry.global.getD dimension 1

def groupSize (v : Invocation) (dimension : Nat) : Nat :=
  v.geometry.group.getD dimension 1

def workItems (v : Invocation) : Nat :=
  v.geometry.global.foldl (· * ·) 1

def bytes (v : Invocation) (argument : Nat) : Except KernelFault Bytes :=
  match v.arguments[argument]? with
  | some bytes => pure bytes
  | none => throw (.missingArgument argument)

def describe (v : Invocation) : String :=
  Text.record "KernelContext"
    [("geometry", v.geometry.describe), ("args", toString v.arguments.length)]

end Invocation

/-- The writes of a kernel, each over the front of an argument, and the fault it ends with, if any. -/
structure Script where
  writes : List (Nat × Bytes) := []
  fault : Option KernelFault := none

abbrev Kernel := Invocation → Script

namespace Script

def write (arguments : List Bytes) (argument : Nat) (data : Bytes) : Except KernelFault (List Bytes) :=
  match arguments[argument]? with
  | none => throw (.missingArgument argument)
  | some old =>
    if old.length < data.length then throw (.overfullArgument argument data.length old.length)
    else pure (arguments.set argument (Bytes.overlay data old))

/-- The arguments after all writes; a write that does not fit is the last one and fails the kernel. -/
def perform : List (Nat × Bytes) → Option KernelFault → List Bytes → List Bytes × Option KernelFault
  | [], fault, arguments => (arguments, fault)
  | (argument, data) :: writes, fault, arguments =>
    match write arguments argument data with
    | .error fault => (arguments, some fault)
    | .ok arguments => perform writes fault arguments

def run (s : Script) (arguments : List Bytes) : List Bytes × Option KernelFault :=
  perform s.writes s.fault arguments

theorem write_lengths {arguments next : List Bytes} {argument : Nat} {data : Bytes}
    (h : write arguments argument data = .ok next) :
    next.map List.length = arguments.map List.length := by
  unfold write at h
  split at h
  case h_1 => cases h
  case h_2 old hold =>
    split at h
    case isTrue => cases h
    case isFalse hfit =>
      cases h
      obtain ⟨hlt, rfl⟩ := List.getElem?_eq_some_iff.mp hold
      rw [List.map_set, Bytes.overlay_length (Nat.le_of_not_lt hfit)]
      exact List.ext_getElem? fun i => by
        by_cases hi : argument = i
        case pos => subst hi; simp [hlt]
        case neg => simp [List.getElem?_set_ne hi]

theorem perform_lengths (writes : List (Nat × Bytes)) (fault : Option KernelFault)
    (arguments : List Bytes) :
    (perform writes fault arguments).1.map List.length = arguments.map List.length := by
  induction writes generalizing arguments with
  | nil => rfl
  | cons head writes ih =>
    obtain ⟨argument, data⟩ := head
    unfold perform
    split
    case h_1 => rfl
    case h_2 next h => rw [ih next, write_lengths h]

theorem run_lengths (s : Script) (arguments : List Bytes) :
    (s.run arguments).1.map List.length = arguments.map List.length :=
  perform_lengths s.writes s.fault arguments

def failing (fault : KernelFault) : Script :=
  { fault := some fault }

/-- The script that a computation yields, or the one that fails as the computation does. -/
def ofExcept : Except KernelFault Script → Script
  | .ok s => s
  | .error fault => failing fault

end Script
end Offload
