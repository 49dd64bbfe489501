import Offload.Error

/-!
Events: what a device tells about the commands it was given.
-/

namespace Offload

/-- A command's place in the queue of its device, counted from 1. -/
structure EventId where
  number : Nat
  deriving DecidableEq, Repr

namespace EventId

def label (e : EventId) : String :=
  s!"#{e.number}"

def describe (e : EventId) : String :=
  Text.application "EventId" [toString e.number]

def toJson (e : EventId) : Json :=
  .natural e.number

def ofJson? (j : Json) : Option EventId :=
  (j.natural? wordLimit).map EventId.mk

end EventId

inductive EventStatus
  | queued
  | running
  | complete
  | failed (fault : CommandFault)
  deriving DecidableEq, Repr

def EventStatus.isFinished : EventStatus → Bool
  | .complete | .failed _ => true
  | _ => false

/-- An event with the times at which its command was queued, started and ended. -/
structure EventInfo where
  id : EventId
  status : EventStatus
  queued : Nat
  started : Option Nat
  ended : Option Nat
  deriving DecidableEq, Repr

namespace EventInfo

def executionTime? (i : EventInfo) : Option Nat := do
  return (← i.ended) - (← i.started)

def totalTime? (i : EventInfo) : Option Nat :=
  i.ended.map (· - i.queued)

end EventInfo
end Offload
