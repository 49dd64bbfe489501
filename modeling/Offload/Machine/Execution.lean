import Offload.Machine

/-!
Waiting for an execution: when all its commands ended well, the device owns what was streamed out.
-/

namespace Offload.Execution

def describe (e : Execution) : String :=
  Text.record "ExecutionHandle"
    [("device", toString e.target.index), ("final_event", Text.optional (e.final.map EventId.describe)),
      ("events", toString e.events.length)]

def onTarget {α : Type} (act : Action Channel α) : Action (Hosted Execution) α := do
  let place := (← get).part.target.place
  Hosted.onPlatform (Platform.onChannel place act)

def resolve (event : EventId) : Action (Hosted Execution) EventInfo :=
  onTarget (Channel.resolve event)

/-- Marks the instructions whose events ended well, and answers with the first fault of the others. -/
def settle : List (Nat × EventId) → Option Error → Action (Hosted Execution) (Option Error)
  | [], failure => return failure
  | (index, event) :: events, failure => do
    let info ← resolve event
    match info.status with
    | .complete =>
      modify fun s => { s with part := { s.part with states := s.part.states.set index .completed } }
      settle events failure
    | .failed fault =>
      let device := (← get).part.target.index
      settle events (some (failure.getD (.device device event.number fault)))
    | _ => settle events failure

def publish (device : Nat) (p : Platform) (h : Handle) : Platform :=
  { p with registry := p.registry.setOwner h device true }

/-- Waits until everything that was issued is over; the first command that failed is the failure. -/
def wait : Action (Hosted Execution) Unit := do
  let e := (← get).part
  onTarget (Channel.wait (e.events.map Prod.snd))
  match ← settle e.events none with
  | some failure => throw failure
  | none =>
    -- nothing is owned by the device unless everything ended well
    modify fun s =>
      { platform := s.part.pending.foldl (publish s.part.target.index) s.platform,
        part := { s.part with pending := [] } }

end Offload.Execution
