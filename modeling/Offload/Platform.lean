import Offload.Device.Channel
import Offload.Metrics
import Offload.Object.Registry

/-!
A platform: the settings, the registered objects, the devices and the counters that all contexts,
machines and schedules on it share.
-/

namespace Offload

structure Platform where
  config : Config := {}
  registry : Registry := {}
  channels : List Channel := []
  counters : Counters := {}

namespace Platform

def create (config : Config) : Except Error Platform := do
  config.validate
  return { config }

def addDevice (p : Platform) (d : Device) : Nat × Platform :=
  (p.channels.length, { p with channels := p.channels ++ [{ device := d }] })

/-- What a place without a device answers from. -/
def blank : Channel where
  device := { limits := { computeUnits := 0 }, threadName := "" }

def channel (p : Platform) (place : Nat) : Channel :=
  p.channels.getD place blank

def setChannel (p : Platform) (place : Nat) (channel : Channel) : Platform :=
  { p with channels := p.channels.set place channel }

def onChannel {α : Type} (place : Nat) (act : Action Channel α) : Action Platform α :=
  fun p =>
    let (result, channel) := act (p.channel place)
    (result, p.setChannel place channel)

/-- Reads the front of a device buffer into a host object from `offset` on. -/
def readBack (place : Nat) (id : BufferId) (h : Handle) (offset length : Nat) (wait : List EventId)
    (blocking : Bool) : Action Platform EventId := do
  let hostSize := (← get).registry.byteLength h
  let (event, data) ← onChannel place (Channel.read id hostSize offset length wait blocking)
  -- a command that failed brought nothing, and may have failed without telling
  if let some data := data then
    modify fun p => { p with registry := p.registry.deliver h offset data }
  return event

def describe (p : Platform) : String :=
  Text.record "Runtime" [("config", p.config.describe), ("registry", p.registry.describe)]

end Platform

/-- Something that lives on a platform, together with the platform. -/
structure Hosted (α : Type) where
  platform : Platform
  part : α

namespace Hosted

variable {α β γ : Type}

def onPlatform (act : Action Platform β) : Action (Hosted α) β :=
  fun s =>
    let (result, platform) := act s.platform
    (result, { s with platform })

/-- Runs something on a part of the part; `put` puts the piece back. -/
def onPiece (piece : α → γ) (put : α → γ → α) (act : Action (Hosted γ) β) : Action (Hosted α) β :=
  fun s =>
    let (result, t) := act { platform := s.platform, part := piece s.part }
    (result, { platform := t.platform, part := put s.part t.part })

def count (f : Counters → Counters) : Action (Hosted α) Unit :=
  modify fun s => { s with platform := { s.platform with counters := f s.platform.counters } }

end Hosted
end Offload
