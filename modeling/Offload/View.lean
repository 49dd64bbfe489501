import Offload.Bytes.Hex
import Offload.Schedule

/-!
JSON views of errors, programs, objects, devices, contexts and executions, for those who look at a
platform from outside. Floating-point numbers are shown as their bits.
-/

namespace Offload.View

/-- `n` in hexadecimal, filled up with zeros to the given number of digits. -/
def bits (digits n : Nat) : Json :=
  let text := Text.hex n
  .text (String.ofList (List.replicate (digits - text.length) '0') ++ text)

def float (x : Float) : Json :=
  bits 16 x.toBits.toNat

def bytes (b : Bytes) : Json :=
  .text b.toHex

def optionalText : Option String → Json
  | none => .null
  | some s => .text s

/-- The word of a number as the number it stands for; a float by its bits. -/
def number (t : Numeric) (word : Nat) : Json :=
  if t.isFloat then bits (2 * t.width) word
  else match t.toInt word with
    | .ofNat n => .natural n
    | n => .decimal (toString n)

def errorKind : Error → String
  | .config _ => "Config"
  | .resource .. => "Resource"
  | .encoding _ => "Encoding"
  | .decode .. => "Decode"
  | .device .. => "Device"
  | .instruction .. => "Instruction"
  | .file => "Io"
  | .json => "Serialization"

/-- The text is left out where it belongs to a file system or a document. -/
def errorMembers (e : Error) : List (String × Json) :=
  let kinds := [("error", Json.text (errorKind e)), ("root", .text (errorKind e.root)),
    ("recoverable", .bool e.isRecoverable)]
  match e.root with
  | .file | .json => kinds
  | _ => kinds ++ [("message", .text e.message)]

def error (e : Error) : Json :=
  .record (errorMembers e)

def outcome {α : Type} (view : α → Json) : Except Error α → Json
  | .ok a => view a
  | .error e => error e

def programMembers (p : Program) : List (String × Json) :=
  [("code", bytes p.code), ("dep_lists", .array (p.lists.map Json.naturals)), ("size", .natural p.size),
    ("listing", .text p.listing)]

def program (p : Program) : Json :=
  .record (programMembers p)

def fullProgram (p : Program) (config : Config) : Json :=
  .record (programMembers p ++
    [("decode", outcome (fun instructions => .array (instructions.map Instruction.toJson)) p.decode),
      ("json", .text p.dump), ("vm", outcome (fun m => .text m.describe) (Machine.create p config))])

def opcode (op : Opcode) : Json :=
  .record [("name", .text op.mnemonic), ("display", .text op.mnemonic), ("debug", .text op.name),
    ("byte", .natural op.byte.toNat), ("node", .bool op.isNode)]

def geometry (g : Geometry) : Json :=
  .record [("global", .naturals g.global), ("local", .naturals g.group), ("dims", .natural g.rank),
    ("groups", .naturals g.groups), ("display", .text g.label)]

def counterMembers (c : Counters) : List (String × Json) :=
  [("executions", .natural c.executions.toNat),
    ("instructions_issued", .natural c.instructionsIssued.toNat),
    ("kernels_launched", .natural c.kernelsLaunched.toNat), ("barriers", .natural c.barriers.toNat),
    ("bytes_in", .natural c.bytesIn.toNat), ("bytes_out", .natural c.bytesOut.toNat),
    ("instructions_per_execution", float c.instructionsPerExecution)]

def snapshot (s : Snapshot) : Json :=
  .record (counterMembers s.counters ++
    [("avg", .natural s.average), ("p50", .natural s.p50), ("p95", .natural s.p95),
      ("p99", .natural s.p99), ("max", .natural s.maximum)])

def figure : Figure → Json
  | .count n => .natural n
  | .quantity x => float x

def object (r : Registry) (o : HostObject) : Json :=
  let length := r.byteLength o.handle
  .record [("handle", .natural o.handle.id), ("kind", o.kind.toJson), ("scalar", .bool o.isScalar),
    ("element", optionalText (o.kind.element?.map Element.name)), ("bytes", .natural length),
    ("debug", .text (o.describe length)), ("display", .text o.handle.label)]

def registry (r : Registry) : Json :=
  .record [("len", .natural r.size), ("empty", .bool (r.size == 0)), ("debug", .text r.describe)]

def ownership (o : Ownership) : Json :=
  .record [("owner", .optional o.owner), ("shared", .bool o.shared), ("exclusive", .bool o.isExclusive)]

def device (d : Device) : Json :=
  .record [("name", .text d.name), ("index", .natural d.index), ("thread", .text d.queueThread),
    ("class", d.limits.deviceClass.toJson), ("sizes", .naturals d.limits.maxItems.toList),
    ("units", .natural d.limits.computeUnits), ("group", .natural d.limits.maxGroupSize),
    ("debug", .text d.describe)]

def event (i : EventInfo) : Json :=
  let (status, message) := match i.status with
    | .queued => ("Queued", [])
    | .running => ("Running", [])
    | .complete => ("Complete", [])
    | .failed fault => ("Failed", [("message", Json.text fault.message)])
  .record ([("id", .natural i.id.number), ("status", .text status),
    ("timed", .bool (i.executionTime?.isSome && i.totalTime?.isSome))] ++ message)

def eventId (e : EventId) : Json :=
  .natural e.number

def eventIds (list : List EventId) : Json :=
  .array (list.map eventId)

def bufferId (b : BufferId) : Json :=
  .natural b.number

/-- What a call yielded, or the kind of its error. -/
def result {α : Type} (view : α → Json) : Except Error α → Json
  | .ok a => view a
  | .error e => .text (errorKind e)

def call : Call → Json
  | .allocate size r => .array [.text "allocate", .natural size, result bufferId r]
  | .release buffer => .array [.text "release", bufferId buffer]
  | .write buffer length wait blocking r =>
    .array [.text "write", bufferId buffer, .natural length, eventIds wait, .bool blocking,
      result eventId r]
  | .read buffer offset length wait blocking r =>
    .array [.text "read", bufferId buffer, .natural offset, .natural length, eventIds wait,
      .bool blocking, result eventId r]
  | .lookup name found => .array [.text "lookup_kernel", .text name, .optional found]
  | .launch kernel arguments geometry wait r =>
    .array [.text "launch", .natural kernel, .array (arguments.map bufferId), .naturals geometry.global,
      .naturals geometry.group, eventIds wait, result eventId r]
  | .barrier wait r => .array [.text "barrier", eventIds wait, result eventId r]
  | .marker wait r => .array [.text "marker", eventIds wait, result eventId r]
  | .resolve event => .array [.text "resolve_event", eventId event]
  | .wait events => .array [.text "wait", eventIds events]

def objectState (s : ObjectState) : Json :=
  .record [("stream_in", .bool s.streamIn), ("stream_out", .bool s.streamOut),
    ("buffer", .optional (s.buffer.map BufferId.number)), ("size", .natural s.size),
    ("host_offset", .natural s.hostOffset), ("valid", .bool s.isValid), ("written", .bool s.written)]

def context (c : Context) : Json :=
  .record [("name", .text c.name), ("devices", .natural c.devices.length), ("active", .optional c.active),
    ("tasks", .natural c.tasks.length), ("objects", .naturals (c.bindings.map (·.object.handle.id))),
    ("states", .array (c.bindings.map fun b => objectState b.state)), ("debug", .text c.describe)]

def task (t : Task) : Json :=
  .record [("debug", .text t.describe), ("id", .text t.id), ("kernel", .text t.kernel),
    ("domain", .naturals t.domain), ("exceptions", .bool t.exceptions),
    ("args", .array (t.arguments.map fun a =>
      .array [.natural a.object.handle.id, .text a.access.name]))]

def execution (e : Execution) : Json :=
  .record [("device", .natural e.target.index), ("final_event", .optional (e.final.map EventId.number)),
    ("states", .array (e.states.map fun s => .text s.name)),
    ("events", .array (e.events.map fun (index, event) => .naturals [index, event.number])),
    ("debug", .text e.describe)]

def schedule (s : Schedule) : Json :=
  .record [("graph", optionalText (s.graph.map Graph.listing)),
    ("program", (s.program?.map program).getD .null), ("context", context s.context),
    ("debug", .text s.describe)]

end Offload.View
