import Offload.Proofs.Calls
import Offload.Proofs.Groups

/-!
Ordinary errors. A LAUNCH is two things, finding the kernel and going on with it; only the first ever fails for
want of a kernel, and nothing that an instruction does fails with the failure of an instruction.
-/

namespace Offload

-- The error neither says which instruction failed nor that a kernel is missing.
def Error.Ordinary : Error → Prop
  | .instruction .. => False
  | .config (.missingKernel ..) => False
  | _ => True

-- All errors of a computation are ordinary.
abbrev Ordinarily {α : Type} (x : Except Error α) : Prop :=
  Erring Error.Ordinary x

abbrev Action.Ordinary {σ α : Type} (x : Action σ α) : Prop :=
  x.Errs Error.Ordinary

namespace Device

theorem ordinary_perform {α : Type} (wait : List EventId) (blocking : Bool)
    (body : Memory → Except CommandFault α × Memory) : (perform wait blocking body).Ordinary := by
  refine .bind .get fun d => ?_
  rcases submit wait body d with ⟨own, fault | a, d'⟩ <;> refine .bind (fun _ => nofun) fun _ => ?_
  case ok => exact .pure _
  case error =>
    cases blocking with
    | true => exact .throw trivial
    | false => exact .pure _

theorem ordinary_allocate (size : Nat) : (allocate size).Ordinary := by
  refine .bind .get fun d => ?_
  split
  case h_1 => exact .throw trivial
  case h_2 => exact .bind (fun _ => nofun) fun _ => .pure _

theorem ordinary_launch (kernel : Nat) (arguments : List BufferId) (geometry : Geometry)
    (wait : List EventId) : (launch kernel arguments geometry wait).Ordinary := by
  refine .bind .get fun d => ?_
  dsimp only
  split
  case h_1 => exact .bind (ordinary_perform _ _ _) fun _ => .pure _
  case h_2 => exact .throw trivial

theorem ordinary_resolve (e : EventId) : (resolve e).Ordinary := by
  refine .bind .get fun d => ?_
  split
  case h_1 => exact .pure _
  case h_2 => exact .throw trivial

theorem ordinary_wait (events : List EventId) : (Device.wait events).Ordinary := by
  refine .bind .get fun d => ?_
  split
  case h_1 => exact .throw trivial
  case h_2 => exact .pure _

end Device

theorem Geometry.ordinary_launch (domain : List Nat) (threads : Nat) (limits : Limits) (t : Tuning) :
    Ordinarily (Geometry.launch domain threads limits t) := by
  refine (config_launch domain threads limits t).mono fun e he => ?_
  obtain ⟨cause, rfl, hcause⟩ := he
  cases cause with
  | missingKernel kernel device => exact hcause kernel device rfl
  | _ => trivial

theorem Registry.ordinary_window (r : Registry) (o : HostObject) (offset length : Nat) :
    Ordinarily (r.window o offset length) := by
  unfold window
  dsimp only
  split
  case isTrue => exact .pure _
  case isFalse => exact .throw trivial

theorem Channel.ordinary_noting {α : Type} {note : Except Error α → Call} {call : Action Device α}
    (h : call.Ordinary) : (noting note call).Ordinary :=
  fun p => h p.device

namespace Context

variable {α : Type}

theorem ordinary_onPlatform {act : Action Channel α} (h : act.Ordinary) (place : Nat) :
    (Hosted.onPlatform (Platform.onChannel place act) : On α).Ordinary :=
  fun s => h (s.platform.channel place)

theorem ordinary_place (c : Context) (device : Nat) : Ordinarily (c.place device) := by
  unfold place
  split
  case h_1 => exact .pure _
  case h_2 => exact .throw trivial

theorem ordinary_binding (c : Context) (index : Nat) : Ordinarily (c.binding index) := by
  unfold binding
  split
  case h_1 => exact .pure _
  case h_2 => exact .throw trivial

theorem ordinary_task (c : Context) (index : Nat) : Ordinarily (c.task index) := by
  unfold task
  split
  case h_1 => exact .pure _
  case h_2 => exact .throw trivial

theorem ordinary_objectIndex (c : Context) (h : Handle) : Ordinarily (c.objectIndex h) := by
  unfold objectIndex
  split
  case h_1 => exact .pure _
  case h_2 => exact .throw trivial

theorem ordinary_onDevice {act : Action Channel α} (h : act.Ordinary) (device : Nat) :
    (onDevice device act).Ordinary :=
  .bind .get fun _ => .bind (.lift (ordinary_place _ _)) fun _ => ordinary_onPlatform h _

theorem ordinary_activate (device : Nat) : (activate device).Ordinary := by
  refine .bind .get fun _ => .bind (.lift (ordinary_place _ _)) fun _ => .bind .get fun s => ?_
  dsimp only
  split
  case h_2 => exact .modify _
  case h_1 =>
    split
    case isTrue => exact .bind (.modify _) fun _ => .modify _
    case isFalse => exact .modify _

theorem ordinary_ensureBuffer (device index size : Nat) : (ensureBuffer device index size).Ordinary := by
  have hallocate (k : Handle) : (allocateBuffer device index size k).Ordinary := by
    refine .bind (.tryCatch (ordinary_onDevice (Channel.ordinary_noting (Device.ordinary_allocate size)) device)
      fun e he => .throw ?_) fun _ => .bind (.modify _) fun _ => .pure _
    cases e with
    | instruction => cases he
    | _ => trivial
  have hreplace (b : Binding) : (replaceBuffer device index size b).Ordinary := by
    refine .bind .get fun _ => .bind (.lift (ordinary_place _ _)) fun _ => ?_
    dsimp only
    split
    case h_2 => exact hallocate _
    case h_1 =>
      exact .bind (.modify _) fun _ =>
        .bind (ordinary_onDevice (Channel.ordinary_noting (.modify _)) device) fun _ => hallocate _
  intro s
  refine ensureBuffer_ends (Q := fun r _ => Erring Error.Ordinary r) (fun e hb e' he' => ?_)
    (fun _ _ _ _ _ => nofun) fun b _ _ => hreplace b s
  cases he'
  exact ordinary_binding _ _ _ hb

theorem ordinary_readBack (place : Nat) (id : BufferId) (h : Handle) (offset length : Nat)
    (wait : List EventId) (blocking : Bool) :
    (Hosted.onPlatform (Platform.readBack place id h offset length wait blocking) : On EventId).Ordinary := by
  have hread : (Platform.readBack place id h offset length wait blocking).Ordinary := by
    refine .bind .get fun p => .bind (fun p => ?_) fun (event, data) => ?_
    case refine_1 => exact Device.ordinary_perform wait blocking _ (p.channel place).device
    case refine_2 =>
      cases data with
      | none => exact .pure _
      | some data => exact .bind (.modify _) fun _ => .pure _
  exact fun s => hread s.platform

end Context

namespace Machine

open Context

variable {m : Machine} {r : Run}

theorem ordinary_device (r : Run) : Ordinarily r.device := by
  unfold Run.device
  split
  case h_1 => exact .pure _
  case h_2 => exact .throw trivial

theorem ordinary_count (m : Machine) (f : Counters → Counters) : (m.count f).Ordinary := by
  unfold count
  split
  case isTrue => exact .modify _
  case isFalse => exact .pure _

theorem ordinary_record (index : Nat) (event : Option EventId) : (m.record r index event).Ordinary :=
  .bind (m.ordinary_count _) fun _ => .pure _

theorem ordinary_streamIn (object offset length : Nat) (wait : List EventId) :
    (m.streamIn r object offset length wait).Ordinary := by
  refine .bind (.lift (ordinary_device r)) fun t => .bind .get fun s =>
    .bind (.lift (ordinary_binding _ _)) fun b => .bind (ordinary_ensureBuffer _ _ _) fun buffer =>
      .bind .get fun _ => .bind (.lift (ordinary_binding _ _)) fun _ => ?_
  dsimp only
  split
  case isTrue => exact .pure _
  case isFalse =>
    refine .bind (.lift ?_) fun data => .bind (ordinary_onPlatform (Channel.ordinary_noting ?_) _)
      fun _ => .bind (.modify _) fun _ => .bind (m.ordinary_count _) fun _ => .pure _
    case refine_1 => exact Registry.ordinary_window _ _ _ _
    case refine_2 => exact .bind (Device.ordinary_perform _ _ _) fun _ => .pure _

-- A launch once its kernel is found; `call` is how the device is asked to run it.
def launchBy (m : Machine) (call : List BufferId → Geometry → Action Channel EventId)
    (task device offset threads : Nat) : On EventId := do
  let place ← (← get).part.place device
  let t ← (← get).part.task task
  let buffers ← t.arguments.mapM (argumentBuffer device threads)
  let limits := ((← get).platform.channel place).device.limits
  let geometry ← Geometry.launch t.domain threads limits m.config.tuning
  let event ← onDevice device (call buffers geometry)
  m.count Counters.countLaunch
  if t.exceptions then checkLaunch device t event
  modifyContext (·.markWritten t offset)
  return event

theorem launch_eq (m : Machine) (task device offset threads : Nat) (wait : List EventId) :
    m.launch task device offset threads wait = (do
      let kernel ← Context.kernel device task
      m.launchBy (fun ids geometry => Channel.launch kernel ids geometry wait) task device offset threads) :=
  rfl

theorem ordinary_launchBy {call : List BufferId → Geometry → Action Channel EventId}
    (hcall : ∀ ids geometry, (call ids geometry).Ordinary) (task device offset threads : Nat) :
    (m.launchBy call task device offset threads).Ordinary := by
  have hargument (a : Argument) : (argumentBuffer device threads a).Ordinary := by
    refine .bind .get fun _ => .bind (.lift (ordinary_objectIndex _ _)) fun _ =>
      .bind (.lift (ordinary_binding _ _)) fun _ => ?_
    dsimp only
    split
    case h_2 => exact ordinary_ensureBuffer _ _ _
    case h_1 =>
      split
      case isTrue => exact .pure _
      case isFalse => exact ordinary_ensureBuffer _ _ _
  have hcheck (t : Task) (event : EventId) : (checkLaunch device t event).Ordinary := by
    refine .bind (ordinary_onDevice (Channel.ordinary_noting (Device.ordinary_wait _)) device) fun _ =>
      .bind (ordinary_onDevice (Channel.ordinary_noting (Device.ordinary_resolve _)) device) fun _ => ?_
    split
    case h_1 => exact .throw trivial
    case h_2 => exact .pure _
  refine .bind .get fun _ => .bind (.lift (ordinary_place _ _)) fun _ => .bind .get fun _ =>
    .bind (.lift (ordinary_task _ _)) fun t => .bind (.mapM hargument _) fun _ => .bind .get fun _ =>
      .bind (.lift (Geometry.ordinary_launch _ _ _ _)) fun _ => .bind (ordinary_onDevice (hcall _ _) device)
        fun event => .bind (m.ordinary_count _) fun _ => ?_
  dsimp only
  split
  case isTrue => exact .bind (hcheck t event) fun _ => .bind (.modify _) fun _ => .pure _
  case isFalse => exact .bind (.modify _) fun _ => .pure _

theorem ordinary_streamOut (object offset length : Nat) (wait : List EventId) (blocking : Bool) :
    (m.streamOut r object offset length wait blocking).Ordinary := by
  refine .bind (.lift (ordinary_device r)) fun t => .bind .get fun s =>
    .bind (.lift (ordinary_binding _ _)) fun b => ?_
  dsimp only
  split
  case h_2 => exact .throw trivial
  case h_1 =>
    split
    case isTrue => exact .throw trivial
    case isFalse =>
      refine .bind (ordinary_readBack _ _ _ _ _ _ _) fun _ => .bind (m.ordinary_count _) fun _ => ?_
      split
      case isTrue => exact .bind (.modify _) fun _ => .pure _
      case isFalse => exact .pure _

end Machine
end Offload
