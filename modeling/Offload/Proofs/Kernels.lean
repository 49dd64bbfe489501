import Offload.Proofs.Customs
import Offload.Proofs.Earning
import Offload.Proofs.Twins

/-!
Kernels that were found. A device is what it is, whatever is done on it, and so what a context found out about its
kernels stays true; nothing that a context does depends on whether it found them already.
-/

namespace Offload

namespace Device

variable {α : Type}

-- It is the same device.
def Same (d d' : Device) : Prop :=
  d'.make = d.make

theorem same_lasting : Action.Lasting Same where
  refl _ := rfl
  trans h h' := Eq.trans h' h

theorem same_perform (wait : List EventId) (blocking : Bool) (body : Memory → Except CommandFault α × Memory) :
    (perform wait blocking body).Keeps Same := by
  intro d
  have hsubmit : Same d (submit wait body d).2.2 := by
    cases hwait : d.waitFault ⟨d.nextEvent⟩ wait with
    | some fault => rw [submit_blocked hwait]; exact rfl
    | none =>
      rcases hbody : body d.memory with ⟨fault | a, memory⟩
      case error => rw [submit_failed hwait hbody]; exact rfl
      case ok => rw [submit_ok hwait hbody]; exact rfl
  unfold perform
  refine Action.Ends.bind_get ?_
  generalize submit wait body d = submitted at hsubmit ⊢
  obtain ⟨own, outcome, d'⟩ := submitted
  cases outcome with
  | ok a => exact hsubmit
  | error fault => cases blocking <;> exact hsubmit

theorem same_allocate (size : Nat) : (allocate size).Keeps Same := by
  intro d
  unfold allocate
  refine Action.Ends.bind_get ?_
  split
  case h_1 => exact same_lasting.refl d
  case h_2 => exact rfl

theorem same_release (id : BufferId) : (release id).Keeps Same :=
  fun _ => rfl

theorem same_write (id : BufferId) (data : Bytes) (wait : List EventId) (blocking : Bool) :
    (write id data wait blocking).Keeps Same :=
  .bind same_lasting (same_perform _ _ _) fun _ => .pure same_lasting _

theorem same_read (id : BufferId) (hostSize offset length : Nat) (wait : List EventId) (blocking : Bool) :
    (read id hostSize offset length wait blocking).Keeps Same :=
  same_perform _ _ _

theorem same_launch (kernel : Nat) (ids : List BufferId) (geometry : Geometry) (wait : List EventId) :
    (launch kernel ids geometry wait).Keeps Same := by
  have hR := same_lasting
  refine .bind hR (.get hR) fun d => ?_
  dsimp only
  split
  case h_1 => exact .bind hR (same_perform _ _ _) fun _ => .pure hR _
  case h_2 => exact .throw hR _

theorem same_barrier (wait : List EventId) : (barrier wait).Keeps Same :=
  .bind same_lasting (same_perform _ _ _) fun _ => .pure same_lasting _

theorem same_resolve (e : EventId) : (resolve e).Keeps Same := by
  have hR := same_lasting
  refine .bind hR (.get hR) fun d => ?_
  split
  case h_1 => exact .pure hR _
  case h_2 => exact .throw hR _

theorem same_wait (events : List EventId) : (Device.wait events).Keeps Same := by
  have hR := same_lasting
  refine .bind hR (.get hR) fun d => ?_
  split
  case h_1 => exact .throw hR _
  case h_2 => exact .pure hR _

end Device

namespace Channel

variable {α : Type}

def Same (p p' : Channel) : Prop :=
  p.device.Same p'.device

theorem same_noting {note : Except Error α → Call} {call : Action Device α} (h : call.Keeps Device.Same) :
    (noting note call).Keeps Same :=
  fun p => h p.device

end Channel

namespace Context

variable {α : Type} {s t : Hosted Context} {device index place : Nat}

-- What was found out about kernels is right.
def Learned (s : Hosted Context) : Prop :=
  ∀ x ∈ s.part.kernels, ∃ place t, s.part.devices[x.1.1]? = some place ∧ s.part.tasks[x.1.2]? = some t ∧
    (s.platform.channel place).device.lookup? t.kernel = some x.2

-- The tables are as they were, and what was found out remains right.
structure Schooled (s t : Hosted Context) : Prop where
  same    : ∀ place, (s.platform.channel place).Same (t.platform.channel place)
  devices : t.part.devices = s.part.devices
  tasks   : t.part.tasks = s.part.tasks
  objects : t.part.objects = s.part.objects
  learned : Learned s → Learned t

theorem schooled_lasting : Action.Lasting Schooled where
  refl _ := ⟨fun _ => rfl, rfl, rfl, rfl, id⟩
  trans h h' := ⟨fun place => (h'.same place).trans (h.same place), h'.devices.trans h.devices,
    h'.tasks.trans h.tasks, h'.objects.trans h.objects, h'.learned ∘ h.learned⟩

-- Devices that are the same have the same kernels.
theorem Learned.mono (h : Learned s) (hsame : ∀ place, (s.platform.channel place).Same (t.platform.channel place))
    (hdevices : t.part.devices = s.part.devices) (htasks : s.part.tasks <+: t.part.tasks)
    (hkernels : t.part.kernels = s.part.kernels) : Learned t := by
  intro x hx
  obtain ⟨place, task, hplace, htask, hfound⟩ := h x (hkernels ▸ hx)
  refine ⟨place, task, hdevices ▸ hplace, ?_, ?_⟩
  case refine_1 =>
    obtain ⟨later, hlater⟩ := htasks
    rw [← hlater, List.getElem?_append_left (List.getElem?_eq_some_iff.mp htask).1, htask]
  case refine_2 =>
    rw [Device.lookup?_eq, hsame place]
    exact hfound

theorem schooled_of_same (hsame : ∀ place, (s.platform.channel place).Same (t.platform.channel place))
    (hdevices : t.part.devices = s.part.devices) (htasks : t.part.tasks = s.part.tasks)
    (hobjects : t.part.objects = s.part.objects) (hkernels : t.part.kernels = s.part.kernels) : Schooled s t :=
  ⟨hsame, hdevices, htasks, hobjects, fun h => h.mono hsame hdevices (htasks ▸ List.prefix_rfl) hkernels⟩

theorem schooled_of_channels (hchannels : t.platform.channels = s.platform.channels)
    (hdevices : t.part.devices = s.part.devices) (htasks : t.part.tasks = s.part.tasks)
    (hobjects : t.part.objects = s.part.objects) (hkernels : t.part.kernels = s.part.kernels) : Schooled s t := by
  refine schooled_of_same (fun place => ?_) hdevices htasks hobjects hkernels
  rw [Platform.channel, Platform.channel, hchannels]
  exact rfl

theorem schooled_onPlatform {act : Action Channel α} (h : act.Keeps Channel.Same) (place : Nat) :
    (Hosted.onPlatform (Platform.onChannel place act) : On α).Keeps Schooled := fun s =>
  schooled_of_same (Platform.rel_onChannel (R := Channel.Same) (fun _ => rfl) act s.platform place (h _)) rfl rfl rfl
    rfl

theorem schooled_onDevice {act : Action Channel α} (h : act.Keeps Channel.Same) (device : Nat) :
    (onDevice device act).Keeps Schooled :=
  have hR := schooled_lasting
  .bind hR (.get hR) fun _ => .bind hR (.lift hR _) fun _ => schooled_onPlatform h _

theorem schooled_modifyContext {f : Context → Context} (hdevices : ∀ c, (f c).devices = c.devices)
    (htasks : ∀ c, (f c).tasks = c.tasks) (hobjects : ∀ c, (f c).objects = c.objects)
    (hkernels : ∀ c, (f c).kernels = c.kernels) : (modifyContext f).Keeps Schooled :=
  .modify fun s => schooled_of_channels rfl (hdevices s.part) (htasks s.part) (hobjects s.part) (hkernels s.part)

theorem schooled_readBack (place : Nat) (id : BufferId) (h : Handle) (offset length : Nat) (wait : List EventId)
    (blocking : Bool) :
    (Hosted.onPlatform (Platform.readBack place id h offset length wait blocking) : On EventId).Keeps Schooled := by
  intro s
  refine schooled_of_same (fun other => ?_) rfl rfl rfl rfl
  have hread := Platform.channel_readBack place id h offset length wait blocking s.platform other
  exact hread ▸ Platform.rel_onChannel (R := Channel.Same) (fun _ => rfl) _ s.platform place
    (Channel.same_noting (Device.same_read _ _ _ _ _ _) _) other

theorem schooled_giveUpAll (c : Context) (bs : List Binding) (p : Platform) (place : Nat) :
    (p.channel place).Same ((bs.foldl c.giveUp p).channel place) := by
  induction bs generalizing p with
  | nil => exact rfl
  | cons b bs ih =>
    have hrelease (other : Nat) (id : BufferId) :
        (p.channel place).Same ((Platform.onChannel other (Channel.release id) p).2.channel place) :=
      Platform.rel_onChannel (R := Channel.Same) (fun _ => rfl) _ p other
        (Channel.same_noting (Device.same_release id) _) place
    have hfirst : (p.channel place).Same ((c.giveUp p b).channel place) := by
      obtain ⟨registry, _, heq⟩ := giveUp_eq c p b
      rw [heq]
      split
      case h_1 => exact hrelease _ _
      case h_2 => exact rfl
    exact (ih _).trans hfirst

theorem schooled_invalidate : invalidate.Keeps Schooled :=
  .modify fun s => schooled_of_same (schooled_giveUpAll s.part s.part.bindings s.platform) rfl rfl
    (objects_detachAll s.part) rfl

theorem schooled_activate (device : Nat) : (activate device).Keeps Schooled :=
  activate_keeps schooled_lasting schooled_invalidate
    (schooled_modifyContext (fun _ => rfl) (fun _ => rfl) (fun _ => rfl) fun _ => rfl)

theorem schooled_kernel (device task : Nat) : (kernel device task).Keeps Schooled := by
  intro s
  unfold kernel
  refine Action.Ends.bind_get ?_
  dsimp only
  have hR := schooled_lasting
  split
  case h_1 => exact hR.refl s
  case h_2 =>
    refine Action.Ends.bind_lift (fun t ht => ?_) fun _ _ => hR.refl s
    refine Action.Ends.bind_lift (fun place hplace => ?_) fun _ _ => hR.refl s
    have hplace := place_ok.mp hplace
    have hfound : onDevice device (Channel.lookup t.kernel) s =
        (.ok ((s.platform.channel place).device.lookup? t.kernel),
          s.setChannel place (Channel.lookup t.kernel (s.platform.channel place)).2) := onDevice_eq hplace _
    have hlooked : Schooled s (s.setChannel place (Channel.lookup t.kernel (s.platform.channel place)).2) :=
      schooled_of_same (Platform.rel_onChannel (R := Channel.Same) (fun _ => rfl) (Channel.lookup t.kernel)
        s.platform place rfl) rfl rfl rfl rfl
    refine Action.Ends.bind_of_ok hfound ?_
    cases hkernel : (s.platform.channel place).device.lookup? t.kernel with
    | none => exact Action.Ends.bind_get hlooked
    | some k =>
      refine Action.Ends.bind_of_ok (Action.modify_apply _ _) ?_
      refine ⟨hlooked.same, rfl, rfl, rfl, fun h => List.forall_mem_cons.mpr ⟨?_, hlooked.learned h⟩⟩
      exact ⟨place, t, hplace, task_ok.mp ht,
        (congrArg (Make.lookup? · t.kernel) (hlooked.same place)).trans hkernel⟩

section

variable {u : Hosted Context} {task : Nat} {t : Task}

-- At most a device was asked for a kernel, and the answer noted.
structure Asks (s u : Hosted Context) : Prop where
  device   : ∀ place, u.device place = s.device place
  platform : u.platform = { s.platform with channels := u.platform.channels }
  part     : u.part = { s.part with kernels := u.part.kernels }

theorem asks_lookup (s : Hosted Context) (place : Nat) (name : String) :
    Asks s (s.setChannel place (Channel.lookup name (s.platform.channel place)).2) :=
  ⟨Platform.rel_onChannel (R := fun p p' => p'.device = p.device) (fun _ => rfl) (Channel.lookup name) s.platform
    place rfl, rfl, rfl⟩

-- What is remembered is what a search finds.
theorem kernel_eq (hlearned : Learned s) (hdevice : s.part.devices[device]? = some place)
    (ht : s.part.tasks[task]? = some t) :
    ∃ u, Asks s u ∧ kernel device task s = (((s.device place).lookup? t.kernel).elim
      (.error (.config (.missingKernel t.kernel (s.device place).name))) .ok, u) := by
  unfold kernel
  rw [Action.bind_of_ok (Action.get_apply s)]
  dsimp only
  cases hknown : s.part.kernels.lookup (device, task) with
  | some kernel =>
    obtain ⟨known, later, hkernels, -⟩ := List.lookup_eq_some_iff.mp hknown
    obtain ⟨place', t', hdevice', ht', hlookup⟩ := hlearned ((device, task), kernel) (by simp [hkernels])
    cases hdevice.symm.trans hdevice'
    cases ht.symm.trans ht'
    have hfound : (s.device place).lookup? t.kernel = some kernel := hlookup
    rw [hfound]
    exact ⟨s, ⟨fun _ => rfl, rfl, rfl⟩, rfl⟩
  | none =>
    have hasks := asks_lookup s place t.kernel
    have hanswer : onDevice device (Channel.lookup t.kernel) s = (.ok ((s.device place).lookup? t.kernel),
        s.setChannel place (Channel.lookup t.kernel (s.platform.channel place)).2) := onDevice_eq hdevice _
    generalize s.setChannel place (Channel.lookup t.kernel (s.platform.channel place)).2 = u at hasks hanswer
    dsimp only
    rw [Action.bind_of_ok (Action.lift_eq_ok.mpr ⟨task_ok.mpr ht, rfl⟩),
      Action.bind_of_ok (Action.lift_eq_ok.mpr ⟨place_ok.mpr hdevice, rfl⟩), Action.bind_of_ok hanswer]
    cases hlookup : (s.device place).lookup? t.kernel with
    | some kernel =>
      refine ⟨{ u with part := { u.part with kernels := ((device, task), kernel) :: u.part.kernels } }, ?_, rfl⟩
      exact ⟨hasks.device, hasks.platform, by rw [hasks.part]⟩
    | none =>
      dsimp only
      rw [Action.bind_of_ok (Action.get_apply _)]
      have hname : (u.platform.channel place).device.name = (s.device place).name :=
        congrArg Device.name (hasks.device place)
      rw [hname]
      exact ⟨u, hasks, rfl⟩

end

theorem schooled_modifyState (index : Nat) (f : ObjectState → ObjectState) :
    (modifyContext (·.modifyState index f)).Keeps Schooled :=
  schooled_modifyContext (fun _ => rfl) (fun _ => rfl) (fun c => objects_modifyState c index f) fun _ => rfl

theorem schooled_ensureBuffer (device index size : Nat) : (ensureBuffer device index size).Keeps Schooled :=
  ensureBuffer_keeps schooled_lasting (schooled_modifyState index)
    (schooled_onDevice (Channel.same_noting (Device.same_allocate size)) device)
    fun id => schooled_onDevice (Channel.same_noting (Device.same_release id)) device

theorem schooled_setOwner (h : Handle) (device : Nat) : (modify fun s =>
    { s with platform := { s.platform with registry := s.platform.registry.setOwner h device true } } :
      On PUnit).Keeps Schooled :=
  .modify fun _ => schooled_of_channels rfl rfl rfl rfl rfl

theorem schooled_sync (objects : List HostObject) : (sync objects).Keeps Schooled := by
  have hR := schooled_lasting
  have hobject (device place : Nat) (o : HostObject) : (syncObject device place o).Keeps Schooled := by
    refine .bind hR (.get hR) fun _ => .bind hR (.lift hR _) fun _ => .bind hR (.lift hR _) fun _ => ?_
    dsimp only
    split
    case h_1 => exact .bind hR (schooled_readBack _ _ _ _ _ _ _) fun _ => schooled_setOwner _ _
    case h_2 => exact .throw hR _
  refine .bind hR (.get hR) fun _ => ?_
  dsimp only
  split
  case h_2 => exact .throw hR _
  case h_1 =>
    refine .bind hR (.lift hR _) fun place => ?_
    induction objects with
    | nil => exact .pure hR _
    | cons o objects ih => exact .bind hR (hobject _ _ o) fun _ => ih

end Context

namespace Machine

open Context

variable {m : Machine} {r : Run} {device index : Nat} {wait : List EventId}

theorem schooled_count (f : Counters → Counters) : (m.count f).Keeps Schooled := by
  unfold count
  split
  case isTrue => exact .modify fun _ => schooled_of_channels rfl rfl rfl rfl rfl
  case isFalse => exact .pure schooled_lasting _

theorem schooled_record (index : Nat) (event : Option EventId) : (m.record r index event).Keeps Schooled :=
  .bind schooled_lasting (schooled_count _) fun _ => .pure schooled_lasting _

theorem schooled_streamIn (object offset length : Nat) :
    (m.streamIn r object offset length wait).Keeps Schooled := by
  have hR := schooled_lasting
  refine .bind hR (.lift hR _) fun t => .bind hR (.get hR) fun _ => .bind hR (.lift hR _) fun b =>
    .bind hR (schooled_ensureBuffer _ _ _) fun _ => .bind hR (.get hR) fun _ => .bind hR (.lift hR _) fun _ => ?_
  dsimp only
  split
  case isTrue => exact .pure hR _
  case isFalse =>
    exact .bind hR (.lift hR _) fun _ => .bind hR
      (schooled_onPlatform (Channel.same_noting (Device.same_write _ _ _ _)) _) fun _ =>
        .bind hR (schooled_modifyState _ _) fun _ => .bind hR (schooled_count _) fun _ => .pure hR _

theorem schooled_argumentBuffer (device threads : Nat) (a : Argument) :
    (argumentBuffer device threads a).Keeps Schooled :=
  argumentBuffer_keeps schooled_lasting (schooled_ensureBuffer device) threads a

theorem schooled_checkLaunch (device : Nat) (t : Task) (event : EventId) :
    (checkLaunch device t event).Keeps Schooled :=
  checkLaunch_keeps schooled_lasting (schooled_onDevice (Channel.same_noting (Device.same_wait _)) device)
    (schooled_onDevice (Channel.same_noting (Device.same_resolve _)) device) t

theorem schooled_launch (task device offset threads : Nat) :
    (m.launch task device offset threads wait).Keeps Schooled := by
  have hR := schooled_lasting
  have hmark (t : Task) (event : EventId) :
      (do modifyContext (·.markWritten t offset); return event : Context.On EventId).Keeps Schooled :=
    .bind hR (schooled_modifyContext (fun c => by rw [markWritten_part]) (fun c => by rw [markWritten_part])
      (fun c => objects_markArguments c offset t.arguments) fun c => by rw [markWritten_part]) fun _ => .pure hR _
  refine .bind hR (schooled_kernel _ _) fun _ => .bind hR (.get hR) fun _ => .bind hR (.lift hR _) fun _ =>
    .bind hR (.get hR) fun _ => .bind hR (.lift hR _) fun t =>
      .bind hR (.mapM hR (schooled_argumentBuffer _ _) _) fun _ => .bind hR (.get hR) fun _ =>
        .bind hR (.lift hR _) fun _ => .bind hR
          (schooled_onDevice (Channel.same_noting (Device.same_launch _ _ _ _)) device) fun event =>
            .bind hR (schooled_count _) fun _ => ?_
  dsimp only
  split
  case isTrue => exact .bind hR (schooled_checkLaunch _ _ _) fun _ => hmark _ _
  case isFalse => exact hmark _ _

theorem schooled_streamOut (object offset length : Nat) (blocking : Bool) :
    (m.streamOut r object offset length wait blocking).Keeps Schooled := by
  have hR := schooled_lasting
  refine .bind hR (.lift hR _) fun t => .bind hR (.get hR) fun _ => .bind hR (.lift hR _) fun b => ?_
  dsimp only
  split
  case h_2 => exact .throw hR _
  case h_1 =>
    split
    case isTrue => exact .throw hR _
    case isFalse =>
      refine .bind hR (schooled_readBack _ _ _ _ _ _ _) fun _ => .bind hR (schooled_count _) fun _ => ?_
      split
      case isTrue => exact .bind hR (schooled_setOwner _ _) fun _ => .pure hR _
      case isFalse => exact .pure hR _

theorem schooled_synchronize {call : List EventId → Action Channel EventId}
    (hcall : ∀ events, (call events).Keeps Channel.Same) (index : Nat) (wait : Option Nat) :
    (m.synchronize r index call wait).Keeps Schooled := by
  have hR := schooled_lasting
  exact .bind hR (.lift hR _) fun _ => .bind hR (schooled_onPlatform (hcall _) _) fun _ =>
    .bind hR (schooled_count _) fun _ => schooled_record _ _

theorem schooled_step (index : Nat) (i : Instruction) (r : Run) : (m.step index i r).Keeps Schooled := by
  have hR := schooled_lasting
  cases i with
  | begin =>
    refine .bind hR (.get hR) fun _ => ?_
    dsimp only
    split
    case isTrue => exact .throw hR _
    case isFalse => exact schooled_record _ _
  | context device =>
    exact .bind hR (schooled_activate _) fun _ => .bind hR (.get hR) fun _ => .bind hR (.lift hR _) fun _ =>
      schooled_record _ _
  | streamIn => exact .bind hR (schooled_streamIn _ _ _) fun _ => schooled_record _ _
  | launch => exact .bind hR (schooled_launch _ _ _ _) fun _ => schooled_record _ _
  | streamOut => exact .bind hR (schooled_streamOut _ _ _ _) fun _ => schooled_record _ _
  | streamOutBlocking => exact .bind hR (schooled_streamOut _ _ _ _) fun _ => schooled_record _ _
  | addDep list =>
    unfold step
    dsimp only
    split
    case isTrue => exact .pure hR _
    case isFalse => exact .throw hR _
  | barrier => exact schooled_synchronize (fun _ => Channel.same_noting (Device.same_barrier _)) _ _
  | marker => exact schooled_synchronize (fun _ => Channel.same_noting (Device.same_barrier _)) _ _
  | finish => exact schooled_record _ _

theorem schooled_steps (index : Nat) (is : List Instruction) (r : Run) :
    (m.steps index is r).Keeps Schooled := by
  have hR := schooled_lasting
  induction is generalizing index r with
  | nil => exact .pure hR _
  | cons i is ih =>
    exact .bind hR (.tryCatch hR (schooled_step _ _ _) fun _ => .bind hR schooled_invalidate fun _ => .throw hR _)
      fun _ => ih _ _

theorem schooled_execute : m.execute.Keeps Schooled := by
  have hR := schooled_lasting
  exact .bind hR (schooled_steps _ _ _) fun _ => .bind hR (.lift hR _) fun _ => .bind hR (schooled_count _)
    fun _ => .pure hR _

end Machine

namespace Execution

def Same (s t : Hosted Execution) : Prop :=
  ∀ place, (s.platform.channel place).Same (t.platform.channel place)

theorem same_lasting : Action.Lasting Same where
  refl _ _ := rfl
  trans h h' place := (h' place).trans (h place)

theorem same_onTarget {α : Type} {act : Action Channel α} (h : act.Keeps Channel.Same) :
    (onTarget act).Keeps Same :=
  .bind same_lasting (.get same_lasting) fun e s =>
    Platform.rel_onChannel (R := Channel.Same) (fun _ => rfl) act s.platform e.part.target.place (h _)

theorem same_settle (events : List (Nat × EventId)) (failure : Option Error) :
    (settle events failure).Keeps Same := by
  have hR := same_lasting
  induction events generalizing failure with
  | nil => exact .pure hR _
  | cons event events ih =>
    unfold settle
    refine .bind hR (same_onTarget (Channel.same_noting (Device.same_resolve _))) fun info => ?_
    split
    case h_1 => exact .bind hR (.modify fun _ _ => rfl) fun _ => ih _
    case h_2 => exact .bind hR (.get hR) fun _ => ih _
    case h_3 => exact ih _

theorem same_wait : wait.Keeps Same := by
  have hR := same_lasting
  unfold wait
  refine .bind hR (.get hR) fun e => .bind hR (same_onTarget (Channel.same_noting (Device.same_wait _)))
    fun _ => .bind hR (same_settle _ _) fun found => ?_
  split
  case h_1 => exact .throw hR _
  case h_2 =>
    refine .modify fun s place => ?_
    have hchannels := (publish_all s.part.target.index s.part.pending s.platform).1
    exact congrArg (fun channels => (List.getD channels place Platform.blank).device.make) hchannels

end Execution

namespace Context

theorem building_unlearned : Wiring.Building (fun _ => True) fun c c' => c'.kernels = c.kernels where
  lasting := ⟨fun _ => rfl, fun h h' => h'.trans h⟩
  bind c o := by
    unfold Context.bind
    split <;> rfl
  modifyState _ _ _ _ := rfl
  addTask c t _ := by
    have hbindAll (objects : List HostObject) (c : Context) : (c.bindAll objects).kernels = c.kernels := by
      unfold bindAll
      induction objects generalizing c with
      | nil => rfl
      | cons o objects ih =>
        rw [List.foldl_cons, ih]
        unfold Context.bind
        split <;> rfl
    exact hbindAll _ c

end Context

namespace Tenant

open Context

variable {p p' : Platform} {t : Tenant} {c : Context} {s : Hosted Tenant}

-- A tenant is right about the kernels, and has the devices that its machines are for.
structure Versed (p : Platform) (t : Tenant) : Prop where
  learned : Learned ⟨p, t.context⟩
  seated  : ∀ m ∈ t.machines, ∀ i device is, m.instructions = i :: .context device :: is →
    ∃ place, t.context.devices[device]? = some place

theorem Versed.same (h : t.Versed p) (hsame : ∀ place, (p.channel place).Same (p'.channel place)) : t.Versed p' :=
  ⟨h.learned.mono hsame rfl List.prefix_rfl rfl, h.seated⟩

-- Others find the devices as they were.
structure Learns (s t : Hosted Tenant) : Prop where
  same   : ∀ place, (s.platform.channel place).Same (t.platform.channel place)
  versed : s.part.Versed s.platform → t.part.Versed t.platform

theorem learns_of_grown (hgrown : Grown s.part.context c) (hkernels : c.kernels = s.part.context.kernels) :
    Learns s ⟨s.platform, { s.part with context := c }⟩ :=
  ⟨fun _ => rfl, fun h => ⟨h.learned.mono (fun _ => rfl) hgrown.devices hgrown.tasks hkernels,
    hgrown.devices ▸ h.seated⟩⟩

theorem learns_onContext {α : Type} {act : Context.On α} (h : act.Keeps Schooled) : (onContext act).Keeps Learns :=
  fun s => ⟨(h ⟨s.platform, s.part.context⟩).same, fun hversed =>
    ⟨(h _).learned hversed.learned, (h ⟨s.platform, s.part.context⟩).devices ▸ hversed.seated⟩⟩

theorem learns_lasting : Action.Lasting Learns where
  refl _ := ⟨fun _ => rfl, id⟩
  trans h h' := ⟨fun place => (h'.same place).trans (h.same place), h'.versed ∘ h.versed⟩

theorem learns_build (device : Nat) (steps : List Step) : (build device steps).Keeps Learns := by
  intro s
  unfold build
  refine Action.Ends.bind_get (Action.Ends.bind_lift (fun start hstart => ?_) fun _ _ => learns_lasting.refl s)
  cases Wiring.start_ok hstart
  rcases hsteps : (steps.forM fun s => discard (Wiring.step s) : Action Wiring Unit)
    { context := s.part.context, graph := ({} : Graph).push (.context device) [] } with ⟨result, w⟩
  have hlearns : Learns s ⟨s.platform, { s.part with context := w.context }⟩ :=
    learns_of_grown ((Wiring.grows_steps steps).of_eq hsteps)
      ((building_unlearned.keeps_steps fun _ _ => trivial).of_eq hsteps)
  refine Action.Ends.bind_modify (Action.Ends.bind_lift (fun _ hok => ?_) fun _ _ => hlearns)
  exact learns_lasting.trans hlearns ⟨fun _ => rfl, fun h => ⟨h.learned, h.seated⟩⟩

theorem learns_compile (graph : Nat) (batch : Option Nat) (config config' : Config) :
    (compile graph batch config config').Keeps Learns := by
  intro s
  have hrefl := learns_lasting.refl s
  unfold compile
  refine Action.Ends.bind_get ?_
  split
  case h_2 => exact hrefl
  case h_1 g hg =>
    refine Action.Ends.bind_lift (fun program hprogram => ?_) fun _ _ => hrefl
    refine Action.Ends.bind_lift (fun machine hmachine => ?_) fun _ _ => hrefl
    refine ⟨fun _ => rfl, fun h => ⟨h.learned, fun m hm i device is his => ?_⟩⟩
    rcases List.mem_append.mp hm with hold | hnew
    case inl => exact h.seated m hold i device is his
    case inr =>
      cases List.mem_singleton.mp hnew
      obtain ⟨place, d, l, passes, hmade⟩ := Compile.made_of_compile hprogram hmachine
      obtain ⟨nodes, blocks, hinstructions, _⟩ := hmade.instructions
      cases his.symm.trans hinstructions
      exact ⟨place, place_ok.mp hmade.place⟩

theorem learns_perform (deed : Deed) : (perform deed).Keeps Learns := by
  have hR := learns_lasting
  cases deed with
  | bind o =>
    refine .modify fun s => learns_of_grown (s.part.context.grown_bind o) ?_
    exact building_unlearned.bind _ o
  | build device steps => exact learns_build device steps
  | compile graph batch config config' => exact learns_compile graph batch config config'
  | execute machine =>
    refine .bind hR (.get hR) fun s => ?_
    split
    case h_2 => exact .pure hR _
    case h_1 m _ => exact .bind hR (learns_onContext m.schooled_execute) fun _ => .pure hR _
  | sync objects => exact learns_onContext (schooled_sync objects)
  | invalidate => exact learns_onContext schooled_invalidate

theorem versed_custom : House.Custom (fun _ => True) (fun _ => True) Versed where
  enter _ _ _ _ := ⟨nofun, nofun⟩
  act p t ts deed _ _ hall _ := by
    have hlearns := learns_perform deed ⟨p, t⟩
    refine ⟨trivial, List.forall_mem_cons.mpr ⟨hlearns.versed (hall t List.mem_cons_self), fun x hx => ?_⟩⟩
    exact (hall x (List.mem_cons_of_mem t hx)).same hlearns.same
  leaves := trivial

end Tenant

-- Whatever happens in a household, every tenant is right about the kernels.
theorem Household.run_versed {h : Household} (hfresh : h.house.Fresh) (moves : List Move) {t : Tenant}
    (ht : t ∈ (h.run moves).house.tenants) : t.Versed (h.run moves).platform := by
  have hnobody : ∀ t ∈ h.house.tenants, t.Versed h.platform := by
    rw [hfresh.tenants]
    exact nofun
  have hmeets : ∀ move ∈ moves, move.Meets fun _ => True := fun move _ => by
    cases move with
    | house move => cases move <;> trivial
    | wait => trivial
    | waitLate => trivial
  exact (run_custom Tenant.versed_custom (fun p e _ => ⟨trivial, fun t ht => ht.same (Execution.same_wait _)⟩)
    hfresh.sound trivial hnobody hmeets).2 t ht

end Offload
