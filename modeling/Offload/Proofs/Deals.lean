import Mathlib.Logic.Relation
import Offload.Proofs.Course

/-!
Deals: what a context does about buffers and records, taken apart. Each deal is at most one call on the
active device, with the change of the books that goes with it; all that happens besides is calm. Whatever is
kept by every deal is kept by all that is made of them.
-/

namespace Offload

-- Calls that name no buffer, and make none.
def Call.Bufferless : Call → Prop
  | .release _ | .write .. | .read .. | .launch .. | .allocate _ (.ok _) => False
  | _ => True

-- Of two arguments the later one wants no other buffer for an object than the earlier one took.
def Argument.Agrees (a later : Argument) : Prop :=
  later.object.handle = a.object.handle → later.access.writes →
    a.access.writes ∧ later.object = a.object

instance (a later : Argument) : Decidable (a.Agrees later) :=
  inferInstanceAs (Decidable (_ → _))

-- There is no buffer with this key, and there will be none.
def Memory.Gone (m : Memory) (id : BufferId) : Prop :=
  id.number < m.next ∧ m.buffer? id = none

namespace Device

variable {α : Type}

-- The memory is as it was, and events are still known.
structure Calm (d d' : Device) : Prop where
  onward : Onward d d'
  memory : d'.memory = d.memory

theorem calm_lasting : Action.Lasting Calm where
  refl d := ⟨onward_lasting.refl d, rfl⟩
  trans h h' := ⟨onward_lasting.trans h.onward h'.onward, h'.memory.trans h.memory⟩

-- A command changes the memory as its body does, or not at all.
theorem perform_memory (wait : List EventId) (blocking : Bool)
    (body : Memory → Except CommandFault α × Memory) (d : Device) :
    (perform wait blocking body).Ends d fun _ d' =>
      d'.memory = d.memory ∨ d'.memory = (body d.memory).2 := by
  have hsubmit : (submit wait body d).2.2.memory = d.memory ∨
      (submit wait body d).2.2.memory = (body d.memory).2 := by
    cases hwait : d.waitFault ⟨d.nextEvent⟩ wait with
    | some fault =>
      rw [submit_blocked hwait, record_eq]
      exact .inl rfl
    | none =>
      rcases h : body d.memory with ⟨fault | a, memory⟩
      case error => rw [submit_failed hwait h, record_eq]; exact .inr rfl
      case ok => rw [submit_ok hwait h, record_eq]; exact .inr rfl
  unfold perform
  apply Action.Ends.bind_get
  generalize submit wait body d = submitted at hsubmit
  obtain ⟨own, outcome, d'⟩ := submitted
  cases outcome with
  | ok a => exact hsubmit
  | error fault => cases blocking <;> exact hsubmit

-- What the body of a command keeps of a memory, the command keeps of the device's.
theorem perform_keeps {β : Type} {f : Memory → β} {body : Memory → Except CommandFault α × Memory}
    (hbody : ∀ m, f (body m).2 = f m) (wait : List EventId) (blocking : Bool) :
    (perform wait blocking body).Keeps fun d d' => f d'.memory = f d.memory := fun d =>
  (perform_memory wait blocking body d).mono fun _ _ h =>
    h.elim (congrArg f) fun h => (congrArg f h).trans (hbody _)

theorem write_keeps {β : Type} {f : Memory → β} {id : BufferId} {data : Bytes}
    (hwrite : ∀ m m', m.write id data = .ok m' → f m' = f m) (wait : List EventId) (blocking : Bool) :
    (write id data wait blocking).Keeps fun d d' => f d'.memory = f d.memory := by
  intro d
  unfold write
  refine (perform_keeps (fun m => ?_) wait blocking d).bind (fun _ _ h => h) fun _ _ h => h
  cases h : m.write id data with
  | error => rfl
  | ok m' => exact hwrite m m' h

theorem launch_keeps {β : Type} {f : Memory → β} {ids : List BufferId} {geometry : Geometry}
    (hrun : ∀ (m : Memory) (code : Kernel), f (m.run code ids geometry).2 = f m) (kernel : Nat)
    (wait : List EventId) : (launch kernel ids geometry wait).Keeps fun d d' => f d'.memory = f d.memory := by
  intro d
  unfold launch
  apply Action.Ends.bind_get
  split
  case h_2 => exact rfl
  case h_1 code _ =>
    refine (perform_keeps (fun m => ?_) wait false d).bind (fun _ _ h => h) fun _ _ h => h
    have hkept := hrun m code
    split <;> rename_i heq <;> rwa [heq] at hkept

theorem calm_barrier (wait : List EventId) : (barrier wait).Keeps Calm := by
  intro d
  have hmemory : (barrier wait).Ends d fun _ d' => d'.memory = d.memory :=
    (perform_memory wait false (fun m => (.ok (), m)) d).bind
      (fun _ d' h => Or.elim h (fun h => h) (fun h => h)) fun _ d' h => Or.elim h (fun h => h) (fun h => h)
  exact ⟨(still_barrier wait d).onward, hmemory⟩

theorem calm_lookup (name : String) :
    (do return (← get).lookup? name : Action Device (Option Nat)).Keeps Calm :=
  .bind calm_lasting (.get calm_lasting) fun _ => .pure calm_lasting _

theorem calm_resolve (e : EventId) : (resolve e).Keeps Calm := by
  intro d
  unfold resolve
  apply Action.Ends.bind_get
  split
  case h_1 => exact calm_lasting.refl d
  case h_2 => exact calm_lasting.refl d

theorem calm_wait (events : List EventId) : (Device.wait events).Keeps Calm := by
  intro d
  unfold Device.wait
  apply Action.Ends.bind_get
  split
  case h_1 => exact calm_lasting.refl d
  case h_2 => exact calm_lasting.refl d

end Device

namespace Channel

variable {α : Type} {p : Channel}

-- Nothing happened to the buffers, and no call was about one.
structure Calm (p p' : Channel) : Prop where
  device  : p.device.Calm p'.device
  journal : ∃ calls, p'.journal = p.journal ++ calls ∧ ∀ call ∈ calls, call.Bufferless

theorem calm_lasting : Action.Lasting Calm where
  refl p := ⟨Device.calm_lasting.refl _, [], by simp, nofun⟩
  trans := by
    intro p p' p'' ⟨hdevice, calls, hcalls, hnone⟩ ⟨hdevice', calls', hcalls', hnone'⟩
    refine ⟨Device.calm_lasting.trans hdevice hdevice', calls ++ calls', ?_, fun call hcall => ?_⟩
    case refine_1 => rw [hcalls', hcalls, List.append_assoc]
    case refine_2 => exact (List.mem_append.mp hcall).elim (hnone call) (hnone' call)

theorem calm_noting {note : Except Error α → Call} {call : Action Device α}
    (hnote : ∀ r, (note r).Bufferless) (hcall : call.Keeps Device.Calm) :
    (noting note call).Keeps Calm :=
  fun p => ⟨hcall p.device, [_], rfl, fun _ h => List.mem_singleton.mp h ▸ hnote _⟩

theorem calm_lookup (name : String) : (lookup name).Keeps Calm :=
  calm_noting (fun _ => trivial) (Device.calm_lookup name)

theorem calm_barrier (wait : List EventId) : (barrier wait).Keeps Calm :=
  calm_noting (fun _ => trivial) (Device.calm_barrier wait)

theorem calm_marker (wait : List EventId) : (marker wait).Keeps Calm :=
  calm_noting (fun _ => trivial) (Device.calm_barrier wait)

theorem calm_resolve (e : EventId) : (resolve e).Keeps Calm :=
  calm_noting (fun _ => trivial) (Device.calm_resolve e)

theorem calm_wait (events : List EventId) : (Channel.wait events).Keeps Calm :=
  calm_noting (fun _ => trivial) (Device.calm_wait events)

-- An allocation that is refused leaves the device alone.
theorem calm_allocate_of_error {size : Nat} {cause : Shortage}
    (h : p.device.memory.allocate size = .error cause) : Calm p (allocate size p).2 := by
  obtain ⟨c, hc, hdevice⟩ := allocate_of_error h
  have hnoted : (allocate size p).2.journal = p.journal ++ [.allocate size (allocate size p).1] := rfl
  rw [hc] at hnoted ⊢
  exact ⟨hdevice ▸ Device.calm_lasting.refl _, _, hnoted, fun _ hmem =>
    List.mem_singleton.mp hmem ▸ trivial⟩

end Channel

namespace Context

variable {rest : Nat → List (BufferId × Nat)} {s t u : Hosted Context} {α : Type}
  {index place device size offset length : Nat} {b : Binding}

-- Neither a buffer nor a record was touched, and none was named in a call.
structure Calm (s t : Hosted Context) : Prop where
  channels : ∀ place, (s.platform.channel place).Calm (t.platform.channel place)
  length   : t.platform.channels.length = s.platform.channels.length
  registry : t.platform.registry = s.platform.registry
  bindings : t.part.bindings = s.part.bindings
  active   : t.part.active = s.part.active
  tasks    : t.part.tasks = s.part.tasks
  devices  : t.part.devices = s.part.devices

theorem calm_lasting : Action.Lasting Calm where
  refl _ := ⟨fun _ => Channel.calm_lasting.refl _, rfl, rfl, rfl, rfl, rfl, rfl⟩
  trans h h' := ⟨fun place => Channel.calm_lasting.trans (h.channels place) (h'.channels place),
    h'.length.trans h.length, h'.registry.trans h.registry, h'.bindings.trans h.bindings,
    h'.active.trans h.active, h'.tasks.trans h.tasks, h'.devices.trans h.devices⟩

theorem Calm.of_channels (hchannels : t.platform.channels = s.platform.channels)
    (hregistry : t.platform.registry = s.platform.registry)
    (hbindings : t.part.bindings = s.part.bindings) (hactive : t.part.active = s.part.active)
    (htasks : t.part.tasks = s.part.tasks) (hdevices : t.part.devices = s.part.devices) : Calm s t := by
  refine ⟨fun place => ?_, by rw [hchannels], hregistry, hbindings, hactive, htasks, hdevices⟩
  have hchannel : t.platform.channel place = s.platform.channel place := by
    rw [Platform.channel, hchannels]
    rfl
  exact hchannel ▸ Channel.calm_lasting.refl _

theorem Calm.still (h : Calm s t) : Still False s t where
  onward place := (h.channels place).device.onward
  channels := h.length
  lengths k := by rw [h.registry]
  objects := by rw [objects, h.bindings]; rfl
  tasks := h.tasks
  devices := h.devices
  active := h.active
  bindings := h.bindings
  alike place := by
    have hmemory : (t.device place).memory = (s.device place).memory := (h.channels place).device.memory
    exact hmemory ▸ .refl _
  honest := nofun

theorem calm_channel {act : Action Channel α} {place : Nat}
    (h : (s.platform.channel place).Calm (act (s.platform.channel place)).2) :
    Calm s { s with platform := (Platform.onChannel place act s.platform).2 } :=
  ⟨Platform.rel_onChannel (fun _ => Channel.calm_lasting.refl _) act s.platform place h,
    Platform.length_setChannel _ _, rfl, rfl, rfl, rfl, rfl⟩

theorem calm_onPlatform {act : Action Channel α} (h : act.Keeps Channel.Calm) (place : Nat) :
    (Hosted.onPlatform (Platform.onChannel place act) : On α).Keeps Calm :=
  fun _ => calm_channel (h _)

theorem calm_onDevice {act : Action Channel α} (h : act.Keeps Channel.Calm) (device : Nat) :
    (onDevice device act).Keeps Calm :=
  have hR := calm_lasting
  .bind hR (.get hR) fun _ => .bind hR (.lift hR _) fun _ => calm_onPlatform h _

theorem calm_kernel (device task : Nat) : (kernel device task).Keeps Calm := by
  have hR := calm_lasting
  unfold kernel
  refine .bind hR (.get hR) fun _ => ?_
  dsimp only
  split
  case h_1 => exact .pure hR _
  case h_2 =>
    refine .bind hR (.lift hR _) fun _ => .bind hR (.lift hR _) fun _ =>
      .bind hR (calm_onDevice (Channel.calm_lookup _) device) fun found => ?_
    split
    case h_1 =>
      exact .bind hR (.modify fun _ => .of_channels rfl rfl rfl rfl rfl rfl) fun _ => .pure hR _
    case h_2 => exact .bind hR (.get hR) fun _ => .throw hR _

theorem calm_count (m : Machine) (f : Counters → Counters) : (m.count f).Keeps Calm := by
  unfold Machine.count
  split
  case isTrue => exact .modify fun _ => .of_channels rfl rfl rfl rfl rfl rfl
  case isFalse => exact .pure calm_lasting _

-- The first object with a handle, by the place that operands refer to it by.
def Places (c : Context) (h : Handle) (index : Nat) (b : Binding) : Prop :=
  c.objectIndex? h = some index ∧ c.bindings[index]? = some b

-- The buffers that a launch names: those that the arguments' objects have, or had until a later
-- argument wanted a larger or a smaller one.
inductive Collected (c : Context) (m : Memory) : List Argument → List BufferId → Prop
  | nil : Collected c m [] []
  | cons {a : Argument} {arguments : List Argument} {id : BufferId} {ids : List BufferId}
    (h : (∃ index b, c.Places a.object.handle index b ∧ b.state.buffer = some id) ∨
      (¬(∀ later ∈ arguments, a.Agrees later) ∧ m.Gone id))
    (hrest : Collected c m arguments ids) : Collected c m (a :: arguments) (id :: ids)

end Context

inductive Deal
  /-- A new buffer for an object. -/
  | attach (index : Nat)
  /-- The buffer of an object, given back. -/
  | detach (index : Nat)
  /-- A window of an object, copied to its buffer. -/
  | fill (index offset : Nat) (wait : List EventId)
  /-- A copy to a buffer that failed and told so. -/
  | miss (index : Nat)
  | run (task : Task)
  /-- The results of a task counted as written. -/
  | mark (task : Task) (offset : Nat)
  /-- The front of a buffer, copied to its object. -/
  | deliver (index offset length : Nat)
  /-- The active device put on record as the owner of an object. -/
  | own (index : Nat)
  /-- All buffers given back. -/
  | clear
  /-- Another device made the active one. -/
  | turn (device : Nat)

namespace Context

variable {rest : Nat → List (BufferId × Nat)} {s t u : Hosted Context} {α : Type}
  {index place device size offset length : Nat} {b : Binding}

inductive Does : Deal → Hosted Context → Hosted Context → Prop
  | attach {s : Hosted Context} {index size place : Nat} {b : Binding} {id : BufferId} {memory : Memory}
    (hplace : s.part.activePlace? = some place) (hb : s.part.bindings[index]? = some b)
    (hnone : b.state.buffer = none) (hmemory : (s.device place).memory.allocate size = .ok (id, memory)) :
    Does (.attach index) s
      { platform := (Platform.onChannel place (Channel.allocate size) s.platform).2,
        part := s.part.modifyState index (·.attach id size) }
  | detach {s : Hosted Context} {index place : Nat} {b : Binding} {id : BufferId}
    (hplace : s.part.activePlace? = some place) (hb : s.part.bindings[index]? = some b)
    (hid : b.state.buffer = some id) :
    Does (.detach index) s
      { platform := (Platform.onChannel place (Channel.release id) s.platform).2,
        part := s.part.modifyState index ObjectState.detach }
  | fill {s : Hosted Context} {index offset place : Nat} {b : Binding} {id : BufferId} {data : Bytes}
    {wait : List EventId} {blocking : Bool} {event : EventId}
    (hplace : s.part.activePlace? = some place) (hb : s.part.bindings[index]? = some b)
    (hid : b.state.buffer = some id)
    (hdata : s.platform.registry.window b.object offset b.state.size = .ok data)
    (hok : (Channel.write id data wait blocking (s.platform.channel place)).1 = .ok event) :
    Does (.fill index offset wait) s
      { platform := (Platform.onChannel place (Channel.write id data wait blocking) s.platform).2,
        part := s.part.modifyState index (·.markWritten offset) }
  | miss {s : Hosted Context} {index offset place : Nat} {b : Binding} {id : BufferId} {data : Bytes}
    {wait : List EventId} {blocking : Bool} {e : Error}
    (hplace : s.part.activePlace? = some place) (hb : s.part.bindings[index]? = some b)
    (hid : b.state.buffer = some id)
    (hdata : s.platform.registry.window b.object offset b.state.size = .ok data)
    (herror : (Channel.write id data wait blocking (s.platform.channel place)).1 = .error e) :
    Does (.miss index) s
      { s with platform := (Platform.onChannel place (Channel.write id data wait blocking) s.platform).2 }
  | run {s : Hosted Context} {task : Task} {place : Nat} {ids : List BufferId} (kernel : Nat)
    (geometry : Geometry) (wait : List EventId) (hplace : s.part.activePlace? = some place)
    (htask : task ∈ s.part.tasks)
    (hids : s.part.Collected (s.device place).memory task.arguments ids) :
    Does (.run task) s
      { s with platform := (Platform.onChannel place (Channel.launch kernel ids geometry wait) s.platform).2 }
  | mark {s : Hosted Context} {task : Task} {offset : Nat}
    (hfilled : ∀ a ∈ task.arguments, ∀ index, s.part.objectIndex? a.object.handle = some index →
      s.part.Filled index) :
    Does (.mark task offset) s { s with part := s.part.markWritten task offset }
  | deliver {s : Hosted Context} {index length place : Nat} {b : Binding} {id : BufferId}
    (offset : Nat) (wait : List EventId) (blocking : Bool)
    (hplace : s.part.activePlace? = some place) (hb : s.part.bindings[index]? = some b)
    (hid : b.state.validBuffer? = some id) (hlength : length ≤ b.state.size) :
    Does (.deliver index offset length) s
      { s with platform :=
        (Platform.readBack place id b.object.handle offset length wait blocking s.platform).2 }
  | own {s : Hosted Context} {index device : Nat} {b : Binding} (hactive : s.part.active = some device)
    (hb : s.part.bindings[index]? = some b) (hvalid : b.state.isValid) :
    Does (.own index) s { s with platform := { s.platform with
      registry := s.platform.registry.setOwner b.object.handle device true } }
  | clear {s : Hosted Context} : Does .clear s (invalidate s).2
  | turn {s : Hosted Context} {device : Nat}
    (hready : s.part.held = [] ∨ s.part.active = some device) :
    Does (.turn device) s { s with part := { s.part with active := some device } }

-- The books are kept by every deal, and the active device is, unless another one is turned to.
theorem Does.sustains {d : Deal} (h : Does d s t) (hbooks : Books rest s) :
    Sustains False rest s t ∧ ((∀ device, d ≠ .turn device) → t.part.active = s.part.active) := by
  have hstill {t : Hosted Context} (h : Still False s t) :
      Sustains False rest s t ∧ ((∀ device, d ≠ .turn device) → t.part.active = s.part.active) :=
    ⟨(h.upholds hbooks).toSustains, fun _ => h.active⟩
  have hupholds {t : Hosted Context} (h : Upholds False rest s t) :
      Sustains False rest s t ∧ ((∀ device, d ≠ .turn device) → t.part.active = s.part.active) :=
    ⟨h.toSustains, fun _ => h.active⟩
  cases h with
  | @attach _ index size place b id memory hplace hb hnone hmemory =>
    obtain ⟨device, hactive, hdevice⟩ := Option.bind_eq_some_iff.mp hplace
    have hends : (allocateBuffer device index size b.object.handle).Ends s fun _ t =>
        Upholds False rest s t :=
      (allocateBuffer_upholds hbooks hactive hdevice hb hnone b.object.handle).mono fun _ _ h => h.1
    exact hupholds (hends.of_eq (allocateBuffer_of_ok hdevice hmemory _))
  | detach hplace hb hid => exact hupholds (release_upholds hbooks hplace hb hid)
  | @fill _ index offset place b id data wait blocking event hplace hb hid hdata =>
    have hwrite : Upholds False rest s { s with platform :=
        (Platform.onChannel place (Channel.write id data wait blocking) s.platform).2 } :=
      (write_still hbooks hplace (List.mem_of_getElem? hb) hid (Registry.window_ok hdata).1 False.elim
        blocking).upholds hbooks
    exact hupholds (hwrite.trans
      (mark_upholds (P := False) hwrite.books hb (by rw [hid]; rfl) False.elim))
  | miss hplace hb hid hdata =>
    exact hstill (write_still hbooks hplace (List.mem_of_getElem? hb) hid (Registry.window_ok hdata).1
      False.elim _)
  | run => exact hstill (still_onPlatform (Channel.still_launch _ _ _ _) _ s)
  | mark hfilled => exact hupholds (markWritten_upholds hbooks _ hfilled False.elim)
  | deliver _ _ _ hplace hb hid hlength =>
    exact hstill (readBack_still hbooks hplace (List.mem_of_getElem? hb)
      (ObjectState.buffer_of_validBuffer? hid) hlength False.elim False.elim _)
  | own => exact hstill (still_setOwner _ _ s)
  | clear => exact hupholds (invalidate_upholds hbooks).1
  | turn hready => exact ⟨turn_sustains hbooks hready, fun h => absurd rfl (h _)⟩

-- A deal that is allowed, or nothing of the kind.
def Makes (A : Hosted Context → Deal → Prop) (s t : Hosted Context) : Prop :=
  Calm s t ∨ ∃ d, A s d ∧ Does d s t

-- What comes of deals that are allowed, one after the other.
abbrev Deals (A : Hosted Context → Deal → Prop) : Hosted Context → Hosted Context → Prop :=
  Relation.ReflTransGen (Makes A)

variable {A B : Hosted Context → Deal → Prop}

theorem Makes.sustains (h : Makes A s t) (hbooks : Books rest s) : Sustains False rest s t := by
  rcases h with hcalm | ⟨d, _, hd⟩
  case inl => exact (hcalm.still.upholds hbooks).toSustains
  case inr => exact (hd.sustains hbooks).1

namespace Deals

theorem of_calm (h : Calm s t) : Deals A s t :=
  .single (.inl h)

theorem of_does {d : Deal} (h : Does d s t) (hA : A s d) : Deals A s t :=
  .single (.inr ⟨d, hA, h⟩)

theorem mono (h : Deals A s t) (hAB : ∀ u d, A u d → B u d) : Deals B s t :=
  Relation.ReflTransGen.mono (fun u _ => Or.imp_right fun ⟨d, hd, hdoes⟩ => ⟨d, hAB u d hd, hdoes⟩) _ _ h

theorem sustains (h : Deals A s t) (hbooks : Books rest s) : Sustains False rest s t := by
  induction h with
  | refl => exact hbooks.sustains
  | tail _ hmakes ih => exact ih.trans (hmakes.sustains ih.books)

-- What every deal keeps, and calm leaves as it is, is kept by them all.
theorem keep {I : Hosted Context → Prop} (h : Deals A s t) (hbooks : Books rest s) (hs : I s)
    (hcalm : ∀ u v, Calm u v → I u → I v)
    (hdeal : ∀ d u v, Sustains False rest s u → A u d → Does d u v → I u → I v) : I t := by
  induction h with
  | refl => exact hs
  | @tail u v hdeals hmakes ih =>
    rcases hmakes with hc | ⟨d, hd, hdoes⟩
    case inl => exact hcalm u v hc ih
    case inr => exact hdeal d u v (sustains hdeals hbooks) hd hdoes ih

-- No deal leaves the active device if none turns to another one.
theorem active_eq (h : Deals A s t) (hbooks : Books rest s) (hA : ∀ u device, ¬A u (.turn device)) :
    t.part.active = s.part.active :=
  h.keep (I := fun u => u.part.active = s.part.active) hbooks rfl (fun _ _ hc hu => hc.active.trans hu)
    fun d u v hu hd hdoes hactive => by
      refine ((hdoes.sustains hu.books).2 fun device heq => ?_).trans hactive
      exact hA u device (heq ▸ hd)

end Deals
end Context
end Offload
