import Offload.Proofs.Blame
import Offload.Proofs.Bystanders
import Offload.Proofs.Custody
import Offload.Proofs.Filling

/-!
What single instructions fail for. When everything that an instruction names is there and large enough, what is left
are the kernels and the memory of the device, and objects that nobody brought.
-/

namespace Offload

theorem Task.Apart.steady {t : Task} (h : t.Apart) : t.Steady := by
  have hpairs : t.arguments.Pairwise fun a b => a.object.handle ≠ b.object.handle := List.pairwise_map.mp h
  exact hpairs.imp fun hne hsame => absurd hsame.symm hne

-- What is inside an object can be taken from it.
theorem Registry.exists_window {r : Registry} {o : HostObject} {offset length : Nat}
    (h : offset + length ≤ r.byteLength o.handle) :
    ∃ data, r.window o offset length = .ok data ∧ data.length = length := by
  have hdata : r.window o offset length = .ok (Bytes.window offset length (r.bytes o.handle)) := if_pos h
  exact ⟨_, hdata, (window_ok hdata).1⟩

-- A call on one device is all that happens there.
theorem Platform.onChannel_ends {α : Type} {place : Nat} {p : Platform} (hplace : place < p.channels.length)
    {act : Action Channel α} {Q : Except Error α → Channel → Prop} (h : act.Ends (p.channel place) Q) :
    (onChannel place act).Ends p fun r q => Q r (q.channel place) := by
  rw [Action.Ends, channel_onChannel hplace]
  exact h

-- The journal goes on where it was, and the device is the one it was.
structure Channel.Continues (c c' : Channel) : Prop where
  onward   : c.device.Onward c'.device
  same     : c.Same c'
  journal  : c.journal <+: c'.journal
  capacity : c'.device.memory.capacity = c.device.memory.capacity

theorem Channel.continues_lasting : Action.Lasting Channel.Continues where
  refl _ := ⟨Device.onward_lasting.refl _, rfl, List.prefix_rfl, rfl⟩
  trans h h' := ⟨Device.onward_lasting.trans h.onward h'.onward, h'.same.trans h.same, h.journal.trans h'.journal,
    h'.capacity.trans h.capacity⟩

theorem Platform.Leaves.continues {place : Nat} {held : List BufferId} {own : Handle → Prop} {p p' : Platform}
    (h : p.Leaves place held own p') : (p.channel place).Continues (p'.channel place) := by
  obtain ⟨calls, hcalls, _⟩ := h.adds.journal
  exact ⟨h.adds.onward, h.same, ⟨calls, hcalls.symm⟩, h.wears.capacity⟩

-- The device had no room for another buffer, and said so since.
def Channel.Refuses (c c' : Channel) (h : Handle) (e : Error) : Prop :=
  ∃ size inUse calls, c.device.memory.capacity < inUse + size ∧ c'.journal = c.journal ++ calls ∧
    .allocate size (.error (.resource c.device.index (.memory size inUse c.device.memory.capacity))) ∈ calls ∧
    e = .resource c.device.index (.memoryFor h (.memory size inUse c.device.memory.capacity))

-- Neither when one began to look nor when one stopped makes a difference.
theorem Channel.Refuses.mono {c c' d d' : Channel} {h : Handle} {e : Error} (hrefuses : c'.Refuses d h e)
    (hbefore : c.Continues c') (hafter : d.journal <+: d'.journal) : c.Refuses d' h e := by
  obtain ⟨size, inUse, calls, hfull, hcalls, hmem, rfl⟩ := hrefuses
  obtain ⟨before, hjournal⟩ := hbefore.journal
  obtain ⟨after, hafter⟩ := hafter
  have hindex : c'.device.index = c.device.index := congrArg Make.index hbefore.same
  rw [hbefore.capacity] at hfull hmem ⊢
  rw [hindex] at hmem ⊢
  refine ⟨size, inUse, before ++ calls ++ after, hfull, ?_, ?_, rfl⟩
  case refine_1 => rw [← hafter, hcalls, ← hjournal, List.append_assoc, List.append_assoc, List.append_assoc]
  case refine_2 => exact List.mem_append_left _ (List.mem_append_right _ hmem)

theorem Channel.continues_release (id : BufferId) : (release id).Keeps Continues := fun p =>
  have hadds := adds_release (Q := fun _ => True) id p
  ⟨hadds.onward, rfl, ⟨[_], rfl⟩, Memory.capacity_release _ id⟩

theorem Channel.refuses_allocate {p : Channel} {size : Nat} {cause : Shortage}
    (hmemory : p.device.memory.allocate size = .error cause) (h : Handle) :
    p.Refuses (allocate size p).2 h (Context.nameObject h (.resource p.device.index cause)) := by
  rcases p.device.memory.allocate_cases size with ⟨_, _, hok, _⟩ | ⟨hfull, herror⟩
  case inl => cases hok.symm.trans hmemory
  case inr =>
    cases herror.symm.trans hmemory
    have hcall : Device.allocate size p.device =
        (.error (.resource p.device.index (.memory size p.device.memory.allocated p.device.memory.capacity)),
          p.device) := by
      unfold Device.allocate
      rw [Action.bind_of_ok (Action.get_apply _), hmemory]
      rfl
    refine ⟨size, p.device.memory.allocated, [.allocate size (Device.allocate size p.device).1], hfull, rfl, ?_, rfl⟩
    rw [hcall]
    exact List.mem_singleton_self _

theorem Device.Awaits.of_queue {c c' : Channel} {first : Nat} {wait : List EventId}
    (hqueue : c'.queue = c.queue) (h : c.device.Awaits first wait) : c'.device.Awaits first wait := by
  have hevents : c'.device.events = c.device.events := congrArg Queue.events hqueue
  have hnext : c'.device.nextEvent = c.device.nextEvent := congrArg Queue.next hqueue
  refine ⟨⟨?_, fun w hw => ?_⟩, h.recent, hnext ▸ h.begun, h.accountable.of_events hevents⟩
  case refine_1 =>
    unfold Past
    rw [hevents, hnext]
    exact h.aware.past
  case refine_2 =>
    unfold Knows status?
    rw [hevents]
    exact h.aware.known w hw

namespace Context

variable {α : Type} {rest : Nat → List (BufferId × Nat)} {s t u : Hosted Context}
  {first place device index size : Nat} {b : Binding} {wait : List EventId} {h : Handle}

theorem Quiet.awaits (hquiet : Quiet place s t) (h : (s.device place).Awaits first wait) :
    (t.device place).Awaits first wait :=
  h.of_queue hquiet.platform.1

theorem Quiet.accountable (hquiet : Quiet place s t) (h : (s.device place).Accountable first) :
    (t.device place).Accountable first :=
  h.of_events (congrArg Queue.events hquiet.platform.1)

theorem Quiet.knows (hquiet : Quiet place s t) {e : EventId} (h : (s.device place).Knows e) :
    (t.device place).Knows e := by
  have hevents : (t.device place).events = (s.device place).events := congrArg Queue.events hquiet.platform.1
  rwa [Device.Knows, Device.status?, hevents]

theorem allocateBuffer_refuses (hplace : s.part.devices[device]? = some place)
    (hlt : place < s.platform.channels.length) (k : Handle) :
    (allocateBuffer device index size k).Ends s fun r t => ∀ e, r = .error e →
      (s.platform.channel place).Refuses (t.platform.channel place) k e := by
  cases hmemory : (s.device place).memory.allocate size with
  | ok x =>
    rw [Action.Ends, allocateBuffer_of_ok hplace hmemory k]
    intro e he
    cases he
  | error cause =>
    obtain ⟨c, hc, _⟩ := Channel.allocate_of_error hmemory
    have hrefuses := Channel.refuses_allocate hmemory k
    have hcall := onDevice_eq hplace (Channel.allocate size)
    rw [hc] at hcall hrefuses
    have hthrow : tryCatch (onDevice device (Channel.allocate size)) (fun e => throw (nameObject k e)) s =
        (.error (nameObject k (.resource (s.device place).index cause)), s.setChannel place c) := by
      rw [Action.tryCatch_of_error hcall]
      rfl
    unfold allocateBuffer
    refine Action.Ends.bind_of_error hthrow fun e he => ?_
    cases he
    change (s.platform.channel place).Refuses ((s.platform.setChannel place c).channel place) k _
    rw [Platform.channel_setChannel hlt]
    exact hrefuses

-- A buffer is there or can be made, unless the device refuses it.
theorem ensureBuffer_refuses (hdevice : s.part.devices[device]? = some place)
    (hplace : place < s.platform.channels.length) (hb : s.part.bindings[index]? = some b) :
    (ensureBuffer device index size).Ends s fun r t => ∀ e, r = .error e →
      (s.platform.channel place).Refuses (t.platform.channel place) b.object.handle e := by
  refine ensureBuffer_ends_of_bound (binding_ok.mpr hb) (fun _ _ _ => nofun) fun _ => ?_
  unfold replaceBuffer
  refine Action.Ends.bind_get ?_
  rw [place_ok.mpr hdevice]
  refine Action.Ends.bind_of_ok (Action.lift_apply _ s) ?_
  cases b.state.buffer with
  | none => exact allocateBuffer_refuses hdevice hplace _
  | some old =>
    refine Action.Ends.bind_modify (Action.Ends.bind_of_ok
      (onDevice_eq (s := { s with part := s.part.modifyState index ObjectState.detach }) hdevice _) ?_)
    generalize hu : Hosted.setChannel place _ _ = u
    have hchannel : u.platform.channel place = (Channel.release old (s.platform.channel place)).2 := by
      rw [← hu]
      exact Platform.channel_setChannel hplace _
    have hlt : place < u.platform.channels.length := by
      rw [← hu]
      exact (Platform.length_setChannel s.platform _).symm ▸ hplace
    refine (allocateBuffer_refuses (hu ▸ hdevice) hlt b.object.handle).mono fun r t hr e he => ?_
    have hrefuses := hr e he
    rw [hchannel] at hrefuses
    exact hrefuses.mono (Channel.continues_release old _) List.prefix_rfl

-- What was found out about a kernel is right, and what is not known yet is asked for.
theorem kernel_finds (hlearned : Learned s) (hdevice : s.part.devices[device]? = some place) {task : Nat} {t : Task}
    (ht : s.part.tasks[task]? = some t) :
    (kernel device task).Ends s fun r u =>
      (∀ kernel, r = .ok kernel → (u.device place).lookup? t.kernel = some kernel) ∧
        ∀ e, r = .error e → (u.device place).lookup? t.kernel = none ∧
          e = .config (.missingKernel t.kernel (u.device place).name) := by
  obtain ⟨u, hasks, hkernel⟩ := kernel_eq hlearned hdevice ht
  rw [Action.Ends, hkernel]
  dsimp only
  rw [hasks.device place]
  cases (s.device place).lookup? t.kernel with
  | some kernel =>
    constructor
    case left =>
      intro kernel' hkernel'
      cases hkernel'
      rfl
    case right =>
      intro e he
      cases he
  | none =>
    constructor
    case left =>
      intro kernel hkernel
      cases hkernel
    case right =>
      intro e he
      cases he
      exact ⟨rfl, rfl⟩

theorem exists_places {c : Context} (hbound : h ∈ c.objects.map HostObject.handle) :
    ∃ index b, c.Places h index b := by
  obtain ⟨o, ho, rfl⟩ := List.mem_map.mp hbound
  cases hindex : c.objectIndex? o.handle with
  | none =>
    rw [objectIndex?_eq, List.findIdx?_eq_none_iff] at hindex
    simpa using hindex o ho
  | some index =>
    obtain ⟨b, hb, _⟩ := exists_of_objectIndex? hindex
    exact ⟨index, b, hindex, hb⟩

-- An object is given a buffer for an argument, unless the device refuses it.
theorem argumentBuffer_refuses (hdevice : s.part.devices[device]? = some place)
    (hplace : place < s.platform.channels.length) {a : Argument}
    (hbound : a.object.handle ∈ s.part.objects.map HostObject.handle) (threads : Nat) :
    (Machine.argumentBuffer device threads a).Ends s fun r t => ∀ e, r = .error e →
      (s.platform.channel place).Refuses (t.platform.channel place) a.object.handle e := by
  obtain ⟨index, b, hplaces⟩ := exists_places hbound
  have hensure (size : Nat) : (ensureBuffer device index size).Ends s fun r t => ∀ e, r = .error e →
      (s.platform.channel place).Refuses (t.platform.channel place) a.object.handle e :=
    hplaces.handle ▸ ensureBuffer_refuses hdevice hplace hplaces.2
  unfold Machine.argumentBuffer
  refine Action.Ends.bind_get ?_
  refine Action.Ends.bind_of_ok (a := index) (t := s) (by rw [objectIndex_ok.mpr hplaces.1]; rfl) ?_
  refine Action.Ends.bind_of_ok (a := b) (t := s) (by rw [binding_ok.mpr hplaces.2]; rfl) ?_
  dsimp only
  split
  case h_2 => exact hensure _
  case h_1 =>
    split
    case isFalse => exact hensure _
    case isTrue => nofun

theorem Deals.continues {A : Hosted Context → Deal → Prop} (h : Deals A s t) (hbooks : Books rest s)
    (hschooled : Schooled s t) (place : Nat) :
    (s.platform.channel place).Continues (t.platform.channel place) := by
  have hleaves : s.platform.Leaves place ((s.part.heldAt place).map Prod.fst) (fun _ => True) t.platform :=
    h.leaves hbooks hschooled (fun _ _ => trivial) place
  exact hleaves.continues

theorem argumentBuffers_refuse (hbooks : Books rest s) (hactive : s.part.active = some device)
    (hdevice : s.part.devices[device]? = some place) (threads : Nat) {arguments : List Argument}
    (hbound : ∀ a ∈ arguments, a.object.handle ∈ s.part.objects.map HostObject.handle) :
    (arguments.mapM (Machine.argumentBuffer device threads)).Ends s fun r t => ∀ e, r = .error e →
      ∃ a ∈ arguments, (s.platform.channel place).Refuses (t.platform.channel place) a.object.handle e := by
  induction arguments generalizing s with
  | nil => nofun
  | cons a arguments ih =>
    rw [List.mapM_cons]
    obtain ⟨hown, hrest⟩ := List.forall_mem_cons.mp hbound
    have hplace := hbooks.attached _ (List.mem_of_getElem? hdevice)
    have hfirst := (argumentBuffer_refuses hdevice hplace hown threads).and_keeps
      (Machine.schooled_argumentBuffer device threads a)
    have hupholds := Machine.argumentBuffer_upholds (P := False) hbooks hactive threads a
    rcases h : Machine.argumentBuffer device threads a s with ⟨e | id, u⟩
    case error =>
      refine Action.Ends.bind_of_error h fun e' he => ?_
      cases he
      exact ⟨a, List.mem_cons_self, (hfirst.of_eq h).1 e rfl⟩
    case ok =>
      have hschooled := (hfirst.of_eq h).2
      have hu := (hupholds.of_eq h).1
      have hdeals := ((argumentBuffer_deals hbooks hactive a).of_eq h).1
      have hcontinues := hdeals.continues hbooks hschooled place
      have hrefuses := ih hu.books (hu.active.trans hactive) (hschooled.devices ▸ hdevice)
        (hschooled.objects ▸ hrest)
      refine Action.Ends.bind_of_ok h (hrefuses.bind (fun _ _ _ => nofun) fun e t hr e' he => ?_)
      cases he
      obtain ⟨x, hx, hrefused⟩ := hr e rfl
      exact ⟨x, List.mem_cons_of_mem a hx, hrefused.mono hcontinues List.prefix_rfl⟩

end Context

-- What may go wrong with a step, after the steps in `before`: no memory, no kernel or none that does well, no
-- shape to launch it in, or nothing to bring out.
inductive Step.Mishap (tuning : Tuning) (first : Nat) (c c' : Channel) (before : List Step) :
    Step → Opcode → Error → Prop
  | full {o : HostObject} {e : Error} (h : c.Refuses c' o.handle e) :
    Mishap tuning first c c' before (.streamIn o) .streamIn e
  | fullFor {t : Task} {a : Argument} {e : Error} (ha : a ∈ t.arguments) (h : c.Refuses c' a.object.handle e) :
    Mishap tuning first c c' before (.task t) .launch e
  | unknownKernel {t : Task} (h : c'.device.lookup? t.kernel = none) :
    Mishap tuning first c c' before (.task t) .launch (.config (.missingKernel t.kernel c'.device.name))
  | shapeless {t : Task} {threads : Nat} {e : Error}
    (h : Geometry.launch t.domain threads c'.device.limits tuning = .error e) :
    Mishap tuning first c c' before (.task t) .launch e
  | raised {t : Task} {device : Nat} {event : EventId} {fault : CommandFault} (hexceptions : t.exceptions)
    (hfailed : c'.device.status? event = some (.failed fault)) (hblames : c'.device.Blames first event) :
    Mishap tuning first c c' before (.task t) .launch (.device device event.number (.task t.id fault))
  | reported {o : HostObject} {e : Error} (h : c'.device.Reports first e) :
    Mishap tuning first c c' before (.streamOut o) .streamOutBlocking e
  | nothing {o : HostObject} {opcode : Opcode} (hopcode : opcode = .streamOut ∨ opcode = .streamOutBlocking)
    (hunfilled : ∀ step ∈ before, ¬step.Fills o.handle) :
    Mishap tuning first c c' before (.streamOut o) opcode (.config (.nothingToRead o.handle))

-- It does not take back what it said.
theorem Step.Mishap.mono {tuning : Tuning} {first : Nat} {c c' d d' : Channel} {before : List Step} {step : Step}
    {opcode : Opcode} {e : Error} (h : step.Mishap tuning first c' d before opcode e) (hbefore : c.Continues c')
    (hafter : d.Continues d') (hpast : d.device.Past) : step.Mishap tuning first c d' before opcode e := by
  have hmake : d'.device.make = d.device.make := hafter.same
  cases h with
  | full hrefuses => exact .full (hrefuses.mono hbefore hafter.journal)
  | fullFor ha hrefuses => exact .fullFor ha (hrefuses.mono hbefore hafter.journal)
  | unknownKernel hnone =>
    have hname : d.device.name = d'.device.name := congrArg Make.name hmake.symm
    rw [hname]
    refine .unknownKernel ?_
    rwa [Device.lookup?_eq, hmake, ← Device.lookup?_eq]
  | shapeless hlaunch =>
    have hlimits : d.device.limits = d'.device.limits := congrArg Make.limits hmake.symm
    exact .shapeless (hlimits ▸ hlaunch)
  | raised hexceptions hfailed hblames =>
    exact .raised hexceptions (hafter.onward.status?_eq hpast hfailed) (hafter.onward.blames hpast hblames)
  | reported hreports =>
    obtain ⟨event, fault, rfl, hfailed, hblames⟩ := hreports
    have hindex : d.device.index = d'.device.index := congrArg Make.index hmake.symm
    exact .reported ⟨event, fault, by rw [hindex], hafter.onward.status?_eq hpast hfailed,
      hafter.onward.blames hpast hblames⟩
  | nothing hopcode hunfilled => exact .nothing hopcode hunfilled

namespace Machine

open Context
open Run (device_ok)

variable {rest : Nat → List (BufferId × Nat)} {s t u : Hosted Context} {m : Machine} {r : Run} {tgt : Target}
  {first place device object offset length : Nat} {wait : List EventId} {b : Binding}

theorem onDevice_ends {α : Type} (hdevice : s.part.devices[device]? = some place)
    (hplace : place < s.platform.channels.length) {act : Action Channel α} {Q : Except Error α → Channel → Prop}
    (h : act.Ends (s.platform.channel place) Q) :
    (onDevice device act).Ends s fun r t => Q r (t.platform.channel place) := by
  unfold onDevice
  refine Action.Ends.bind_get ?_
  rw [place_ok.mpr hdevice]
  exact Action.Ends.bind_of_ok (Action.lift_apply _ s) (Platform.onChannel_ends hplace h)

-- Whoever looks after a launch tells what became of it.
theorem checkLaunch_error (hdevice : s.part.devices[device]? = some place)
    (hplace : place < s.platform.channels.length) {event : EventId} (hknows : (s.device place).Knows event)
    (task : Task) : (checkLaunch device task event).Ends s fun r _ => ∀ e, r = .error e →
      ∃ fault, e = .device device event.number (.task task.id fault) ∧
        (s.device place).status? event = some (.failed fault) := by
  obtain ⟨status, hstatus⟩ := hknows
  have hwait : (Channel.wait [event]).Ends (s.platform.channel place) fun r p => r = .ok ⟨⟩ ∧
      p.device = s.device place := by
    have hnone : [event].find? (fun e => ((s.device place).status? e).isNone) = none := by simp [hstatus]
    have hcall : Device.wait [event] (s.device place) = (.ok ⟨⟩, s.device place) := by
      unfold Device.wait
      rw [Action.bind_of_ok (Action.get_apply _), hnone]
      rfl
    exact ⟨congrArg Prod.fst hcall, congrArg Prod.snd hcall⟩
  have hkeeps : (onDevice device (Channel.wait [event])).Keeps (Quiet place) :=
    quiet_onDevice (Channel.quiet_wait _) device
  unfold checkLaunch
  refine ((onDevice_ends hdevice hplace hwait).and_keeps hkeeps).bind
    (fun _ u ⟨⟨_, hdevice'⟩, hquiet⟩ => ?_) fun _ _ ⟨⟨hok, _⟩, _⟩ => by cases hok
  have hresolve : (Channel.resolve event).Ends (u.platform.channel place) fun r _ => ∃ info,
      r = .ok info ∧ info.status = status := by
    have hknown : (u.platform.channel place).device.status? event = some status := by rw [hdevice', hstatus]
    have hcall : ∃ info, Device.resolve event (u.platform.channel place).device =
        (.ok info, (u.platform.channel place).device) ∧ info.status = status := by
      unfold Device.resolve
      rw [Action.bind_of_ok (Action.get_apply _), hknown]
      exact ⟨_, rfl, rfl⟩
    obtain ⟨info, hcall, hinfo⟩ := hcall
    exact ⟨info, congrArg Prod.fst hcall, hinfo⟩
  refine (onDevice_ends (hquiet.devices ▸ hdevice) (hquiet.platform.2 ▸ hplace) hresolve).bind
    (fun info v hok => ?_) fun _ _ ⟨_, hok, _⟩ => by cases hok
  obtain ⟨info, hok, rfl⟩ := hok
  cases hok
  split
  case h_2 => nofun
  case h_1 fault hfault =>
    intro e he
    cases he
    exact ⟨fault, rfl, hfault ▸ hstatus⟩

-- To keep count is nothing that could fail.
theorem count_ends (m : Machine) (f : Counters → Counters) (place : Nat) (s : Hosted Context) :
    (m.count f).Ends s fun result t => result = .ok ⟨⟩ ∧ Quiet place s t := by
  refine ⟨?_, m.quiet_count f s⟩
  unfold count
  split <;> rfl

-- What waits for nothing is written, if there is room for it.
theorem write_mishap {id : BufferId} {data : Bytes} (hlt : tgt.place < s.platform.channels.length)
    (hawaits : (s.device tgt.place).Awaits first []) (horderly : (s.device tgt.place).memory.Orderly)
    (hlive : (id, data.length) ∈ (s.device tgt.place).memory.live) (blocking : Bool) :
    (onTarget tgt (Channel.write id data [] blocking)).Ends s fun result t =>
      (t.device tgt.place).Accountable first ∧ ∃ event, result = .ok event := by
  have hwrite : (Channel.write id data [] blocking).Ends (s.platform.channel tgt.place) fun result c =>
      c.device.Accountable first ∧ c.device.Excuses [] result :=
    ⟨(Device.write_accountable hawaits horderly hlive blocking).1,
      Device.write_excused hawaits.aware horderly hlive blocking⟩
  have htarget : (onTarget tgt (Channel.write id data [] blocking)).Ends s fun result t =>
      (t.device tgt.place).Accountable first ∧ (t.device tgt.place).Excuses [] result :=
    Platform.onChannel_ends hlt hwrite
  refine htarget.mono fun result t ht => ⟨ht.1, ?_⟩
  rcases ht.2 with ⟨event, hok, _⟩ | ⟨_, hmem, _⟩
  case inl => exact ⟨event, hok⟩
  case inr => cases hmem

-- An object is brought in, unless the device has no room for it.
theorem streamIn_mishap (hbooks : Books rest s) (hplaced : r.Placed s) (htgt : r.target = some tgt)
    (hawaits : (s.device tgt.place).Awaits first []) (hb : s.part.bindings[object]? = some b)
    (hinside : offset + transferSize s.platform.registry b.object length ≤
      s.platform.registry.byteLength b.object.handle) :
    (m.streamIn r object offset length []).Ends s fun result t => (t.device tgt.place).Accountable first ∧
      ∀ e, result = .error e →
        (s.platform.channel tgt.place).Refuses (t.platform.channel tgt.place) b.object.handle e := by
  obtain ⟨hactive, hplace⟩ := hplaced tgt htgt
  have hlt := hbooks.attached _ (List.mem_of_getElem? hplace)
  unfold streamIn
  refine Action.Ends.bind_of_ok (a := tgt) (t := s) (by rw [device_ok.mpr htgt]; rfl) (Action.Ends.bind_get ?_)
  refine Action.Ends.bind_of_ok (a := b) (t := s) (by rw [binding_ok.mpr hb]; rfl) ?_
  dsimp only
  generalize hsize : transferSize s.platform.registry b.object length = size at hinside
  have hensure : (ensureBuffer tgt.index object size).Ends s fun result t =>
      (Upholds False rest s t ∧ ∀ id, result = .ok id → Furnished object size id s t) ∧
        Quiet tgt.place s t ∧ ∀ e, result = .error e →
          (s.platform.channel tgt.place).Refuses (t.platform.channel tgt.place) b.object.handle e :=
    ⟨ensureBuffer_upholds hbooks hactive object size, quiet_ensureBuffer s, ensureBuffer_refuses hplace hlt hb⟩
  refine hensure.bind (fun id u ⟨⟨hu, hfurnished⟩, hquiet, _⟩ => ?_) fun e u ⟨_, hquiet, hrefuses⟩ =>
    ⟨hquiet.accountable hawaits.accountable, fun e' he => by cases he; exact hrefuses e rfl⟩
  obtain ⟨⟨x, hx, hid, hxsize⟩, _⟩ := hfurnished id rfl
  replace hawaits := hquiet.awaits hawaits
  refine Action.Ends.bind_get ?_
  rw [binding_ok.mpr hx]
  refine Action.Ends.bind_of_ok (Action.lift_apply _ u) ?_
  split
  case isTrue => exact ⟨hawaits.accountable, nofun⟩
  case isFalse =>
    have hfits : (if b.object.isScalar then 0 else offset) + size ≤
        s.platform.registry.byteLength b.object.handle := by
      split <;> omega
    obtain ⟨data, hdata, hlength⟩ := Registry.exists_window hfits
    refine Action.Ends.bind_get ?_
    rw [hdata]
    have hlive := hu.books.mem_live (activePlace?_eq (hu.active.trans hactive) (hu.stable.devices ▸ hplace))
      (List.mem_of_getElem? hx) hid
    rw [hxsize, ← hlength] at hlive
    refine (write_mishap (hquiet.platform.2 ▸ hlt) hawaits (hu.books.orderly _) hlive _).bind (fun event v hv => ?_)
      fun _ _ hv => by obtain ⟨_, _, hok⟩ := hv; cases hok
    refine Action.Ends.bind_modify ?_
    refine (count_ends m _ tgt.place _).bind (fun _ w hw => ⟨?_, fun _ he => by cases he⟩) fun _ _ hw => by cases hw.1
    exact hw.2.accountable (s := { v with part := v.part.modifyState object _ }) hv.1

-- Whoever looks after a launch is told if it failed, and a kernel is to blame for that.
theorem checkLaunch_mishap {task : Task} {event : EventId} (tuning : Tuning) (before : List Step) (c : Channel)
    (hdevice : s.part.devices[device]? = some place) (hplace : place < s.platform.channels.length)
    (hexceptions : task.exceptions) (hknows : (s.device place).Knows event) (hfirst : first ≤ event.number)
    (haccountable : (s.device place).Accountable first) :
    (checkLaunch device task event).Ends s fun result t => (t.device place).Accountable first ∧
      ∀ e, result = .error e →
        Step.Mishap tuning first c (t.platform.channel place) before (.task task) .launch e := by
  refine ((checkLaunch_error hdevice hplace hknows task).and_keeps (quiet_checkLaunch device task event)).mono
    fun result t ⟨herror, hquiet⟩ => ⟨hquiet.accountable haccountable, fun e he => ?_⟩
  obtain ⟨fault, rfl, hfailed⟩ := herror e he
  have hevents : (t.device place).events = (s.device place).events := congrArg Queue.events hquiet.platform.1
  have hstatus : (t.device place).status? event = some (.failed fault) := by
    rwa [Device.status?, hevents]
  exact .raised hexceptions hstatus (hquiet.accountable haccountable event fault hfirst hstatus)

-- The way to a launch hands nothing over.
structure Readies (rest : Nat → List (BufferId × Nat)) (place : Nat) (s t : Hosted Context) : Prop where
  upholds   : Upholds False rest s t
  schooled  : Schooled s t
  quiet     : Quiet place s t
  continues : (s.platform.channel place).Continues (t.platform.channel place)

theorem kernel_mishap {task : Nat} {t' : Task} (tuning : Tuning) (first : Nat) (before : List Step)
    (hbooks : Books rest s) (hdevice : s.part.devices[device]? = some place) (hlearned : Learned s)
    (ht : s.part.tasks[task]? = some t') :
    (Context.kernel device task).Ends s fun result u => Readies rest place s u ∧
      (∀ kernel, result = .ok kernel → ∃ x, (u.device place).kernels[kernel]? = some x) ∧
        ∀ e, result = .error e → Step.Mishap tuning first (s.platform.channel place) (u.platform.channel place)
          before (.task t') .launch e := by
  have hcalm := calm_kernel device task s
  have hschooled := schooled_kernel device task s
  have hfinds := kernel_finds hlearned hdevice ht
  refine ⟨⟨hcalm.still.upholds hbooks, hschooled, quiet_kernel device task s,
    (Deals.of_calm (A := fun _ _ => False) hcalm).continues hbooks hschooled place⟩, fun kernel hok => ?_,
    fun e he => ?_⟩
  case refine_1 =>
    obtain ⟨hlt, _⟩ := List.findIdx?_eq_some_iff_getElem.mp (hfinds.1 kernel hok)
    exact ⟨_, List.getElem?_eq_getElem hlt⟩
  case refine_2 =>
    obtain ⟨hnone, rfl⟩ := hfinds.2 e he
    exact .unknownKernel hnone

theorem argumentBuffers_mishap {task : Task} {threads : Nat} (tuning : Tuning) (first : Nat) (before : List Step)
    (hbooks : Books rest s) (hactive : s.part.active = some device) (hdevice : s.part.devices[device]? = some place)
    (happart : task.Apart)
    (hbound : ∀ a ∈ task.arguments, a.object.handle ∈ s.part.objects.map HostObject.handle) :
    (task.arguments.mapM (argumentBuffer device threads)).Ends s fun result t => Readies rest place s t ∧
      (∀ ids, result = .ok ids → ∀ id ∈ ids, id ∈ (t.device place).memory.live.map Prod.fst) ∧
        ∀ e, result = .error e → Step.Mishap tuning first (s.platform.channel place) (t.platform.channel place)
          before (.task task) .launch e := by
  have hupholds := argumentBuffers_upholds (P := False) hbooks hactive threads task.arguments
  have hschooled := Action.Keeps.mapM schooled_lasting (schooled_argumentBuffer device threads) task.arguments s
  have hrefuses := argumentBuffers_refuse hbooks hactive hdevice threads hbound
  refine ⟨⟨hupholds.1, hschooled, Action.Keeps.mapM (quiet_lasting place) (quiet_argumentBuffer device threads) _ s,
    (argumentBuffers_deals hbooks hactive hdevice _).1.continues hbooks hschooled place⟩, fun ids hids id hid => ?_,
    fun e he => ?_⟩
  case refine_1 =>
    have hplace := activePlace?_eq (hupholds.1.active.trans hactive) (hschooled.devices ▸ hdevice)
    have hcollected := (argumentBuffers_deals hbooks hactive hdevice _).2 ids hids
    obtain ⟨_, hlive⟩ := hcollected.live hupholds.1.books hplace happart.steady id hid
    exact List.mem_map_of_mem hlive
  case refine_2 =>
    obtain ⟨a, ha, hrefused⟩ := hrefuses e he
    exact .fullFor ha hrefused

-- A task is launched, unless its kernel is not there, an object gets no buffer, or the device does not take a launch
-- of that shape; and whoever asks for exceptions is told if the kernel fails.
theorem launch_mishap (offset threads : Nat) (before : List Step) {task : Nat} {t' : Task} (hbooks : Books rest s)
    (hactive : s.part.active = some device) (hdevice : s.part.devices[device]? = some place) (hlearned : Learned s)
    (hawaits : (s.device place).Awaits first wait) (ht : s.part.tasks[task]? = some t') (happart : t'.Apart)
    (hbound : ∀ a ∈ t'.arguments, a.object.handle ∈ s.part.objects.map HostObject.handle) :
    (m.launch task device offset threads wait).Ends s fun result t => (t.device place).Accountable first ∧
      ∀ e, result = .error e → Step.Mishap m.config.tuning first (s.platform.channel place)
        (t.platform.channel place) before (.task t') .launch e := by
  unfold launch
  refine (kernel_mishap m.config.tuning first before hbooks hdevice hlearned ht).bind
    (fun kernel u ⟨hu, hkernel, _⟩ => ?_) fun e u ⟨hu, _, hmishap⟩ =>
      ⟨hu.quiet.accountable hawaits.accountable, fun e' he => by cases he; exact hmishap e rfl⟩
  have hawaitsᵤ := hu.quiet.awaits hawaits
  have hdeviceᵤ := hu.schooled.devices ▸ hdevice
  have htᵤ := hu.schooled.tasks ▸ ht
  refine Action.Ends.bind_get (Action.Ends.bind_of_ok (a := place) (t := u) (by rw [place_ok.mpr hdeviceᵤ]; rfl) ?_)
  refine Action.Ends.bind_get (Action.Ends.bind_of_ok (a := t') (t := u) (by rw [task_ok.mpr htᵤ]; rfl) ?_)
  refine (argumentBuffers_mishap m.config.tuning first before hu.upholds.books (hu.upholds.active.trans hactive)
    hdeviceᵤ happart (hu.schooled.objects ▸ hbound)).bind (fun ids v ⟨hv, hids, _⟩ => ?_) fun e v ⟨hv, _, hmishap⟩ =>
      ⟨hv.quiet.accountable hawaitsᵤ.accountable, fun e' he => ?_⟩
  case refine_2 =>
    cases he
    exact (hmishap e rfl).mono hu.continues (Channel.continues_lasting.refl _) (hv.quiet.awaits hawaitsᵤ).aware.past
  have hawaitsᵥ := hv.quiet.awaits hawaitsᵤ
  have hdeviceᵥ := hv.schooled.devices ▸ hdeviceᵤ
  have hltᵥ := hv.upholds.books.attached _ (List.mem_of_getElem? hdeviceᵥ)
  refine Action.Ends.bind_get (Action.Ends.bind_lift (fun geometry _ => ?_) fun e he =>
    ⟨hawaitsᵥ.accountable, fun e' he' => by cases he'; exact .shapeless he⟩)
  obtain ⟨x, hx⟩ := hkernel kernel rfl
  have hkernels : (v.device place).kernels = (u.device place).kernels :=
    congrArg Make.kernels (hv.schooled.same place)
  have hlaunch : (Channel.launch kernel ids geometry wait).Ends (v.platform.channel place) fun result c =>
      c.device.Accountable first ∧ ∃ e : EventId, result = .ok e ∧ first ≤ e.number ∧ c.device.Knows e :=
    Device.launch_accountable hawaitsᵥ (hkernels ▸ hx) (hids ids rfl)
  refine ((onDevice_ends hdeviceᵥ hltᵥ hlaunch).and_keeps
    (still_onDevice (P := False) (Channel.still_launch _ _ _ _) device)).bind
      (fun event w ⟨⟨hw, _, hok, hfirst, hknows⟩, hstill⟩ => ?_) fun e w ⟨⟨_, _, hok, _⟩, _⟩ => by cases hok
  cases hok
  refine (count_ends m _ place w).bind (fun _ x ⟨_, hquiet⟩ => ?_) fun _ _ ⟨hok, _⟩ => by cases hok
  have hx' := hquiet.accountable hw
  dsimp only
  split
  case isFalse => exact ⟨hx', nofun⟩
  case isTrue hexceptions =>
    have hdeviceₓ := hquiet.devices ▸ hstill.devices ▸ hdeviceᵥ
    have hltₓ := hquiet.platform.2 ▸ hstill.channels ▸ hltᵥ
    refine (checkLaunch_mishap m.config.tuning before (s.platform.channel place) hdeviceₓ hltₓ hexceptions
      (hquiet.knows hknows) hfirst hx').bind (fun _ y ⟨hy, _⟩ => ⟨hy, nofun⟩) fun e y ⟨hy, hmishap⟩ => ⟨hy, ?_⟩
    intro e' he
    cases he
    exact hmishap e rfl

-- What is read back changes nothing on the device but its events.
theorem readBack_mishap {id : BufferId} {size : Nat} {h : Handle} (hlt : place < s.platform.channels.length)
    (hawaits : (s.device place).Awaits first wait) (horderly : (s.device place).memory.Orderly)
    (hlive : (id, size) ∈ (s.device place).memory.live) (hlength : length ≤ size)
    (hinside : offset + length ≤ s.platform.registry.byteLength h) (blocking : Bool) :
    (Hosted.onPlatform (Platform.readBack place id h offset length wait blocking) : On EventId).Ends s
      fun result t => (t.device place).Accountable first ∧
        ∀ e, result = .error e → blocking = true ∧ (t.device place).Reports first e := by
  suffices hread : (Platform.readBack place id h offset length wait blocking).Ends s.platform fun result p =>
      (p.channel place).device.Accountable first ∧
        ∀ e, result = .error e → blocking = true ∧ (p.channel place).device.Reports first e from hread
  have hcall : (Channel.read id (s.platform.registry.byteLength h) offset length wait blocking).Ends
      (s.platform.channel place) fun result c => c.device.Accountable first ∧
        ∀ e, result = .error e → blocking = true ∧ c.device.Reports first e :=
    Device.read_accountable hawaits horderly hlive hlength hinside blocking
  unfold Platform.readBack
  refine Action.Ends.bind_get ((Platform.onChannel_ends hlt hcall).bind (fun (event, data) p hp => ?_)
    fun e p hp => ⟨hp.1, fun e' he => by cases he; exact hp.2 e rfl⟩)
  cases data with
  | none => exact ⟨hp.1, nofun⟩
  | some data => exact ⟨hp.1, nofun⟩

-- An object is brought out if there is data of it on the device, and enough of it, unless that failed and one waited
-- for it.
theorem streamOut_mishap (hbooks : Books rest s) (hplaced : r.Placed s) (htgt : r.target = some tgt)
    (hawaits : (s.device tgt.place).Awaits first wait) (hb : s.part.bindings[object]? = some b)
    (hinside : offset + transferSize s.platform.registry b.object length ≤
      s.platform.registry.byteLength b.object.handle) (blocking : Bool) :
    (m.streamOut r object offset length wait blocking).Ends s fun result t =>
      (t.device tgt.place).Accountable first ∧ ∀ e, result = .error e →
        (e = .config (.nothingToRead b.object.handle) ∧ ¬b.state.isValid) ∨
          (b.state.isValid ∧ b.state.size < transferSize s.platform.registry b.object length) ∨
            blocking = true ∧ (t.device tgt.place).Reports first e := by
  obtain ⟨hactive, hplace⟩ := hplaced tgt htgt
  have hlt := hbooks.attached _ (List.mem_of_getElem? hplace)
  unfold streamOut
  refine Action.Ends.bind_of_ok (a := tgt) (t := s) (by rw [device_ok.mpr htgt]; rfl) (Action.Ends.bind_get ?_)
  refine Action.Ends.bind_of_ok (a := b) (t := s) (by rw [binding_ok.mpr hb]; rfl) ?_
  dsimp only
  split
  case h_2 hnone =>
    refine ⟨hawaits.accountable, fun e he => .inl ⟨by cases he; rfl, fun hvalid => ?_⟩⟩
    rw [ObjectState.isValid_eq_isSome_validBuffer?] at hvalid
    obtain ⟨id, hid⟩ := Option.isSome_iff_exists.mp hvalid
    exact hnone id hid
  case h_1 id hvalid =>
    split
    case isTrue hsize =>
      exact ⟨hawaits.accountable, fun _ _ => .inr (.inl ⟨ObjectState.isValid_of_validBuffer? hvalid, hsize⟩)⟩
    case isFalse hsize =>
      have hlive := hbooks.mem_live (activePlace?_eq hactive hplace) (List.mem_of_getElem? hb)
        (ObjectState.buffer_of_validBuffer? hvalid)
      refine (readBack_mishap hlt hawaits (hbooks.orderly _) hlive (Nat.le_of_not_lt hsize) hinside blocking).bind
        (fun event u ⟨hu, _⟩ => ?_) fun e u ⟨hu, hreports⟩ =>
          ⟨hu, fun e' he => by cases he; exact .inr (.inr (hreports e rfl))⟩
      refine (count_ends m _ tgt.place u).bind (fun _ v ⟨_, hquiet⟩ => ?_) fun _ _ ⟨hok, _⟩ => by cases hok
      have hv := hquiet.accountable hu
      split
      case isTrue => exact Action.Ends.bind_modify ⟨hv, nofun⟩
      case isFalse => exact ⟨hv, nofun⟩

end Machine
end Offload
