import Offload.Proofs.Provide

/-!
Transfers: what a machine copies to a device and back is what the step says, provided that the command
finds everything it waits for complete.
-/

namespace Offload

namespace Device

-- How an event ends.
def outcome : Option CommandFault → EventStatus
  | none => .complete
  | some fault => .failed fault

theorem record_eq (d : Device) (fault : Option CommandFault) (memory : Memory) :
    d.record fault memory = { d with
      memory, events := (⟨d.nextEvent⟩, outcome fault) :: d.events, nextEvent := d.nextEvent + 1 } := by
  cases fault <;> rfl

end Device

namespace Registry

-- What a change of one entry makes of the bytes; an object without an entry has none.
theorem bytes_modifyEntry_eq {r : Registry} {h : Handle} {f : Entry → Entry} {g : Bytes → Bytes}
    (hf : ∀ e, (f e).bytes = g e.bytes) (hnone : r.bytes h = [] → g [] = []) :
    (r.modifyEntry h f).bytes = Function.update r.bytes h (g (r.bytes h)) := by
  funext k
  by_cases hk : k = h
  case pos =>
    subst hk
    rw [Function.update_self]
    obtain ⟨n⟩ := k
    cases n with
    | zero => exact (hnone rfl).symm
    | succ n =>
      cases hn : r.entries[n]? with
      | none =>
        have hbytes : r.bytes ⟨n + 1⟩ = [] := by simp [bytes, entry?, hn]
        rw [hbytes, hnone hbytes]
        simp [bytes, entry?, modifyEntry, hn]
      | some e => simp [bytes, entry?, modifyEntry, hn, hf]
  case neg =>
    rw [Function.update_of_ne hk]
    obtain ⟨n⟩ := h
    obtain ⟨m⟩ := k
    cases n with
    | zero => rfl
    | succ n =>
      cases m with
      | zero => rfl
      | succ m =>
        have hne : n ≠ m := fun heq => hk (by rw [heq])
        simp [bytes, entry?, modifyEntry, hne]

theorem bytes_deliver {r : Registry} {h : Handle} {offset : Nat} {data : Bytes}
    (hfits : offset + data.length ≤ (r.bytes h).length) :
    (r.deliver h offset data).bytes =
      Function.update r.bytes h (Bytes.overlayAt offset data (r.bytes h)) := by
  refine bytes_modifyEntry_eq (fun _ => rfl) fun hnone => ?_
  rw [hnone] at hfits
  have hdata : data = [] := List.eq_nil_of_length_eq_zero (Nat.eq_zero_of_add_eq_zero_left
    (Nat.le_zero.mp hfits))
  simp [Bytes.overlayAt, Bytes.overlay, hdata]

end Registry

namespace Platform

variable {p : Platform} {place : Nat} {id : BufferId} {h : Handle} {offset length : Nat}
  {wait : List EventId} {blocking : Bool} {c : Channel}

theorem readBack_of_ok {e : EventId} {data : Bytes}
    (hread : Channel.read id (p.registry.byteLength h) offset length wait blocking (p.channel place) =
      (.ok (e, some data), c)) :
    readBack place id h offset length wait blocking p =
      (.ok e, { p.setChannel place c with registry := p.registry.deliver h offset data }) := by
  unfold readBack
  rw [Action.bind_of_ok (Action.get_apply p)]
  rw [Action.bind_of_ok (by rw [onChannel_apply, hread])]
  rfl

theorem readBack_of_none {e : EventId}
    (hread : Channel.read id (p.registry.byteLength h) offset length wait blocking (p.channel place) =
      (.ok (e, none), c)) :
    readBack place id h offset length wait blocking p = (.ok e, p.setChannel place c) := by
  unfold readBack
  rw [Action.bind_of_ok (Action.get_apply p)]
  rw [Action.bind_of_ok (by rw [onChannel_apply, hread])]
  rfl

theorem readBack_of_error {e : Error}
    (hread : Channel.read id (p.registry.byteLength h) offset length wait blocking (p.channel place) =
      (.error e, c)) :
    readBack place id h offset length wait blocking p = (.error e, p.setChannel place c) := by
  unfold readBack
  rw [Action.bind_of_ok (Action.get_apply p)]
  exact Action.bind_of_error (by rw [onChannel_apply, hread])

end Platform

namespace Channel

variable {p : Channel} {wait : List EventId} {id : BufferId} {bytes : Bytes}

-- A command was run and its event is over; what it left of the memory is given.
def Ran (p : Channel) (fault : Option CommandFault) (memory : Memory) (p' : Channel) : Prop :=
  p'.device = p.device.record fault memory

theorem write_ready (hready : p.queue.Ready wait) {data : Bytes} {memory : Memory}
    (hmemory : p.device.memory.write id data = .ok memory) (blocking : Bool) :
    ∃ p', write id data wait blocking p = (.ok p.queue.nextEvent, p') ∧ p.Ran none memory p' := by
  have hcall : Device.write id data wait blocking p.device =
      (.ok p.queue.nextEvent, p.device.record none memory) := by
    unfold Device.write
    rw [Action.bind_of_ok (Device.perform_ok (waitFault_eq_none_iff.mpr hready) (by rw [hmemory]))]
    rfl
  refine ⟨_, by rw [write, noting_apply, hcall], ?_⟩
  rfl

theorem read_ready (hready : p.queue.Ready wait) (hbytes : p.device.memory.contents? id = some bytes)
    {hostSize offset length : Nat} (hlength : length ≤ bytes.length)
    (hhost : offset + length ≤ hostSize) (blocking : Bool) :
    ∃ p', read id hostSize offset length wait blocking p =
      (.ok (p.queue.nextEvent, some (bytes.take length)), p') ∧ p.Ran none p.device.memory p' := by
  have hcall : Device.read id hostSize offset length wait blocking p.device =
      (.ok (p.queue.nextEvent, some (bytes.take length)), p.device.record none p.device.memory) :=
    Device.perform_ok (waitFault_eq_none_iff.mpr hready)
      (by rw [Memory.read_eq hbytes hlength, if_neg (Nat.not_lt_of_le hhost)])
  refine ⟨_, by rw [read, noting_apply, hcall], ?_⟩
  rfl

-- A read that would leave the host object fails, which only a blocking one tells.
theorem read_outside (hready : p.queue.Ready wait) (hbytes : p.device.memory.contents? id = some bytes)
    {hostSize offset length : Nat} (hlength : length ≤ bytes.length)
    (hhost : hostSize < offset + length) (blocking : Bool) :
    ∃ fault p', p.Ran (some fault) p.device.memory p' ∧
      read id hostSize offset length wait blocking p =
        (if blocking then .error (.device p.device.index p.device.nextEvent fault)
          else .ok (p.queue.nextEvent, none), p') := by
  have hbody : ((p.device.memory.read id hostSize offset length, p.device.memory) :
      Except CommandFault Bytes × Memory) =
      (.error (.readOutsideHost offset (offset + length) hostSize), p.device.memory) := by
    rw [Memory.read_eq hbytes hlength, if_pos hhost]
  have hsubmit : Device.submit wait (fun m => (m.read id hostSize offset length, m)) p.device =
      (⟨p.device.nextEvent⟩, .error (.readOutsideHost offset (offset + length) hostSize),
        p.device.record (some (.readOutsideHost offset (offset + length) hostSize)) p.device.memory) :=
    Device.submit_failed (waitFault_eq_none_iff.mpr hready) hbody
  have hcall : Device.read id hostSize offset length wait blocking p.device =
      (if blocking then .error (.device p.device.index p.device.nextEvent
          (.readOutsideHost offset (offset + length) hostSize))
        else .ok (p.queue.nextEvent, none),
        p.device.record (some (.readOutsideHost offset (offset + length) hostSize)) p.device.memory) := by
    unfold Device.read Device.perform
    rw [Action.bind_of_ok (Action.get_apply _), hsubmit]
    cases blocking <;> rfl
  refine ⟨_, _, ?_, by rw [read, noting_apply, hcall]⟩
  rfl

end Channel

-- The bytes that were copied to a buffer are its object's copy, which counts as filled.
theorem Intact.fill {b : Bench} {s : Hosted Context} {index : Nat} {x : Binding} {id : BufferId}
    (hi : Intact b s) (offset : Nat) (hx : s.part.bindings[index]? = some x) (hid : x.state.buffer = some id)
    {old data : Bytes} (hold : (s.device b.place).memory.contents? id = some old)
    (hlength : data.length = old.length) {c : Channel} {memory : Memory}
    (hmemory : (s.device b.place).memory.write id data = .ok memory)
    (hran : (s.platform.channel b.place).Ran none memory c) :
    let t := { s with part := s.part.modifyState index (·.markWritten offset) }.setChannel b.place c
    Intact b t ∧ t.world b.place = (s.world b.place).put x.object.handle ⟨data, true⟩ := by
  obtain ⟨_, hmemory', hcontents, hothers, hsound⟩ := Memory.write_ok hold (Nat.le_of_eq hlength)
  cases hmemory.symm.trans hmemory'
  have hdata : Bytes.overlay data old = data := by simp [Bytes.overlay, hlength]
  rw [hdata] at hcontents
  have hdevice : c.device.memory = memory ∧ c.device.kernels = (s.device b.place).kernels ∧
      c.device.limits = (s.device b.place).limits := by
    rw [hran, Device.record_eq]
    exact ⟨rfl, rfl, rfl⟩
  have hmodified : Modified b x.object.handle (x.state.markWritten offset) s
      ({ s with part := s.part.modifyState index (·.markWritten offset) }.setChannel b.place c) := by
    refine hi.modify (f := (·.markWritten offset)) hx (hi.frame_modify index (·.markWritten offset)
      hdevice.2.1 hdevice.2.2 (hdevice.1 ▸ hsound)) rfl ?_ ?_
    case refine_1 =>
      intro other hne id' hid'
      have hne' := hi.buffer?_ne hx hid hne hid'
      rw [Hosted.device_setChannel (by exact hi.attached), hdevice.1]
      exact ⟨fun heq => hne' (Option.some.inj (heq.symm.trans hid)), hothers id' hne'⟩
    case refine_2 =>
      intro id' hid'
      cases hid.symm.trans hid'
      obtain ⟨bytes, hbytes, hsize⟩ := hi.sized (hi.distinct.state?_eq hx) hid
      cases hold.symm.trans hbytes
      rw [Hosted.device_setChannel (by exact hi.attached), hdevice.1]
      exact ⟨data, hcontents, hlength.trans hsize⟩
  refine ⟨hmodified.intact, World.ext rfl (funext fun other => ?_)⟩
  have hcopy : (x.state.markWritten offset).copy? c.device.memory = some ⟨data, true⟩ := by
    rw [hdevice.1]
    exact ObjectState.copy?_of_some hid hcontents
  rw [hmodified.copies, Hosted.device_setChannel (by exact hi.attached), hcopy]
  rfl

-- What is to come of an instruction: a step that can be taken is, and one that cannot makes the
-- instruction or its event fail.
def Follows (b : Bench) (w : Except Stop World) (s : Hosted Context)
    (r : Except Error (Option EventId)) (t : Hosted Context) : Prop :=
  match w with
  | .ok w => Intact b t ∧ t.world b.place = w ∧
    ∃ event, r = .ok event ∧ ∀ e, event = some e → (t.queue b.place).status? e = some .complete
  | .error (.nothingToRead h) => t = s ∧ r = .error (.config (.nothingToRead h))
  | .error .failed => ∀ event, r = .ok event →
    ∃ e, event = some e ∧ ∃ fault, (t.queue b.place).status? e = some (.failed fault)

theorem Intact.counters {b : Bench} {s : Hosted Context} (hi : Intact b s) (counters : Counters) :
    Intact b { s with platform := { s.platform with counters } } :=
  ⟨hi.devices, hi.attached, hi.kernels, hi.limits, hi.objects, hi.tasks, hi.active, hi.found, hi.sound,
    hi.sized, hi.apart⟩

theorem Intact.registry {b : Bench} {s : Hosted Context} (hi : Intact b s) (registry : Registry) :
    Intact b { s with platform := { s.platform with registry } } :=
  ⟨hi.devices, hi.attached, hi.kernels, hi.limits, hi.objects, hi.tasks, hi.active, hi.found, hi.sound,
    hi.sized, hi.apart⟩

-- Calls that leave the memory as it is leave everything as it is.
theorem Intact.call {b : Bench} {s : Hosted Context} {c : Channel} (hi : Intact b s)
    (hmemory : c.device.memory = (s.device b.place).memory)
    (hkernels : c.device.kernels = (s.device b.place).kernels)
    (hlimits : c.device.limits = (s.device b.place).limits) :
    Intact b (s.setChannel b.place c) ∧
      (s.setChannel b.place c).world b.place = s.world b.place := by
  have hsame : ((s.setChannel b.place c).device b.place).memory = (s.device b.place).memory := by
    rw [Hosted.device_setChannel hi.attached, hmemory]
  refine ⟨hi.of_frame (Frame.setChannel hi.attached hkernels hlimits (hmemory ▸ id)) ?_ hi.apart, ?_⟩
  case refine_1 =>
    rw [hsame]
    exact hi.sized
  case refine_2 =>
    refine World.ext rfl (funext fun h => ?_)
    rw [Hosted.world, hsame]
    rfl

theorem Intact.ran {b : Bench} {s : Hosted Context} {c : Channel} {fault : Option CommandFault}
    (hi : Intact b s)
    (hran : (s.platform.channel b.place).Ran fault (s.device b.place).memory c) :
    Intact b (s.setChannel b.place c) ∧
      (s.setChannel b.place c).world b.place = s.world b.place := by
  have hdevice : c.device = (s.device b.place).record fault (s.device b.place).memory := hran
  rw [Device.record_eq] at hdevice
  exact hi.call (hdevice ▸ rfl) (hdevice ▸ rfl) (hdevice ▸ rfl)

-- The event of the command that a device ran last.
theorem Channel.Ran.status?_eq {p p' : Channel} {fault : Option CommandFault} {memory : Memory}
    (hran : p.Ran fault memory p') :
    p'.queue.status? p.queue.nextEvent = some (Device.outcome fault) := by
  have hevents : p'.queue.events = (p.queue.nextEvent, Device.outcome fault) :: p.queue.events := by
    rw [Channel.queue, hran, Device.record_eq]
    rfl
  simp [Queue.status?, hevents]

namespace Machine

open Context (Granted)

variable {b : Bench} {m : Machine} {r : Run} {s : Hosted Context} {u : Setup} {p : Pass}
  {object index : Nat} {x : Binding} {o : HostObject} {wait : List EventId}

theorem count_apply (m : Machine) (f : Counters → Counters) (s : Hosted Context) :
    ∃ counters, m.count f s = (.ok ⟨⟩, { s with platform := { s.platform with counters } }) := by
  unfold count
  split
  case isTrue => exact ⟨_, rfl⟩
  case isFalse => exact ⟨s.platform.counters, rfl⟩

theorem onTarget_eq {t : Target} {α : Type} (act : Action Channel α) (s : Hosted Context) :
    onTarget t act s = ((act (s.platform.channel t.place)).1,
      s.setChannel t.place (act (s.platform.channel t.place)).2) :=
  rfl

theorem transferSize_eq {o' : HostObject} (ho : o'.handle = o.handle) (place length : Nat) :
    transferSize s.platform.registry o' length = (s.world place).transferSize o.handle length := by
  rw [transferSize, Registry.byteLength, ho]
  rfl

theorem streamIn_follows (hi : Intact b s) (ht : r.target = some { index := b.index, place := b.place })
    (hx : s.part.bindings[object]? = some x) (ho : x.object.handle = o.handle)
    (hscalar : x.object.isScalar → m.config.benchmarkingMode ∧ p.offset = 0)
    (hready : (s.queue b.place).Ready wait) :
    (m.streamIn r object p.offset p.length wait).Ends s fun result t => Granted result →
      Follows b ((s.world b.place).windowStep u p (.streamIn o)) s result t := by
  unfold streamIn
  rw [device_eq ht]
  refine Action.Ends.bind_of_ok (Action.lift_apply _ s) (Action.Ends.bind_get ?_)
  rw [Context.binding_ok.mpr hx]
  refine Action.Ends.bind_of_ok (Action.lift_apply _ s) ?_
  dsimp only
  rw [transferSize_eq ho b.place]
  generalize hsize : (s.world b.place).transferSize o.handle p.length = size
  have hstep : (s.world b.place).windowStep u p (.streamIn o) =
      if p.offset + size ≤ (s.platform.registry.bytes x.object.handle).length then
        .ok ((s.world b.place).put x.object.handle
          ⟨Bytes.window p.offset size (s.platform.registry.bytes x.object.handle), true⟩)
      else .error .failed := by
    rw [← hsize, ho]
    rfl
  rw [hstep]
  have hkeeps : (Context.ensureBuffer b.index object size).Keeps (Context.Quiet b.place) :=
    Context.quiet_ensureBuffer
  refine ((Context.ensureBuffer_serves hi hx _).and_keeps hkeeps).bind fun id t ⟨hp, hquiet⟩ => Action.Ends.bind_get ?_
  obtain ⟨x', hx', hobject⟩ := hi.binding_eq hp.intact hx
  rw [Context.binding_ok.mpr hx']
  refine Action.Ends.bind_of_ok (Action.lift_apply _ t) ?_
  have hoffset : (if x.object.isScalar = true then 0 else p.offset) = p.offset := by
    split
    case isTrue h => exact (hscalar h).2.symm
    case isFalse => rfl
  have hwrites : ¬(x.object.isScalar = true ∧ x'.state.written = true ∧
      ¬m.config.benchmarkingMode = true) := fun ⟨h, _, hnot⟩ => hnot (hscalar h).1
  rw [if_neg hwrites, hoffset]
  unfold Registry.window
  by_cases hfits : p.offset + size ≤ (s.platform.registry.bytes x.object.handle).length
  case neg =>
    simp only [if_neg hfits]
    exact fun _ _ h => nomatch h
  case pos =>
    simp only [if_pos hfits]
    obtain ⟨st, old, hst, hid, hold, hlength⟩ := hp.contents
    rw [← hobject, hp.intact.distinct.state?_eq hx'] at hst
    cases hst
    have hdata : (Bytes.window p.offset size (s.platform.registry.bytes x.object.handle)).length =
        old.length := by rw [Bytes.window_length hfits, hlength]
    obtain ⟨memory, hmemory, _⟩ := Memory.write_ok hold (Nat.le_of_eq hdata)
    have hready' : (t.platform.channel b.place).queue.Ready wait := by
      rw [show (t.platform.channel b.place).queue = s.queue b.place from hquiet.queue_eq]
      exact hready
    obtain ⟨c, hwrite, hran⟩ := Channel.write_ready hready' hmemory x.object.isScalar
    have hcommand := onTarget_eq (t := ⟨b.index, b.place⟩) (Channel.write id
      (Bytes.window p.offset size (s.platform.registry.bytes x.object.handle)) wait x.object.isScalar) t
    rw [hwrite] at hcommand
    have ⟨hintact, hworld⟩ := hp.intact.fill p.offset hx' hid hold hdata hmemory hran
    obtain ⟨counters, hcount⟩ := count_apply m (·.countIn size)
      ({ t with part := t.part.modifyState object (·.markWritten p.offset) }.setChannel b.place c)
    refine Action.Ends.bind_of_ok (Action.lift_apply _ t) (Action.Ends.bind_of_ok hcommand ?_)
    refine Action.Ends.bind_modify (Action.Ends.bind_of_ok hcount fun _ => ⟨hintact.counters _, ?_, _, rfl, ?_⟩)
    case refine_1 =>
      have hput : t.world b.place = (s.world b.place).ensure x.object.handle size := hp.world
      rw [hput, hobject, World.put_ensure] at hworld
      exact hworld
    case refine_2 =>
      intro e he
      cases he
      have hstatus := hran.status?_eq
      rw [← Platform.channel_setChannel hp.intact.attached c] at hstatus
      exact hstatus

theorem readBack_world (hi : Intact b s) {id : BufferId} {bytes : Bytes}
    (hbytes : (s.device b.place).memory.contents? id = some bytes) {size : Nat}
    (hsize : size ≤ bytes.length) (hready : (s.queue b.place).Ready wait) (h : Handle) (offset : Nat)
    (blocking : Bool) :
    (Hosted.onPlatform (Platform.readBack b.place id h offset size wait blocking) :
      Context.On EventId).Ends s fun result t =>
        if (s.platform.registry.bytes h).length < offset + size then
          ∀ e, result = .ok e → blocking = false ∧
            ∃ fault, (t.queue b.place).status? e = some (.failed fault)
        else
          Intact b t ∧ t.world b.place = { s.world b.place with
            host := Function.update s.platform.registry.bytes h
              (Bytes.overlayAt offset (bytes.take size) (s.platform.registry.bytes h)) } ∧
          ∃ e, result = .ok e ∧ (t.queue b.place).status? e = some .complete := by
  have hchannel (c : Channel) : (s.platform.setChannel b.place c).channel b.place = c :=
    Platform.channel_setChannel hi.attached c
  split
  case isTrue hhost =>
    obtain ⟨fault, c, hran, hread⟩ := Channel.read_outside (p := s.platform.channel b.place) hready hbytes
      hsize hhost blocking
    cases blocking with
    | true =>
      rw [Action.Ends, Hosted.onPlatform, Platform.readBack_of_error hread]
      intro e he
      cases he
    | false =>
      rw [Action.Ends, Hosted.onPlatform, Platform.readBack_of_none hread]
      intro e he
      cases he
      have hstatus := hran.status?_eq
      rw [← hchannel c] at hstatus
      exact ⟨rfl, fault, hstatus⟩
  case isFalse hhost =>
    obtain ⟨c, hread, hran⟩ := Channel.read_ready (p := s.platform.channel b.place) hready hbytes hsize
      (Nat.le_of_not_lt hhost) blocking
    rw [Action.Ends, Hosted.onPlatform, Platform.readBack_of_ok hread]
    obtain ⟨hintact, hworld⟩ := hi.ran hran
    have hdata : offset + (bytes.take size).length ≤ (s.platform.registry.bytes h).length := by
      rw [List.length_take, Nat.min_eq_left hsize]
      exact Nat.le_of_not_lt hhost
    have hcopies := congrArg World.copies hworld
    refine ⟨hintact.registry _, ?_, _, rfl, ?_⟩
    case refine_1 => exact World.ext (Registry.bytes_deliver hdata) hcopies
    case refine_2 =>
      have hstatus := hran.status?_eq
      rw [← hchannel c] at hstatus
      exact hstatus

-- What a stream-out does to the host, told by what the host knows of the object.
theorem windowStep_streamOut (ho : x.object.handle = o.handle) (s : Hosted Context) (place : Nat) (u : Setup)
    (p : Pass) : (s.world place).windowStep u p (.streamOut o) =
      match (s.world place).copies x.object.handle with
      | some ⟨bytes, true⟩ =>
        if bytes.length < (s.world place).transferSize o.handle p.length ∨
            (s.platform.registry.bytes x.object.handle).length <
              p.offset + (s.world place).transferSize o.handle p.length then .error .failed
        else .ok { s.world place with
          host := Function.update s.platform.registry.bytes x.object.handle
            (Bytes.overlayAt p.offset (bytes.take ((s.world place).transferSize o.handle p.length))
              (s.platform.registry.bytes x.object.handle)) }
      | _ => .error (.nothingToRead x.object.handle) := by
  rw [ho]
  rfl

theorem streamOut_follows (hi : Intact b s)
    (ht : r.target = some { index := b.index, place := b.place })
    (hx : s.part.bindings[object]? = some x) (ho : x.object.handle = o.handle)
    (hready : (s.queue b.place).Ready wait) (blocking : Bool) :
    (m.streamOut r object p.offset p.length wait blocking).Ends s fun result t =>
      Follows b ((s.world b.place).windowStep u p (.streamOut o)) s (result.map Prod.fst) t := by
  unfold streamOut
  rw [device_eq ht]
  refine Action.Ends.bind_of_ok (Action.lift_apply _ s) (Action.Ends.bind_get ?_)
  rw [Context.binding_ok.mpr hx]
  refine Action.Ends.bind_of_ok (Action.lift_apply _ s) ?_
  dsimp only
  rw [transferSize_eq ho b.place]
  have hst := hi.distinct.state?_eq hx
  rw [windowStep_streamOut ho]
  generalize (s.world b.place).transferSize o.handle p.length = size
  cases hid : x.state.buffer with
  | none =>
    have hnone := Intact.copies_of_none (b := b) (s := s) (h := x.object.handle)
      (by simp [Context.buffer?, hst, hid])
    have hinvalid : x.state.validBuffer? = none := by simp [ObjectState.validBuffer?, hid]
    simp only [hinvalid, hnone]
    exact ⟨rfl, rfl⟩
  | some id =>
    obtain ⟨bytes, hbytes, hlength, hcopy⟩ := hi.exists_copy hst hid
    cases hvalid : x.state.valid with
    | false =>
      have hinvalid : x.state.validBuffer? = none := by simp [ObjectState.validBuffer?, hvalid]
      simp only [hinvalid, hcopy, hvalid]
      exact ⟨rfl, rfl⟩
    | true =>
      have hbuffer : x.state.validBuffer? = some id := by simp [ObjectState.validBuffer?, hvalid, hid]
      simp only [hbuffer, hcopy, hvalid, ← hlength]
      by_cases hsize : bytes.length < size
      case pos =>
        simp only [if_pos hsize, if_pos (Or.inl hsize)]
        intro event hevent
        cases hevent
      case neg =>
        rw [if_neg hsize]
        refine (readBack_world hi hbytes (Nat.le_of_not_lt hsize) hready x.object.handle p.offset
          blocking).bind (fun e t h => ?_) fun e t h => ?_
        case refine_2 =>
          split at h
          case isTrue hhost =>
            rw [if_pos (Or.inr hhost)]
            intro event hevent
            cases hevent
          case isFalse =>
            obtain ⟨_, _, _, herror, _⟩ := h
            cases herror
        case refine_1 =>
          obtain ⟨counters, hcount⟩ := count_apply m (·.countOut size) t
          refine Action.Ends.bind_of_ok hcount ?_
          split at h
          case isTrue hhost =>
            rw [if_pos (Or.inr hhost)]
            obtain ⟨rfl, hstatus⟩ := h e rfl
            intro event hevent
            cases hevent
            exact ⟨e, rfl, hstatus⟩
          case isFalse hhost =>
            rw [if_neg (not_or.mpr ⟨hsize, hhost⟩)]
            obtain ⟨hintact, hworld, _, he, hstatus⟩ := h
            cases he
            cases blocking with
            | true =>
              refine ⟨(hintact.counters counters).registry _, ?_, none, rfl, fun e' he' => by cases he'⟩
              have hcopies := congrArg World.copies hworld
              refine World.ext ?_ hcopies
              rw [← hworld]
              exact funext fun k => Registry.bytes_setOwner _ _ k _ _
            | false =>
              refine ⟨hintact.counters counters, hworld, some e, rfl, fun e' he' => ?_⟩
              cases he'
              exact hstatus

end Machine
end Offload
