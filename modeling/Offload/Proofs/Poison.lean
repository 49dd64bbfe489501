import Mathlib.Logic.Relation
import Offload.Proofs.Mirrors
import Offload.Proofs.Requests

/-!
What a failure spreads to, and what it leaves alone. A command does well if what it waits for does and its own
body does; whoever waits for a failed event fails without having done anything, and so does whoever waits for
that one.
-/

namespace Offload

-- What a request makes the device do if its wait list allows it: how that would end, and the memory it would
-- leave.
structure Body where
  wait   : List EventId
  fault  : Option CommandFault
  memory : Memory

namespace Platform

abbrev device (place : Nat) (p : Platform) : Device :=
  (p.channel place).device

end Platform

namespace Request

def writeBody (m : Memory) (id : BufferId) (data : Bytes) (wait : List EventId) : Body :=
  match m.write id data with
  | .ok m' => { wait, fault := none, memory := m' }
  | .error fault => { wait, fault := some fault, memory := m }

def readBody (m : Memory) (id : BufferId) (hostSize offset length : Nat) (wait : List EventId) : Body :=
  match m.read id hostSize offset length with
  | .ok _ => { wait, fault := none, memory := m }
  | .error fault => { wait, fault := some fault, memory := m }

-- Requests for memory are no commands, and neither is a launch of a kernel that is not installed.
def body? (place : Nat) (p : Platform) : Request → Option Body
  | .write id data wait _ => some (writeBody (p.device place).memory id data wait)
  | .read id object offset length wait _ =>
    some (readBody (p.device place).memory id (p.registry.byteLength object) offset length wait)
  | .launch kernel arguments geometry wait =>
    (p.device place).kernels[kernel]?.map fun (_, code) =>
      { wait
        fault := ((p.device place).memory.run code arguments geometry).1
        memory := ((p.device place).memory.run code arguments geometry).2 }
  | .barrier wait | .marker wait => some { wait, fault := none, memory := (p.device place).memory }
  | .allocate _ | .release _ => none

-- The buffers that a kernel is run on.
def arguments? : Request → Option (List BufferId)
  | .launch _ arguments _ _ => some arguments
  | _ => none

-- Nothing but a kernel that fails leaves anything behind.
theorem memory_of_fault {place : Nat} {p : Platform} {request : Request} {b : Body}
    (hb : request.body? place p = some b) (hlaunch : request.arguments? = none) (hfault : b.fault ≠ none) :
    b.memory = (p.device place).memory := by
  cases request with
  | write id data wait blocking =>
    cases hb
    unfold writeBody at hfault ⊢
    cases hwrite : (p.device place).memory.write id data with
    | ok m' => rw [hwrite] at hfault; exact absurd rfl hfault
    | error fault => rfl
  | read id object offset length wait blocking =>
    cases hb
    unfold readBody
    cases (p.device place).memory.read id (p.registry.byteLength object) offset length <;> rfl
  | launch => cases hlaunch
  | barrier | marker => cases hb; exact absurd rfl hfault
  | allocate | release => cases hb

end Request

-- The length of a buffer is the size that it is accounted for with.
theorem Memory.Orderly.length_contents? {m : Memory} (h : m.Orderly) (id : BufferId) :
    (m.contents? id).map List.length = (m.live.find? (·.1 = id)).map Prod.snd := by
  rw [contents?, live, List.find?_map, Option.map_map, Option.map_map]
  change (m.buffer? id).map _ = (m.buffer? id).map _
  cases hb : m.buffer? id with
  | none => rfl
  | some b => exact congrArg some (h.bytes b (List.mem_of_find?_eq_some hb))

namespace Device

variable {α : Type} {d d' : Device} {e : EventId} {wait : List EventId}

-- An event that failed, or that nobody knows.
def Broken (d : Device) (e : EventId) : Prop :=
  d.status? e = none ∨ ∃ fault, d.status? e = some (.failed fault)

theorem Past.broken_iff (h : d.Past) : d.Broken e ↔ d.status? e ≠ some .complete := by
  unfold Broken
  cases hstatus : d.status? e with
  | none => simp
  | some status =>
    have hdone := (h _ (mem_of_status? hstatus)).2
    cases status with
    | queued | running => cases hdone
    | complete | failed => simp

theorem Past.waitFault_eq_none_iff (h : d.Past) {own : EventId} :
    d.waitFault own wait = none ↔ ∀ w ∈ wait, w ≠ own → ¬d.Broken w := by
  simp [waitFault, blocks, h.broken_iff]

theorem Past.broken_of_waitFault (h : d.Past) {own : EventId} {fault : CommandFault}
    (hfault : d.waitFault own wait = some fault) :
    ∃ w ∈ wait, w ≠ own ∧ d.Broken w ∧ fault = .dependency w.number := by
  obtain ⟨w, hfind, rfl⟩ := Option.map_eq_some_iff.mp hfault
  have hblocks := List.find?_some hfind
  simp only [blocks, Bool.and_eq_true, decide_eq_true_eq] at hblocks
  exact ⟨w, List.mem_of_find?_eq_some hfind, hblocks.1, h.broken_iff.mpr hblocks.2, rfl⟩

-- What fails in the end was broken all along.
theorem Onward.broken (h : d.Onward d') (hp : d.Past) {fault : CommandFault}
    (he : d'.status? e = some (.failed fault)) : d.Broken e := by
  refine hp.broken_iff.mpr fun hcomplete => ?_
  rw [h.status?_eq hp hcomplete] at he
  cases he

-- The device after a command, which its wait list stopped or not.
def after (d : Device) (b : Body) : Device :=
  match d.waitFault ⟨d.nextEvent⟩ b.wait with
  | some fault => d.record (some fault) d.memory
  | none => d.record b.fault b.memory

theorem status?_after (d : Device) (b : Body) : (d.after b).status? ⟨d.nextEvent⟩ =
    some (match (d.waitFault ⟨d.nextEvent⟩ b.wait).or b.fault with
      | none => .complete
      | some fault => .failed fault) := by
  unfold after
  cases d.waitFault ⟨d.nextEvent⟩ b.wait with
  | some fault => exact status?_record d (some fault) d.memory
  | none => exact status?_record d b.fault b.memory

theorem onward_after (d : Device) (b : Body) : d.Onward (d.after b) := by
  unfold after
  cases d.waitFault ⟨d.nextEvent⟩ b.wait with
  | some fault => exact onward_record d (some fault) d.memory
  | none => exact onward_record d b.fault b.memory

-- Whoever gets something had nothing to wait for in vain.
theorem perform_ready {body : Memory → Except CommandFault α × Memory} {blocking : Bool} {a : α}
    (h : perform wait blocking body d = (.ok (e, some a), d')) : d.waitFault ⟨d.nextEvent⟩ wait = none := by
  cases hwait : d.waitFault ⟨d.nextEvent⟩ wait with
  | none => rfl
  | some fault =>
    unfold perform at h
    rw [Action.bind_of_ok (Action.get_apply d), submit_blocked hwait] at h
    cases blocking <;> cases h

theorem perform_device (wait : List EventId) (blocking : Bool)
    (body : Memory → Except CommandFault α × Memory) (d : Device) :
    (perform wait blocking body d).2 = d.after
      { wait
        fault := match (body d.memory).1 with
          | .ok _ => none
          | .error fault => some fault
        memory := (body d.memory).2 } := by
  have hsubmit : (submit wait body d).2.2 = d.after
      { wait
        fault := match (body d.memory).1 with
          | .ok _ => none
          | .error fault => some fault
        memory := (body d.memory).2 } := by
    unfold after
    cases hwait : d.waitFault ⟨d.nextEvent⟩ wait with
    | some fault => rw [submit_blocked hwait]
    | none =>
      rcases hbody : body d.memory with ⟨fault | a, memory⟩
      case error => rw [submit_failed hwait hbody]
      case ok => rw [submit_ok hwait hbody]
  rw [← hsubmit]
  unfold perform
  rw [Action.bind_of_ok (Action.get_apply d)]
  generalize submit wait body d = submitted
  obtain ⟨own, outcome, d'⟩ := submitted
  cases outcome with
  | ok a => rfl
  | error fault => cases blocking <;> rfl

end Device

namespace Platform

variable {p q : Platform} {place : Nat} {request : Request} {b : Body} {e f w : EventId}

theorem device_onChannel {α : Type} (hplace : place < p.channels.length) (act : Action Channel α) :
    (onChannel place act p).2.device place = (act (p.channel place)).2.device := by
  rw [device, channel_onChannel hplace]

-- A command is recorded, whether it ran or not.
theorem serve_of_body (hplace : place < p.channels.length) (hb : request.body? place p = some b) :
    (p.serve place request).device place = (p.device place).after b := by
  cases request with
  | allocate | release => cases hb
  | write id data wait blocking =>
    cases hb
    refine (device_onChannel hplace _).trans ?_
    change (Device.write id data wait blocking (p.device place)).2 = _
    unfold Device.write
    rw [Action.snd_bind_pure, Device.perform_device, Request.writeBody]
    cases (p.device place).memory.write id data <;> rfl
  | read id object offset length wait blocking =>
    cases hb
    rw [serve, device, channel_readBack]
    refine (device_onChannel hplace _).trans ?_
    change (Device.read id _ offset length wait blocking (p.device place)).2 = _
    unfold Device.read
    rw [Device.perform_device, Request.readBody]
    cases (p.device place).memory.read id (p.registry.byteLength object) offset length <;> rfl
  | launch kernel arguments geometry wait =>
    obtain ⟨⟨name, code⟩, hcode, rfl⟩ := Option.map_eq_some_iff.mp hb
    refine (device_onChannel hplace _).trans ?_
    change (Device.launch kernel arguments geometry wait (p.device place)).2 = _
    unfold Device.launch
    rw [Action.bind_of_ok (Action.get_apply _), hcode]
    dsimp only
    rw [Action.snd_bind_pure, Device.perform_device]
    rcases (p.device place).memory.run code arguments geometry with ⟨_ | fault, memory⟩ <;> rfl
  | barrier wait | marker wait =>
    cases hb
    refine (device_onChannel hplace _).trans ?_
    change (Device.barrier wait (p.device place)).2 = _
    unfold Device.barrier
    rw [Action.snd_bind_pure, Device.perform_device]

-- What is no command leaves the events alone.
theorem serve_of_none (hplace : place < p.channels.length) (hb : request.body? place p = none) :
    (p.device place).Onward ((p.serve place request).device place) := by
  cases request with
  | write | read | barrier | marker => cases hb
  | allocate size =>
    rw [serve, device_onChannel hplace]
    exact (Device.idle_allocate size _).onward
  | release id =>
    rw [serve, device_onChannel hplace]
    exact (Device.idle_release id _).onward
  | launch kernel arguments geometry wait =>
    rw [serve, device_onChannel hplace]
    exact (Device.still_launch kernel arguments geometry wait _).onward

theorem serve_onward (hplace : place < p.channels.length) (request : Request) :
    (p.device place).Onward ((p.serve place request).device place) := by
  cases hb : request.body? place p with
  | none => exact serve_of_none hplace hb
  | some b =>
    rw [serve_of_body hplace hb]
    exact Device.onward_after _ b

theorem length_serveAll (p : Platform) (requests : List Request) :
    (p.serveAll place requests).channels.length = p.channels.length := by
  unfold serveAll
  induction requests generalizing p with
  | nil => rfl
  | cons request requests ih => exact (ih (p.serve place request)).trans (p.length_serve request)

theorem serveAll_onward (hplace : place < p.channels.length) (requests : List Request) :
    (p.device place).Onward ((p.serveAll place requests).device place) := by
  unfold serveAll
  induction requests generalizing p with
  | nil => exact Device.onward_lasting.refl _
  | cons request requests ih =>
    exact Device.onward_lasting.trans (serve_onward hplace request)
      (ih (Nat.lt_of_lt_of_eq hplace (p.length_serve request).symm))

-- No byte of a buffer changed, and none of the host.
structure Untouched (place : Nat) (p q : Platform) : Prop where
  memory   : (q.device place).memory = (p.device place).memory
  registry : q.registry = p.registry

-- The command failed for an event that it waits for, and that is all that happened.
structure Skips (place : Nat) (p : Platform) (request : Request) (w : EventId) : Prop where
  device   : (p.serve place request).device place =
    (p.device place).record (some (.dependency w.number)) (p.device place).memory
  registry : (p.serve place request).registry = p.registry

theorem Skips.untouched (h : p.Skips place request w) : p.Untouched place (p.serve place request) :=
  ⟨by rw [h.device]; rfl, h.registry⟩

-- Only a read that did well changes host bytes.
theorem registry_serve (hb : request.body? place p = some b)
    (hfailed : ((p.device place).waitFault ⟨(p.device place).nextEvent⟩ b.wait).or b.fault ≠ none) :
    (p.serve place request).registry = p.registry := by
  cases request with
  | read id object offset length wait blocking =>
    cases hb
    rw [serve]
    rcases hread : Channel.read id (p.registry.byteLength object) offset length wait blocking
      (p.channel place) with ⟨e | ⟨e, data⟩, c⟩
    case error => rw [readBack_of_error hread]; rfl
    case ok =>
      cases data with
      | none => rw [readBack_of_none hread]; rfl
      | some data =>
        have hcall : Device.read id (p.registry.byteLength object) offset length wait blocking
            (p.device place) = (.ok (e, some data), c.device) := by
          rw [Channel.read, Channel.noting_apply] at hread
          obtain ⟨hresult, rfl⟩ := Prod.mk.inj hread
          exact Prod.ext hresult rfl
        have hready : (p.device place).waitFault ⟨(p.device place).nextEvent⟩ wait = none :=
          Device.perform_ready hcall
        have hok : (p.device place).memory.read id (p.registry.byteLength object) offset length =
            .ok data := Device.perform_some hcall
        exact absurd (by rw [Request.readBody, hok, hready]; rfl) hfailed
  | _ => rfl

theorem skips_of_waitFault (hplace : place < p.channels.length) (hb : request.body? place p = some b)
    (hfault : (p.device place).waitFault ⟨(p.device place).nextEvent⟩ b.wait =
      some (.dependency w.number)) : p.Skips place request w := by
  refine ⟨?_, registry_serve hb (by rw [hfault]; exact nofun)⟩
  rw [serve_of_body hplace hb, Device.after, hfault]

-- Buffers that a command is not about are left as they are, and none changes its length.
structure Spared (place : Nat) (arguments : List BufferId) (p q : Platform) : Prop where
  registry : q.registry = p.registry
  live     : (q.device place).memory.live = (p.device place).memory.live
  lengths  : ∀ id, ((q.device place).memory.contents? id).map List.length =
    ((p.device place).memory.contents? id).map List.length
  others   : ∀ id ∉ arguments, (q.device place).memory.contents? id = (p.device place).memory.contents? id

theorem launch_spared (hplace : place < p.channels.length) (horderly : (p.device place).memory.Orderly)
    {arguments : List BufferId} (hlaunch : request.arguments? = some arguments) :
    p.Spared place arguments (p.serve place request) := by
  cases request with
  | launch kernel ids geometry wait =>
    cases hlaunch
    have hdevice : (p.serve place (.launch kernel arguments geometry wait)).device place =
        (Device.launch kernel arguments geometry wait (p.device place)).2 := device_onChannel hplace _
    have halike : Memory.Alike _ _ := (Device.still_launch kernel arguments geometry wait (p.device place)).alike
    refine ⟨rfl, by rw [hdevice]; exact halike.live, fun id => ?_, fun id hid => ?_⟩
    case refine_1 =>
      rw [hdevice, (halike.orderly horderly).length_contents?, horderly.length_contents?, halike.live]
    case refine_2 =>
      rw [hdevice]
      exact Device.launch_keeps (f := (·.contents? id)) (fun m code => m.contents?_run hid code geometry) kernel
        wait _
  | _ => cases hlaunch

-- A command among others: what it was given to, what it would do, and its event.
structure Given (place : Nat) (p : Platform) (requests : List Request) (q : Platform) (request : Request)
    (b : Body) (e : EventId) : Prop where
  among : ∃ before after, requests = before ++ request :: after ∧ p.serveAll place before = q
  body  : request.body? place q = some b
  event : e = ⟨(q.device place).nextEvent⟩

-- The command with the first event has the second one on its wait list.
def Waits (place : Nat) (p : Platform) (requests : List Request) (e w : EventId) : Prop :=
  ∃ q request b, p.Given place requests q request b e ∧ w ∈ b.wait

-- The command failed for an event on its wait list that was broken by then, and did nothing else.
def Foils (place : Nat) (q last : Platform) (request : Request) (b : Body) (e : EventId) : Prop :=
  ∃ w ∈ b.wait, w ≠ e ∧ (q.device place).Broken w ∧ q.Skips place request w ∧
    (last.device place).status? e = some (.failed (.dependency w.number))

-- What became of a command in the end, and what it did when it ran or did not run.
structure Contained (place : Nat) (q last : Platform) (request : Request) (b : Body) (e : EventId) : Prop where
  complete : (last.device place).status? e = some .complete ↔
    (∀ w ∈ b.wait, w ≠ e → ¬(q.device place).Broken w) ∧ b.fault = none
  skipped  : (∃ w ∈ b.wait, w ≠ e ∧ (q.device place).Broken w) → q.Untouched place (q.serve place request)
  failed   : request.arguments? = none → (last.device place).status? e ≠ some .complete →
    q.Untouched place (q.serve place request)
  launched : ∀ arguments, request.arguments? = some arguments →
    q.Spared place arguments (q.serve place request)

section

variable {requests : List Request}

theorem Given.place_lt (h : p.Given place requests q request b e) (hplace : place < p.channels.length) :
    place < q.channels.length := by
  obtain ⟨before, _, _, rfl⟩ := h.among
  rwa [length_serveAll]

theorem Given.past (h : p.Given place requests q request b e) (hplace : place < p.channels.length)
    (hunused : (p.channel place).Unused) : (q.device place).Past := by
  obtain ⟨before, _, _, rfl⟩ := h.among
  refine (serveAll_onward hplace before).past fun x hx => ?_
  rw [device, hunused.events] at hx
  cases hx

theorem Given.orderly (h : p.Given place requests q request b e) (hplace : place < p.channels.length)
    (hunused : (p.channel place).Unused) : (q.device place).memory.Orderly := by
  obtain ⟨before, _, _, rfl⟩ := h.among
  exact (serveAll_kempt hplace hunused.kempt before).orderly

-- From when it was given to the end of it all.
theorem Given.onward (h : p.Given place requests q request b e) (hplace : place < p.channels.length) :
    ((q.device place).after b).Onward ((p.serveAll place requests).device place) := by
  have hlt := h.place_lt hplace
  obtain ⟨before, after, rfl, rfl⟩ := h.among
  have hall : p.serveAll place (before ++ request :: after) =
      ((p.serveAll place before).serve place request).serveAll place after := by simp [serveAll]
  rw [hall, ← serve_of_body hlt h.body]
  exact serveAll_onward (Nat.lt_of_lt_of_eq hlt (length_serve _ request).symm) after

-- How a command ended, it ended for good.
theorem Given.status?_eq (h : p.Given place requests q request b e) (hplace : place < p.channels.length)
    (hunused : (p.channel place).Unused) : ((p.serveAll place requests).device place).status? e =
      some (match ((q.device place).waitFault e b.wait).or b.fault with
        | none => .complete
        | some fault => .failed fault) := by
  refine (h.onward hplace).status?_eq ((Device.onward_after _ b).past (h.past hplace hunused)) ?_
  rw [h.event]
  exact Device.status?_after _ b

theorem Given.complete_iff (h : p.Given place requests q request b e) (hplace : place < p.channels.length)
    (hunused : (p.channel place).Unused) :
    ((p.serveAll place requests).device place).status? e = some .complete ↔
      (∀ w ∈ b.wait, w ≠ e → ¬(q.device place).Broken w) ∧ b.fault = none := by
  rw [h.status?_eq hplace hunused, ← (h.past hplace hunused).waitFault_eq_none_iff, ← Option.or_eq_none_iff]
  cases ((q.device place).waitFault e b.wait).or b.fault <;> simp

-- Whoever waits for an event that is broken fails for one that is, and does nothing.
theorem Given.skips (h : p.Given place requests q request b e) (hplace : place < p.channels.length)
    (hunused : (p.channel place).Unused) (hw : w ∈ b.wait) (hne : w ≠ e) (hbroken : (q.device place).Broken w) :
    Foils place q (p.serveAll place requests) request b e := by
  have hpast := h.past hplace hunused
  cases hfault : (q.device place).waitFault e b.wait with
  | none => exact absurd hbroken (hpast.waitFault_eq_none_iff.mp hfault w hw hne)
  | some fault =>
    obtain ⟨w, hw, hne, hbroken, rfl⟩ := hpast.broken_of_waitFault hfault
    refine ⟨w, hw, hne, hbroken, skips_of_waitFault (h.place_lt hplace) h.body (h.event ▸ hfault), ?_⟩
    rw [h.status?_eq hplace hunused, hfault]
    rfl

theorem Given.contained (h : p.Given place requests q request b e) (hplace : place < p.channels.length)
    (hunused : (p.channel place).Unused) : Contained place q (p.serveAll place requests) request b e where
  complete := h.complete_iff hplace hunused
  skipped := fun ⟨_, hw, hne, hbroken⟩ =>
    have ⟨_, _, _, _, hskips, _⟩ := h.skips hplace hunused hw hne hbroken
    hskips.untouched
  failed hlaunch hfailed := by
    have hfault : ((q.device place).waitFault ⟨(q.device place).nextEvent⟩ b.wait).or b.fault ≠ none := by
      intro hnone
      rw [h.status?_eq hplace hunused, h.event, hnone] at hfailed
      exact hfailed rfl
    refine ⟨?_, registry_serve h.body hfault⟩
    rw [serve_of_body (h.place_lt hplace) h.body]
    unfold Device.after
    cases hwait : (q.device place).waitFault ⟨(q.device place).nextEvent⟩ b.wait with
    | some fault => rfl
    | none =>
      rw [hwait] at hfault
      exact Request.memory_of_fault h.body hlaunch hfault
  launched arguments hlaunch := launch_spared (h.place_lt hplace) (h.orderly hplace hunused) hlaunch

-- An event that was waited for, and in the end failed, was broken when the command came to it.
theorem Given.skips_of_failed (h : p.Given place requests q request b e) (hplace : place < p.channels.length)
    (hunused : (p.channel place).Unused) (hw : w ∈ b.wait) (hne : w ≠ e) {fault : CommandFault}
    (hfailed : ((p.serveAll place requests).device place).status? w = some (.failed fault)) :
    Foils place q (p.serveAll place requests) request b e := by
  have honward := Device.onward_lasting.trans (Device.onward_after (q.device place) b) (h.onward hplace)
  exact h.skips hplace hunused hw hne (honward.broken (h.past hplace hunused) hfailed)

-- A failure spreads along the wait lists, whatever lies between.
theorem skips_of_waits (hplace : place < p.channels.length) (hunused : (p.channel place).Unused)
    {fault : CommandFault} (hfailed : ((p.serveAll place requests).device place).status? f = some (.failed fault))
    (hwaits : Relation.TransGen (p.Waits place requests) e f) (hne : e ≠ f) :
    ∃ q request b, p.Given place requests q request b e ∧
      Foils place q (p.serveAll place requests) request b e := by
  induction hwaits using Relation.TransGen.head_induction_on with
  | single hwait =>
    obtain ⟨q, request, b, hgiven, hw⟩ := hwait
    exact ⟨q, request, b, hgiven, hgiven.skips_of_failed hplace hunused hw (Ne.symm hne) hfailed⟩
  | @head e w hwait hrest ih =>
    -- a command that is on its own wait list hands nothing on to itself
    by_cases hown : w = e
    case pos => exact hown ▸ ih (hown ▸ hne)
    case neg =>
      obtain ⟨q, request, b, hgiven, hw⟩ := hwait
      refine ⟨q, request, b, hgiven, ?_⟩
      by_cases hend : w = f
      case pos => exact hgiven.skips_of_failed hplace hunused hw hown (hend ▸ hfailed)
      case neg =>
        obtain ⟨_, _, _, _, _, _, _, _, _, hstatus⟩ := ih hend
        exact hgiven.skips_of_failed hplace hunused hw hown hstatus

end

def once : Geometry where
  global := [1]
  group := [1]

-- A launch that breaks, a barrier that waits for it, and a write that waits for the barrier.
def chain : List Request :=
  [.allocate 1, .launch 0 [⟨1⟩] once [], .barrier [⟨1⟩], .write ⟨1⟩ [5] [⟨2⟩] false]

-- A launch that has its own event on its wait list is run all the same, and fails by itself.
def selfish : List Request :=
  [.allocate 1, .launch 0 [⟨1⟩] once [⟨1⟩]]

end Platform
end Offload
