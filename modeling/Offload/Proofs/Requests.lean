import Offload.Proofs.Custody

/-!
Requests to one device, in whatever order and however they end. The buffers that are there stay accounted for,
within the capacity. A key is given out once, and the bytes in use decide alone whether there is room for
another buffer.
-/

namespace Offload

inductive Request
  | allocate (size : Nat)
  | release (id : BufferId)
  | write (id : BufferId) (data : Bytes) (wait : List EventId) (blocking : Bool)
  | read (id : BufferId) (object : Handle) (offset length : Nat) (wait : List EventId) (blocking : Bool)
  | launch (kernel : Nat) (arguments : List BufferId) (geometry : Geometry) (wait : List EventId)
  | barrier (wait : List EventId)
  | marker (wait : List EventId)
  deriving DecidableEq

namespace Platform

-- What came of a request is in the journal of the device.
def serve (place : Nat) (p : Platform) : Request → Platform
  | .allocate size => (onChannel place (Channel.allocate size) p).2
  | .release id => (onChannel place (Channel.release id) p).2
  | .write id data wait blocking => (onChannel place (Channel.write id data wait blocking) p).2
  | .read id object offset length wait blocking => (readBack place id object offset length wait blocking p).2
  | .launch kernel arguments geometry wait =>
    (onChannel place (Channel.launch kernel arguments geometry wait) p).2
  | .barrier wait => (onChannel place (Channel.barrier wait) p).2
  | .marker wait => (onChannel place (Channel.marker wait) p).2

def serveAll (place : Nat) (p : Platform) (requests : List Request) : Platform :=
  requests.foldl (serve place) p

end Platform

theorem Memory.capacity_release (m : Memory) (id : BufferId) : (m.release id).capacity = m.capacity := by
  unfold release
  split <;> rfl

theorem Memory.release_of_not_live {m : Memory} {id : BufferId} (h : id ∉ m.live.map Prod.fst) :
    m.release id = m := by
  unfold release
  rw [buffer?_eq_none_iff.mpr h]

-- Whether it is granted or refused, what is asked for and what is in use decide.
theorem Memory.allocate_cases (m : Memory) (size : Nat) :
    (m.allocated + size ≤ m.capacity ∧ ∃ m', m.allocate size = .ok (⟨m.next⟩, m') ∧
        m'.capacity = m.capacity ∧ m'.allocated = m.allocated + size) ∨
      m.capacity < m.allocated + size ∧
        m.allocate size = .error (.memory size m.allocated m.capacity) := by
  unfold allocate
  split
  case isTrue hfull => exact .inr ⟨hfull, rfl⟩
  case isFalse hroom => exact .inl ⟨Nat.le_of_not_lt hroom, _, rfl, rfl, rfl⟩

theorem Memory.Orderly.allocated_release {m : Memory} (h : m.Orderly) (id : BufferId) :
    (m.release id).Orderly ∧ (m.release id).allocated ≤ m.allocated := by
  by_cases hlive : id ∈ m.live.map Prod.fst
  case neg => exact (release_of_not_live hlive).symm ▸ ⟨h, Nat.le_refl _⟩
  case pos =>
    obtain ⟨⟨id, size⟩, hx, rfl⟩ := List.mem_map.mp hlive
    obtain ⟨_, horderly⟩ := release_live h (List.perm_cons_erase hx)
    refine ⟨horderly, ?_⟩
    unfold release
    split
    case h_1 => exact Nat.le_refl _
    case h_2 => exact Nat.sub_le _ _

theorem Memory.capacity_run (m : Memory) (kernel : Kernel) (ids : List BufferId) (geometry : Geometry) :
    (m.run kernel ids geometry).2.capacity = m.capacity := by
  unfold run
  split <;> rfl

theorem Memory.capacity_write {m m' : Memory} {id : BufferId} {data : Bytes} (h : m.write id data = .ok m') :
    m'.capacity = m.capacity := by
  unfold write at h
  split at h
  case h_1 => cases h
  case h_2 => split at h <;> cases h; rfl

namespace Device

-- Commands leave the capacity as it is, and the number of the next buffer.
structure Steady (d d' : Device) : Prop where
  alike    : Memory.Alike d.memory d'.memory
  capacity : d'.memory.capacity = d.memory.capacity
  next     : d'.memory.next = d.memory.next

theorem steady_write (id : BufferId) (data : Bytes) (wait : List EventId) (blocking : Bool) :
    (write id data wait blocking).Keeps Steady := fun d =>
  ⟨(still_write id data wait blocking d).alike,
    write_keeps (fun _ _ h => Memory.capacity_write h) wait blocking d, next_write id data wait blocking d⟩

theorem steady_read (id : BufferId) (hostSize offset length : Nat) (wait : List EventId) (blocking : Bool) :
    (read id hostSize offset length wait blocking).Keeps Steady := fun d =>
  ⟨(still_read id hostSize offset length wait blocking d).alike,
    perform_keeps (f := Memory.capacity) (fun _ => rfl) wait blocking d,
    next_read id hostSize offset length wait blocking d⟩

theorem steady_launch (kernel : Nat) (ids : List BufferId) (geometry : Geometry) (wait : List EventId) :
    (launch kernel ids geometry wait).Keeps Steady := fun d =>
  ⟨(still_launch kernel ids geometry wait d).alike,
    launch_keeps (f := Memory.capacity) (fun m code => m.capacity_run code ids geometry) kernel wait d,
    next_launch kernel ids geometry wait d⟩

theorem steady_barrier (wait : List EventId) : (barrier wait).Keeps Steady := fun d => by
  have hmemory := (calm_barrier wait d).memory
  exact ⟨(still_barrier wait d).alike, congrArg Memory.capacity hmemory, congrArg Memory.next hmemory⟩

end Device

namespace Channel

variable {p p' : Channel} {capacity size : Nat} {id : BufferId}

-- The books of a device of its own, and that no key was given out twice.
structure Kempt (capacity : Nat) (p : Channel) : Prop where
  orderly : p.device.memory.Orderly
  bound   : p.device.memory.capacity = capacity
  within  : p.device.memory.allocated ≤ capacity
  once    : (p.journal.filterMap Call.made?).Nodup
  given   : ∀ id ∈ p.journal.filterMap Call.made?, id.number < p.device.memory.next

theorem Kempt.noting {α : Type} {note : Except Error α → Call} {call : Action Device α}
    (h : p.Kempt capacity) (hnote : ∀ r, (note r).made? = none) (hcall : call.Keeps Device.Steady) :
    (Channel.noting note call p).2.Kempt capacity := by
  have hsteady := hcall p.device
  have hmade : (Channel.noting note call p).2.journal.filterMap Call.made? = p.journal.filterMap Call.made? := by
    simp [noting_apply, hnote]
  have horderly := hsteady.alike.orderly h.orderly
  refine ⟨horderly, hsteady.capacity.trans h.bound, ?_, hmade ▸ h.once, ?_⟩
  case refine_1 =>
    have hlive : (call p.device).2.memory.live = p.device.memory.live := hsteady.alike.live
    change (call p.device).2.memory.allocated ≤ capacity
    rw [horderly.allocated, hlive, ← h.orderly.allocated]
    exact h.within
  case refine_2 =>
    have hnext : (call p.device).2.memory.next = p.device.memory.next := hsteady.next
    intro id hid
    change id.number < (call p.device).2.memory.next
    rw [hnext]
    exact h.given id (hmade ▸ hid)

theorem Kempt.release (h : p.Kempt capacity) (id : BufferId) : (release id p).2.Kempt capacity := by
  have hmade : (Channel.release id p).2.journal.filterMap Call.made? = p.journal.filterMap Call.made? := by
    simp [Channel.release, noting_apply, Call.made?]
  obtain ⟨horderly, hallocated⟩ := h.orderly.allocated_release id
  refine ⟨horderly, (p.device.memory.capacity_release id).trans h.bound, Nat.le_trans hallocated h.within,
    hmade ▸ h.once, fun other hother => ?_⟩
  have hlt := h.given other (hmade ▸ hother)
  rwa [← Memory.next_release p.device.memory id] at hlt

-- A buffer that was asked for and is there now.
structure Grants (size : Nat) (id : BufferId) (p p' : Channel) : Prop where
  unused    : id ∉ p.journal.filterMap Call.made?
  missing   : p.device.memory.contents? id = none
  zeros     : p'.device.memory.contents? id = some (Bytes.zeros size)
  live      : p'.device.memory.live = p.device.memory.live ++ [(id, size)]
  others    : ∀ other ≠ id, p'.device.memory.contents? other = p.device.memory.contents? other
  allocated : p'.device.memory.allocated = p.device.memory.allocated + size

theorem Kempt.allocate_of_room (h : p.Kempt capacity) (hroom : p.device.memory.allocated + size ≤ capacity) :
    ∃ id p', allocate size p = (.ok id, p') ∧ p.Grants size id p' ∧ p'.Kempt capacity := by
  rcases p.device.memory.allocate_cases size with ⟨_, m', hm, hcapacity, hallocated⟩ | ⟨hfull, _⟩
  case inr => exact absurd hroom (Nat.not_le_of_lt (h.bound ▸ hfull))
  case inl =>
    obtain ⟨p', hp', hdevice⟩ := allocate_of_ok (p := p) hm
    have hjournal : p'.journal = p.journal ++ [.allocate size (.ok ⟨p.device.memory.next⟩)] := by
      have hnoted : (Channel.allocate size p).2.journal =
          p.journal ++ [.allocate size (Channel.allocate size p).1] := rfl
      rwa [hp'] at hnoted
    have hmemory : p'.device.memory = m' := by rw [hdevice]
    obtain ⟨hlive, horderly⟩ := Memory.allocate_live h.orderly hm
    obtain ⟨_, hmissing, hzeros, hothers⟩ := Memory.allocate_ok h.orderly.sound hm
    obtain ⟨_, hnext⟩ := Memory.allocate_next hm
    have hunused : ⟨p.device.memory.next⟩ ∉ p.journal.filterMap Call.made? := fun hmem =>
      Nat.lt_irrefl _ (h.given _ hmem)
    have hmade : p'.journal.filterMap Call.made? =
        p.journal.filterMap Call.made? ++ [⟨p.device.memory.next⟩] := by
      simp [hjournal, Call.made?]
    refine ⟨_, p', hp', ⟨hunused, hmissing, hmemory ▸ hzeros, hmemory ▸ hlive, hmemory ▸ hothers,
      hmemory ▸ hallocated⟩, ⟨hmemory ▸ horderly, ?_, ?_, ?_, fun id hid => ?_⟩⟩
    case refine_1 => rw [hmemory, hcapacity, h.bound]
    case refine_2 => rwa [hmemory, hallocated]
    case refine_3 =>
      rw [hmade, List.nodup_append]
      refine ⟨h.once, List.nodup_singleton _, fun id hid other hother heq => hunused ?_⟩
      rw [← List.mem_singleton.mp hother, ← heq]
      exact hid
    case refine_4 =>
      rw [hmemory, hnext]
      rw [hmade] at hid
      rcases List.mem_append.mp hid with hold | hnew
      case inl => exact Nat.lt_succ_of_lt (h.given id hold)
      case inr => rw [List.mem_singleton.mp hnew]; exact Nat.lt_succ_self _

theorem Kempt.allocate_of_full (h : p.Kempt capacity) (hfull : capacity < p.device.memory.allocated + size) :
    ∃ e p', allocate size p = (.error e, p') ∧ p'.device = p.device ∧ p'.Kempt capacity := by
  rcases p.device.memory.allocate_cases size with ⟨hroom, _⟩ | ⟨_, hm⟩
  case inl => exact absurd (h.bound ▸ hroom) (Nat.not_le_of_lt hfull)
  case inr =>
    obtain ⟨p', hp', hdevice⟩ := allocate_of_error (p := p) hm
    have hjournal : p'.journal = p.journal ++ [.allocate size
        (.error (.resource p.device.index (.memory size p.device.memory.allocated p.device.memory.capacity)))] := by
      have hnoted : (Channel.allocate size p).2.journal =
          p.journal ++ [.allocate size (Channel.allocate size p).1] := rfl
      rwa [hp'] at hnoted
    have hmade : p'.journal.filterMap Call.made? = p.journal.filterMap Call.made? := by
      simp [hjournal, Call.made?]
    refine ⟨_, p', hp', hdevice, ⟨?_, ?_, ?_, hmade ▸ h.once, ?_⟩⟩
    all_goals rw [hdevice]
    case refine_1 => exact h.orderly
    case refine_2 => exact h.bound
    case refine_3 => exact h.within
    case refine_4 => rw [hmade]; exact h.given

theorem Kempt.allocate (h : p.Kempt capacity) (size : Nat) : (allocate size p).2.Kempt capacity := by
  rcases Nat.lt_or_ge capacity (p.device.memory.allocated + size) with hfull | hroom
  case inl =>
    obtain ⟨_, _, hp', _, hkempt⟩ := h.allocate_of_full hfull
    rwa [hp']
  case inr =>
    obtain ⟨_, _, hp', _, hkempt⟩ := h.allocate_of_room hroom
    rwa [hp']

-- Nobody asked anything of the device yet.
structure Unused (p : Channel) : Prop where
  buffers   : p.device.memory.buffers = []
  allocated : p.device.memory.allocated = 0
  events    : p.device.events = []
  journal   : p.journal = []

theorem Unused.kempt (h : p.Unused) : p.Kempt p.device.memory.capacity where
  orderly := Memory.orderly_of_nil h.buffers h.allocated
  bound := rfl
  within := h.allocated ▸ Nat.zero_le _
  once := h.journal ▸ List.nodup_nil
  given := h.journal ▸ nofun

-- All that can be said of the buffers of a device, of those that were there, and of the next one.
structure Accounted (capacity : Nat) (p : Channel) : Prop where
  bound     : p.device.memory.capacity = capacity
  allocated : p.device.memory.allocated = (p.device.memory.live.map Prod.snd).sum
  within    : p.device.memory.allocated ≤ capacity
  lengths   : ∀ b ∈ p.device.memory.buffers, b.bytes.length = b.size
  distinct  : (p.device.memory.live.map Prod.fst).Nodup
  once      : (p.journal.filterMap Call.made?).Nodup
  granted   : ∀ size, (∃ id p', allocate size p = (.ok id, p')) ↔ p.device.memory.allocated + size ≤ capacity
  fresh     : ∀ size id p', allocate size p = (.ok id, p') → p.Grants size id p'
  refused   : ∀ size e p', allocate size p = (.error e, p') → p'.device = p.device
  absent    : ∀ id ∉ p.device.memory.live.map Prod.fst, (release id p).2.device = p.device

theorem Kempt.accounted (h : p.Kempt capacity) : p.Accounted capacity where
  bound := h.bound
  allocated := h.orderly.allocated
  within := h.within
  lengths := h.orderly.bytes
  distinct := Memory.map_fst_live _ ▸ h.orderly.nodup
  once := h.once
  granted size := by
    constructor
    case mp =>
      rintro ⟨id, p', hp'⟩
      refine Nat.le_of_not_lt fun hfull => ?_
      obtain ⟨_, _, hp'', _⟩ := h.allocate_of_full hfull
      cases hp'.symm.trans hp''
    case mpr =>
      intro hroom
      obtain ⟨id, p', hp', _⟩ := h.allocate_of_room hroom
      exact ⟨id, p', hp'⟩
  fresh size id p' hp' := by
    rcases Nat.lt_or_ge capacity (p.device.memory.allocated + size) with hfull | hroom
    case inl =>
      obtain ⟨_, _, hp'', _⟩ := h.allocate_of_full hfull
      cases hp'.symm.trans hp''
    case inr =>
      obtain ⟨_, _, hp'', hgrants, _⟩ := h.allocate_of_room hroom
      cases hp'.symm.trans hp''
      exact hgrants
  refused size e p' hp' := by
    rcases Nat.lt_or_ge capacity (p.device.memory.allocated + size) with hfull | hroom
    case inl =>
      obtain ⟨_, _, hp'', hdevice, _⟩ := h.allocate_of_full hfull
      cases hp'.symm.trans hp''
      exact hdevice
    case inr =>
      obtain ⟨_, _, hp'', _⟩ := h.allocate_of_room hroom
      cases hp'.symm.trans hp''
  absent id hid := by
    change ({ p.device with memory := p.device.memory.release id } : Device) = p.device
    rw [Memory.release_of_not_live hid]

end Channel

namespace Platform

variable {p : Platform} {place capacity : Nat}

theorem serve_kempt (hplace : place < p.channels.length) (h : (p.channel place).Kempt capacity)
    (request : Request) : ((p.serve place request).channel place).Kempt capacity := by
  cases request with
  | allocate size => exact channel_onChannel hplace (Channel.allocate size) ▸ h.allocate size
  | release id => exact channel_onChannel hplace (Channel.release id) ▸ h.release id
  | write id data wait blocking =>
    exact channel_onChannel hplace (Channel.write id data wait blocking) ▸
      h.noting (fun _ => rfl) (Device.steady_write id data wait blocking)
  | read id object offset length wait blocking =>
    simp only [serve, channel_readBack]
    exact channel_onChannel hplace (Channel.read id _ offset length wait blocking) ▸
      h.noting (fun _ => rfl) (Device.steady_read id _ offset length wait blocking)
  | launch kernel arguments geometry wait =>
    exact channel_onChannel hplace (Channel.launch kernel arguments geometry wait) ▸
      h.noting (fun _ => rfl) (Device.steady_launch kernel arguments geometry wait)
  | barrier wait =>
    exact channel_onChannel hplace (Channel.barrier wait) ▸
      h.noting (fun _ => rfl) (Device.steady_barrier wait)
  | marker wait =>
    exact channel_onChannel hplace (Channel.marker wait) ▸
      h.noting (fun _ => rfl) (Device.steady_barrier wait)

theorem length_readBack (id : BufferId) (h : Handle) (offset length : Nat) (wait : List EventId)
    (blocking : Bool) (p : Platform) :
    (readBack place id h offset length wait blocking p).2.channels.length = p.channels.length := by
  rcases hread : Channel.read id (p.registry.byteLength h) offset length wait blocking (p.channel place) with
    ⟨e | ⟨e, data⟩, c⟩
  case error => rw [readBack_of_error hread]; exact length_setChannel p c
  case ok =>
    cases data with
    | none => rw [readBack_of_none hread]; exact length_setChannel p c
    | some data => rw [readBack_of_ok hread]; exact length_setChannel p c

theorem length_serve (p : Platform) (request : Request) :
    (p.serve place request).channels.length = p.channels.length := by
  cases request with
  | read id object offset length wait blocking => exact length_readBack ..
  | _ => exact length_setChannel _ _

theorem serveAll_kempt (hplace : place < p.channels.length) (h : (p.channel place).Kempt capacity)
    (requests : List Request) : ((p.serveAll place requests).channel place).Kempt capacity := by
  unfold serveAll
  induction requests generalizing p with
  | nil => exact h
  | cons request requests ih =>
    exact ih (Nat.lt_of_lt_of_eq hplace (p.length_serve request).symm) (serve_kempt hplace h request)

-- Room for four bytes, and a kernel that writes a byte and then breaks.
def bureau : Platform where
  registry := (({} : Registry).register (.array .byte) [0, 0]).2
  channels := [{ device := {
    limits := { computeUnits := 1 }
    threadName := "queue"
    memory := { capacity := 4 }
    kernels := [("break", fun _ => { writes := [(0, [9])], fault := some .crashed })] } }]

-- Too much is asked for, and what is not there is given back; a launch takes one buffer twice, and another
-- one that never was.
def rush : List Request :=
  [.allocate 2, .allocate 3, .release ⟨1⟩, .release ⟨1⟩, .release ⟨7⟩, .allocate 3,
    .write ⟨2⟩ [1, 2] [] false, .launch 0 [⟨2⟩, ⟨2⟩] { global := [1], group := [1] } [],
    .launch 0 [⟨2⟩, ⟨5⟩] { global := [1], group := [1] } [], .read ⟨2⟩ ⟨1⟩ 0 2 [] true, .marker [⟨2⟩],
    .barrier [⟨1⟩]]

theorem bureau_unused : (bureau.channel 0).Unused :=
  ⟨rfl, rfl, rfl, rfl⟩

end Platform
end Offload
