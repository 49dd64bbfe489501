import Mathlib.Algebra.Order.BigOperators.Group.List
import Mathlib.Data.Option.Basic
import Offload.Proofs.Landing
import Offload.Proofs.Numbering
import Offload.Proofs.Requests

/-!
Devices that are alike for one of their users: for the buffers and events that he has on both of them. What
others have on the first one is an extra that only takes room. Every call that he makes on both goes the same
way, unless the first device has no room for what the second one would grant.
-/

namespace Offload

-- A body that ends well in both runs gives the same, and one that fails fails alike.
inductive CommandFault.Verdict {α : Type} (ν : Numbering) : Except CommandFault α → Except CommandFault α → Prop
  | ok (a : α) : Verdict ν (.ok a) (.ok a)
  | error {fault fault' : CommandFault} (h : fault.Matches ν fault') : Verdict ν (.error fault) (.error fault')

namespace Numbering

variable {ν ν' : Numbering} {events events' : List EventId}

abbrev Buffer (ν : Numbering) (id id' : BufferId) : Prop :=
  (id, id') ∈ ν.buffers

abbrev Event (ν : Numbering) (e e' : EventId) : Prop :=
  (e, e') ∈ ν.events

theorem Within.forall_events (hν : ν.Within ν') (h : List.Forall₂ ν.Event events events') :
    List.Forall₂ ν'.Event events events' :=
  h.imp fun _ _ hpair => hν.events hpair

theorem Within.option_buffer (hν : ν.Within ν') {id id' : Option BufferId} (h : Option.Rel ν.Buffer id id') :
    Option.Rel ν'.Buffer id id' := by
  cases h with
  | none => exact .none
  | some hpair => exact .some (hν.buffers hpair)

theorem Within.option_event (hν : ν.Within ν') {e e' : Option EventId} (h : Option.Rel ν.Event e e') :
    Option.Rel ν'.Event e e' := by
  cases h with
  | none => exact .none
  | some hpair => exact .some (hν.events hpair)

end Numbering

namespace Memory

variable {m m' m₁ m₁' : Memory} {ν ν' : Numbering} {extra : Nat} {id id' : BufferId} {ids ids' : List BufferId}
  {size : Nat}

structure Twin (extra : Nat) (ν : Numbering) (m m' : Memory) : Prop where
  capacity  : m.capacity = m'.capacity
  allocated : m.allocated = m'.allocated + extra
  orderly   : m.Orderly
  orderly'  : m'.Orderly
  made      : ∀ x ∈ ν.buffers, x.1.number < m.next ∧ x.2.number < m'.next
  contents  : ∀ x ∈ ν.buffers, m.contents? x.1 = m'.contents? x.2

-- The events have nothing to do with it.
theorem Twin.congr (h : Twin extra ν m m') (hbuffers : ν'.buffers = ν.buffers) : Twin extra ν' m m' :=
  { h with made := hbuffers ▸ h.made, contents := hbuffers ▸ h.contents }

theorem contents?_release_self (m : Memory) (id : BufferId) : (m.release id).contents? id = none := by
  have hnone : (m.release id).buffer? id = none := by
    rw [buffer?_eq_none_iff, map_fst_live_release]
    simp
  rw [contents?, hnone, Option.map_none]

theorem Orderly.length_of_buffer? (h : m.Orderly) {b : Offload.Buffer} (hb : m.buffer? id = some b) :
    b.bytes.length = b.size :=
  h.bytes b (List.mem_of_find?_eq_some hb)

-- The bytes that a buffer takes of the capacity.
def room (m : Memory) (id : BufferId) : Nat :=
  ((m.contents? id).map List.length).getD 0

theorem Orderly.allocated_release_eq (h : m.Orderly) (id : BufferId) :
    (m.release id).allocated = m.allocated - m.room id := by
  unfold release room contents?
  split
  case h_1 hnone => simp [hnone]
  case h_2 b hb => simp [hb, h.length_of_buffer? hb]

theorem Orderly.room_le (h : m.Orderly) (id : BufferId) : m.room id ≤ m.allocated := by
  unfold room contents?
  cases hb : m.buffer? id with
  | none => exact Nat.zero_le _
  | some b =>
    have hmem : b.size ∈ m.live.map Prod.snd :=
      List.mem_map.mpr ⟨(b.id, b.size), List.mem_map.mpr ⟨b, List.mem_of_find?_eq_some hb, rfl⟩, rfl⟩
    simpa [h.length_of_buffer? hb, h.allocated] using List.le_sum_of_mem hmem

theorem next_allocate (h : m.allocate size = .ok (id, m')) : m'.next = m.next + 1 := by
  unfold allocate at h
  split at h <;> cases h
  rfl

namespace Twin

theorem allocate (h : Twin extra ν m m') (size : Nat) :
    (∃ m₁ m₁', m.allocate size = .ok (⟨m.next⟩, m₁) ∧ m'.allocate size = .ok (⟨m'.next⟩, m₁') ∧
      Twin extra (ν.addBuffer ⟨m.next⟩ ⟨m'.next⟩) m₁ m₁') ∨
      ∃ cause, m.allocate size = .error cause ∧ (0 < extra ∨ m'.allocate size = .error cause) := by
  have hallocated := h.allocated
  have hcapacity := h.capacity
  rcases m.allocate_cases size with ⟨hroom, m₁, hm, hm₁, hm₂⟩ | ⟨hfull, hm⟩
  case inr =>
    refine .inr ⟨_, hm, ?_⟩
    rcases Nat.eq_zero_or_pos extra with rfl | hextra
    case inr => exact .inl hextra
    case inl =>
      rcases m'.allocate_cases size with ⟨hroom, _⟩ | ⟨_, hm'⟩
      case inl => omega
      case inr => exact .inr (by rw [hm', hallocated, hcapacity, Nat.add_zero])
  case inl =>
    rcases m'.allocate_cases size with ⟨_, m₁', hm', hm₁', hm₂'⟩ | ⟨hfull, _⟩
    case inr => omega
    case inl =>
      refine .inl ⟨m₁, m₁', hm, hm', ?_⟩
      obtain ⟨hsound, _, hzeros, hframe⟩ := allocate_ok h.orderly.sound hm
      obtain ⟨hsound', _, hzeros', hframe'⟩ := allocate_ok h.orderly'.sound hm'
      have hnext := next_allocate hm
      have hnext' := next_allocate hm'
      refine ⟨by omega, by omega, (allocate_live h.orderly hm).2, (allocate_live h.orderly' hm').2,
        List.forall_mem_cons.mpr ⟨⟨hnext ▸ Nat.lt_succ_self _, hnext' ▸ Nat.lt_succ_self _⟩, fun x hx => ?_⟩,
        List.forall_mem_cons.mpr ⟨hzeros.trans hzeros'.symm, fun x hx => ?_⟩⟩
      case refine_1 => have hmade := h.made x hx; omega
      case refine_2 =>
        obtain ⟨hlt, hlt'⟩ := h.made x hx
        rw [hframe x.1 fun heq => by rw [heq] at hlt; exact Nat.lt_irrefl _ hlt,
          hframe' x.2 fun heq => by rw [heq] at hlt'; exact Nat.lt_irrefl _ hlt', h.contents x hx]

theorem release (h : Twin extra ν m m') (hν : ν.OneToOne) (hid : ν.Buffer id id') :
    Twin extra ν (m.release id) (m'.release id') := by
  have hroom : m.room id = m'.room id' := by rw [room, room, h.contents _ hid]
  have hle := h.orderly'.room_le id'
  have hallocated := h.allocated
  refine ⟨?_, ?_, (h.orderly.allocated_release id).1, (h.orderly'.allocated_release id').1, ?_, ?_⟩
  case refine_1 => rw [capacity_release, capacity_release, h.capacity]
  case refine_2 =>
    rw [h.orderly.allocated_release_eq, h.orderly'.allocated_release_eq]
    omega
  case refine_3 =>
    rw [next_release, next_release]
    exact h.made
  case refine_4 =>
    intro x hx
    have hiff := hν.buffers x hx _ hid
    by_cases heq : x.1 = id
    case pos =>
      have heq' : x.2 = id' := hiff.mp heq
      rw [heq, heq', contents?_release_self, contents?_release_self]
    case neg =>
      have hne' : x.2 ≠ id' := fun heq' => heq (hiff.mpr heq')
      rw [(release_frame m id).2 _ heq, (release_frame m' id').2 _ hne', h.contents x hx]

-- What a command writes does not change where the buffers are, nor how long they are.
theorem mapBytes (h : Twin extra ν m m') {f f' : Offload.Buffer → Bytes} (ho : (m.mapBytes f).Orderly)
    (ho' : (m'.mapBytes f').Orderly)
    (hcontents : ∀ x ∈ ν.buffers, (m.mapBytes f).contents? x.1 = (m'.mapBytes f').contents? x.2) :
    Twin extra ν (m.mapBytes f) (m'.mapBytes f') :=
  ⟨h.capacity, h.allocated, ho, ho', h.made, hcontents⟩

-- Either both runs have the buffer, with the same in it, or neither.
theorem buffer? (h : Twin extra ν m m') (hid : ν.Buffer id id') :
    (m.buffer? id = none ∧ m'.buffer? id' = none) ∨ ∃ b b', m.buffer? id = some b ∧
      m'.buffer? id' = some b' ∧ b'.bytes = b.bytes ∧ b.id = id ∧ b'.id = id' := by
  have hcontents := h.contents _ hid
  unfold contents? at hcontents
  cases hb : m.buffer? id with
  | none =>
    rw [hb, Option.map_none, eq_comm, Option.map_eq_none_iff] at hcontents
    exact .inl ⟨rfl, hcontents⟩
  | some b =>
    rw [hb, Option.map_some, eq_comm, Option.map_eq_some_iff] at hcontents
    obtain ⟨b', hb', hsame⟩ := hcontents
    exact .inr ⟨b, b', rfl, hb', hsame, id_of_buffer? hb, id_of_buffer? hb'⟩

theorem write (h : Twin extra ν m m') (hν : ν.OneToOne) (hid : ν.Buffer id id') (data : Bytes) :
    (∃ m₁ m₁', m.write id data = .ok m₁ ∧ m'.write id' data = .ok m₁' ∧ Twin extra ν m₁ m₁') ∨
      ∃ fault fault', m.write id data = .error fault ∧ m'.write id' data = .error fault' ∧
        fault.Matches ν fault' := by
  rcases h.buffer? hid with ⟨hb, hb'⟩ | ⟨b, b', hb, hb', hsame, -, -⟩
  case inl =>
    exact .inr ⟨_, _, by rw [Memory.write, hb]; rfl, by rw [Memory.write, hb']; rfl, .writeUnknown hid⟩
  case inr =>
    by_cases hfit : b.bytes.length < data.length
    case pos =>
      exact .inr ⟨_, _, by simp only [Memory.write, hb, if_pos hfit]; rfl,
        by simp only [Memory.write, hb', hsame, if_pos hfit]; rfl, .writeOverflow _ _ hid⟩
    case neg =>
      have hm : m.write id data =
          .ok (m.mapBytes fun b => if b.id = id then Bytes.overlay data b.bytes else b.bytes) := by
        simp only [Memory.write, hb, if_neg hfit]
        rfl
      have hm' : m'.write id' data =
          .ok (m'.mapBytes fun b => if b.id = id' then Bytes.overlay data b.bytes else b.bytes) := by
        simp only [Memory.write, hb', hsame, if_neg hfit]
        rfl
      refine .inl ⟨_, _, hm, hm', h.mapBytes ((write_alike hm).orderly h.orderly)
        ((write_alike hm').orderly h.orderly') fun x hx => ?_⟩
      rw [contents?_mapBytes, contents?_mapBytes]
      rcases h.buffer? hx with ⟨hy, hy'⟩ | ⟨y, y', hy, hy', hbytes, hkey, hkey'⟩
      case inl => rw [hy, hy']; rfl
      case inr => simp only [hy, hy', Option.map_some, hbytes, hkey, hkey', hν.buffers x hx _ hid]

theorem read (h : Twin extra ν m m') (hid : ν.Buffer id id') (hostSize offset length : Nat) :
    CommandFault.Verdict ν (m.read id hostSize offset length) (m'.read id' hostSize offset length) := by
  unfold Memory.read
  rcases h.buffer? hid with ⟨hb, hb'⟩ | ⟨b, b', hb, hb', hsame, -, -⟩
  case inl =>
    rw [hb, hb']
    exact .error (.readUnknown hid)
  case inr =>
    simp only [hb, hb', hsame]
    split
    case isTrue => exact .error (.readOverflow _ _ hid)
    case isFalse =>
      split
      case isTrue => exact .error (.readOutsideHost _ _ _)
      case isFalse => exact .ok _

theorem map_contents? (h : Twin extra ν m m') (hids : List.Forall₂ ν.Buffer ids ids') :
    ids.map m.contents? = ids'.map m'.contents? := by
  induction hids with
  | nil => rfl
  | cons hid _ ih => rw [List.map_cons, List.map_cons, h.contents _ hid, ih]

end Twin

-- What a launch finds is a matter of what the buffers hold.
theorem gather_eq (m : Memory) (ids : List BufferId) :
    m.gather ids = match (ids.map m.contents?).findIdx? Option.isNone with
      | some place => .error (.unknownArgument place ((ids[place]?.map BufferId.number).getD 0))
      | none => .ok ((ids.map m.contents?).map (·.getD [])) := by
  have hsame : (fun id => (m.buffer? id).isNone) = Option.isNone ∘ m.contents? := by
    funext id
    simp [contents?]
  unfold gather
  rw [hsame, ← List.findIdx?_map, List.map_map]
  rfl

namespace Twin

theorem gather (h : Twin extra ν m m') (hids : List.Forall₂ ν.Buffer ids ids') :
    CommandFault.Verdict ν (m.gather ids) (m'.gather ids') := by
  rw [gather_eq, gather_eq, h.map_contents? hids]
  cases hplace : (ids'.map m'.contents?).findIdx? Option.isNone with
  | none => exact .ok _
  | some place =>
    obtain ⟨hlt, -⟩ := List.findIdx?_eq_some_iff_getElem.mp hplace
    rw [List.length_map] at hlt
    have hget := hids.get (hids.length_eq ▸ hlt) hlt
    simp only [List.getElem?_eq_getElem hlt, List.getElem?_eq_getElem (hids.length_eq ▸ hlt : place < ids.length),
      Option.map_some, Option.getD_some]
    exact .error (.unknownArgument place hget)

-- Who is where in a list does not depend on the numbers.
theorem idxOf?_eq (hν : ν.OneToOne) (hid : ν.Buffer id id') (hids : List.Forall₂ ν.Buffer ids ids') :
    ids.idxOf? id = ids'.idxOf? id' := by
  induction hids with
  | nil => rfl
  | cons hpair _ ih =>
    rw [List.idxOf?_cons, List.idxOf?_cons, ih]
    simp only [beq_iff_eq, hν.buffers _ hpair _ hid]

theorem run (h : Twin extra ν m m') (hν : ν.OneToOne) (hids : List.Forall₂ ν.Buffer ids ids') (kernel : Kernel)
    (geometry : Geometry) :
    Option.Rel (CommandFault.Matches ν) (m.run kernel ids geometry).1 (m'.run kernel ids' geometry).1 ∧
      Twin extra ν (m.run kernel ids geometry).2 (m'.run kernel ids' geometry).2 := by
  have hgather := h.gather hids
  have ho := (run_alike m kernel ids geometry).orderly h.orderly
  have ho' := (run_alike m' kernel ids' geometry).orderly h.orderly'
  unfold Memory.run at ho ho' ⊢
  generalize m.gather ids = found at hgather ho ho' ⊢
  generalize m'.gather ids' = found' at hgather ho ho' ⊢
  cases hgather with
  | error hfault => exact ⟨.some hfault, h⟩
  | ok contents =>
    refine ⟨?_, h.mapBytes ho ho' fun x hx => ?_⟩
    case refine_1 =>
      dsimp only
      cases ((kernel { geometry, arguments := contents }).run contents).2 with
      | none => exact .none
      | some fault => exact .some (.kernel fault)
    case refine_2 =>
      rw [contents?_mapBytes, contents?_mapBytes]
      rcases h.buffer? hx with ⟨hy, hy'⟩ | ⟨y, y', hy, hy', hbytes, hkey, hkey'⟩
      case inl => rw [hy, hy']; rfl
      case inr => simp only [hy, hy', Option.map_some, hbytes, hkey, hkey', idxOf?_eq hν hx hids]

end Twin
end Memory

-- What a device is, apart from what happened on it.
structure Make where
  name    : String
  index   : Nat
  limits  : Limits
  kernels : List (String × Kernel)

def Make.lookup? (kind : Make) (name : String) : Option Nat :=
  kind.kernels.findIdx? (·.1 == name)

namespace Device

variable {α : Type} {kind : Make} {extra : Nat} {ν : Numbering} {d d' : Device} {e e' : EventId}
  {wait wait' : List EventId} {id id' : BufferId} {ids ids' : List BufferId} {R : Device → Prop}

def make (d : Device) : Make where
  name := d.name
  index := d.index
  limits := d.limits
  kernels := d.kernels

theorem lookup?_eq (d : Device) (name : String) : d.lookup? name = d.make.lookup? name :=
  rfl

structure Twin (kind : Make) (extra : Nat) (ν : Numbering) (d d' : Device) : Prop where
  make   : d.make = kind
  make'  : d'.make = kind
  memory : d.memory.Twin extra ν d'.memory
  apart  : ν.OneToOne
  made   : ∀ x ∈ ν.events, x.1.number < d.nextEvent ∧ x.2.number < d'.nextEvent
  events : ∀ x ∈ ν.events, ∃ status status', d.status? x.1 = some status ∧ d'.status? x.2 = some status' ∧
    status.Matches ν status'

namespace Twin

theorem index_eq (h : Twin kind extra ν d d') : d.index = d'.index :=
  congrArg Make.index (h.make.trans h.make'.symm)

theorem kernels_eq (h : Twin kind extra ν d d') : d.kernels = d'.kernels :=
  congrArg Make.kernels (h.make.trans h.make'.symm)

theorem name_eq (h : Twin kind extra ν d d') : d.name = d'.name :=
  congrArg Make.name (h.make.trans h.make'.symm)

theorem status (h : Twin kind extra ν d d') (he : ν.Event e e') :
    ∃ status status', d.status? e = some status ∧ d'.status? e' = some status' ∧ status.Matches ν status' :=
  h.events _ he

theorem blocks_eq (h : Twin kind extra ν d d') (he : ν.Event e e') :
    d.blocks ⟨d.nextEvent⟩ e = d'.blocks ⟨d'.nextEvent⟩ e' := by
  obtain ⟨status, status', hstatus, hstatus', hmatches⟩ := h.status he
  obtain ⟨hlt, hlt'⟩ := h.made _ he
  have hne : e ≠ ⟨d.nextEvent⟩ := fun heq => by rw [heq] at hlt; exact Nat.lt_irrefl _ hlt
  have hne' : e' ≠ ⟨d'.nextEvent⟩ := fun heq => by rw [heq] at hlt'; exact Nat.lt_irrefl _ hlt'
  rw [blocks, blocks, hstatus, hstatus']
  cases hmatches <;> simp [hne, hne']

theorem waitFault (h : Twin kind extra ν d d') (hwait : List.Forall₂ ν.Event wait wait') :
    Option.Rel (CommandFault.Matches ν) (d.waitFault ⟨d.nextEvent⟩ wait) (d'.waitFault ⟨d'.nextEvent⟩ wait') := by
  unfold Device.waitFault
  induction hwait with
  | nil => exact .none
  | cons he _ ih =>
    rw [List.find?_cons, List.find?_cons, h.blocks_eq he]
    split
    case h_1 => exact .some (.dependency he)
    case h_2 => exact ih

-- The next event of the one run stands for the next one of the other.
def next (_ : Twin kind extra ν d d') : Numbering :=
  ν.addEvent ⟨d.nextEvent⟩ ⟨d'.nextEvent⟩

theorem within_next (h : Twin kind extra ν d d') : ν.Within h.next :=
  ν.within_addEvent _ _

theorem record (h : Twin kind extra ν d d') {fault fault' : Option CommandFault}
    (hfault : Option.Rel (CommandFault.Matches ν) fault fault') {m m' : Memory} (hm : m.Twin extra ν m') :
    Twin kind extra h.next (d.record fault m) (d'.record fault' m') := by
  have hwithin := h.within_next
  have hnew (x : EventId × EventId) (hx : x ∈ ν.events) : x.1 ≠ ⟨d.nextEvent⟩ ∧ x.2 ≠ ⟨d'.nextEvent⟩ := by
    obtain ⟨hlt, hlt'⟩ := h.made x hx
    exact ⟨fun heq => by rw [heq] at hlt; exact Nat.lt_irrefl _ hlt,
      fun heq => by rw [heq] at hlt'; exact Nat.lt_irrefl _ hlt'⟩
  have hnext (d : Device) (fault : Option CommandFault) (m : Memory) :
      (d.record fault m).nextEvent = d.nextEvent + 1 := rfl
  refine ⟨h.make, h.make', hm.congr rfl, h.apart.addEvent hnew, ?_, ?_⟩
  case refine_1 =>
    rw [hnext, hnext]
    refine List.forall_mem_cons.mpr ⟨⟨Nat.lt_succ_self _, Nat.lt_succ_self _⟩, fun x hx => ?_⟩
    exact (h.made x hx).imp Nat.lt_succ_of_lt Nat.lt_succ_of_lt
  case refine_2 =>
    refine List.forall_mem_cons.mpr ⟨⟨_, _, status?_record d fault m, status?_record d' fault' m', ?_⟩,
      fun x hx => ?_⟩
    case refine_1 =>
      cases hfault with
      | none => exact .complete
      | some hfault => exact .failed (hfault.mono hwithin)
    case refine_2 =>
      obtain ⟨status, status', hstatus, hstatus', hmatches⟩ := h.events x hx
      obtain ⟨hlt, hlt'⟩ := h.made x hx
      exact ⟨status, status', ((onward_record d fault m).status?_eq_of_lt hlt).trans hstatus,
        ((onward_record d' fault' m').status?_eq_of_lt hlt').trans hstatus', hmatches.mono hwithin⟩

-- Bodies that go alike are skipped alike, too.
theorem submit (h : Twin kind extra ν d d') (hwait : List.Forall₂ ν.Event wait wait')
    {body body' : Memory → Except CommandFault α × Memory}
    (hverdict : CommandFault.Verdict ν (body d.memory).1 (body' d'.memory).1)
    (hmemory : (body d.memory).2.Twin extra ν (body' d'.memory).2) :
    CommandFault.Verdict h.next (submit wait body d).2.1 (submit wait' body' d').2.1 ∧
      Twin kind extra h.next (submit wait body d).2.2 (submit wait' body' d').2.2 := by
  have hfault := h.waitFault hwait
  cases hw : d.waitFault ⟨d.nextEvent⟩ wait with
  | some fault =>
    rw [hw] at hfault
    cases hw' : d'.waitFault ⟨d'.nextEvent⟩ wait' with
    | none => rw [hw'] at hfault; cases hfault
    | some fault' =>
      rw [hw'] at hfault
      rw [submit_blocked hw, submit_blocked hw']
      cases hfault with
      | some hmatches => exact ⟨.error (hmatches.mono h.within_next), h.record (.some hmatches) h.memory⟩
  | none =>
    rw [hw] at hfault
    cases hw' : d'.waitFault ⟨d'.nextEvent⟩ wait' with
    | some fault' => rw [hw'] at hfault; cases hfault
    | none =>
      rcases hbody : body d.memory with ⟨outcome, m⟩
      rcases hbody' : body' d'.memory with ⟨outcome', m'⟩
      rw [hbody, hbody'] at hverdict hmemory
      cases hverdict with
      | ok a =>
        rw [submit_ok hw hbody, submit_ok hw' hbody']
        exact ⟨.ok a, h.record .none hmemory⟩
      | error hmatches =>
        rw [submit_failed hw hbody, submit_failed hw' hbody']
        exact ⟨.error (hmatches.mono h.within_next), h.record (.some hmatches) hmemory⟩

end Twin

open Offload.Action (Echoes)

theorem perform_echoes (h : Twin kind extra ν d d') (hwait : List.Forall₂ ν.Event wait wait') (blocking : Bool)
    {body body' : Memory → Except CommandFault α × Memory}
    (hverdict : CommandFault.Verdict ν (body d.memory).1 (body' d'.memory).1)
    (hmemory : (body d.memory).2.Twin extra ν (body' d'.memory).2) :
    Echoes (Twin kind extra) R (fun ν' a b => ν'.Event a.1 b.1 ∧ a.2 = b.2) ν (perform wait blocking body)
      (perform wait' blocking body') d d' := by
  obtain ⟨hverdict, htwin⟩ := h.submit hwait hverdict hmemory
  have hevent := submit_event wait body d
  have hevent' := submit_event wait' body' d'
  have hown : h.next.Event ⟨d.nextEvent⟩ ⟨d'.nextEvent⟩ := List.mem_cons_self
  rw [← hevent, ← hevent'] at hown
  refine Echoes.bind_get ?_
  generalize Device.submit wait body d = submitted at hverdict htwin hown ⊢
  generalize Device.submit wait' body' d' = submitted' at hverdict htwin hown ⊢
  obtain ⟨own, outcome, after⟩ := submitted
  obtain ⟨own', outcome', after'⟩ := submitted'
  dsimp only at hverdict htwin hown ⊢
  cases hverdict with
  | ok a => exact .of_eq rfl rfl h.within_next htwin (.ok ⟨hown, rfl⟩)
  | error hmatches =>
    cases blocking with
    | false => exact .of_eq rfl rfl h.within_next htwin (.ok ⟨hown, rfl⟩)
    | true => exact .of_eq rfl rfl h.within_next htwin (.error (htwin.index_eq ▸ .device _ hown hmatches))

theorem release_echoes (h : Twin kind extra ν d d') (hid : ν.Buffer id id') :
    Echoes (Twin kind extra) R Numbering.Same ν (release id) (release id') d d' :=
  .modify { h with memory := h.memory.release h.apart hid }

theorem write_echoes (h : Twin kind extra ν d d') (hid : ν.Buffer id id') (data : Bytes)
    (hwait : List.Forall₂ ν.Event wait wait') (blocking : Bool) :
    Echoes (Twin kind extra) R Numbering.Event ν (write id data wait blocking)
      (write id' data wait' blocking) d d' := by
  unfold write
  refine (perform_echoes (R := R) h hwait blocking ?_ ?_).bind fun _ _ _ _ _ _ hS hV => .pure hS hV.1
  all_goals
    rcases h.memory.write h.apart hid data with ⟨m₁, m₁', hm, hm', htwin⟩ | ⟨fault, fault', hm, hm', hmatches⟩
    case inl => rw [hm, hm']; first | exact .ok () | exact htwin
    case inr => rw [hm, hm']; first | exact .error hmatches | exact h.memory

theorem read_echoes (h : Twin kind extra ν d d') (hid : ν.Buffer id id') (hostSize offset length : Nat)
    (hwait : List.Forall₂ ν.Event wait wait') (blocking : Bool) :
    Echoes (Twin kind extra) R (fun ν' a b => ν'.Event a.1 b.1 ∧ a.2 = b.2) ν
      (read id hostSize offset length wait blocking) (read id' hostSize offset length wait' blocking) d d' :=
  perform_echoes h hwait blocking (h.memory.read hid hostSize offset length) h.memory

theorem barrier_echoes (h : Twin kind extra ν d d') (hwait : List.Forall₂ ν.Event wait wait') :
    Echoes (Twin kind extra) R Numbering.Event ν (barrier wait) (barrier wait') d d' :=
  (perform_echoes (R := R) h hwait false (.ok ()) h.memory).bind fun _ _ _ _ _ _ hS hV => .pure hS hV.1

theorem launch_echoes (h : Twin kind extra ν d d') (kernel : Nat) (hids : List.Forall₂ ν.Buffer ids ids')
    (geometry : Geometry) (hwait : List.Forall₂ ν.Event wait wait') :
    Echoes (Twin kind extra) R Numbering.Event ν (launch kernel ids geometry wait)
      (launch kernel ids' geometry wait') d d' := by
  unfold launch
  refine Echoes.bind_get ?_
  rw [← h.kernels_eq, ← h.name_eq]
  split
  case h_2 => exact .throw h (.config _)
  case h_1 code _ =>
    obtain ⟨hfault, hmemory⟩ := h.memory.run h.apart hids code geometry
    refine (perform_echoes (R := R) h hwait false ?_ ?_).bind fun _ _ _ _ _ _ hS hV => .pure hS hV.1
    all_goals
      generalize d.memory.run code ids geometry = ran at hfault hmemory ⊢
      generalize d'.memory.run code ids' geometry = ran' at hfault hmemory ⊢
      obtain ⟨fault, m⟩ := ran
      obtain ⟨fault', m'⟩ := ran'
      cases hfault
      case none => first | exact .ok () | exact hmemory
      case some hmatches => first | exact .error hmatches | exact hmemory

theorem resolve_echoes (h : Twin kind extra ν d d') (he : ν.Event e e') :
    Echoes (Twin kind extra) R (fun ν' i i' => i.status.Matches ν' i'.status) ν (resolve e) (resolve e') d d' := by
  obtain ⟨status, status', hstatus, hstatus', hmatches⟩ := h.status he
  unfold resolve
  refine Echoes.bind_get ?_
  rw [hstatus, hstatus']
  exact .pure h hmatches

theorem wait_echoes (h : Twin kind extra ν d d') (hevents : List.Forall₂ ν.Event wait wait') :
    Echoes (Twin kind extra) R Numbering.Same ν (Device.wait wait) (Device.wait wait') d d' := by
  have hknown : wait.find? (fun e => (d.status? e).isNone) = none ∧
      wait'.find? (fun e => (d'.status? e).isNone) = none := by
    induction hevents with
    | nil => exact ⟨rfl, rfl⟩
    | cons he _ ih =>
      obtain ⟨status, status', hstatus, hstatus', _⟩ := h.status he
      simpa [hstatus, hstatus'] using ih
  unfold Device.wait
  refine Echoes.bind_get ?_
  rw [hknown.1, hknown.2]
  exact .pure h rfl

end Device

def Call.denied : Call → Bool
  | .allocate _ (.error _) => true
  | _ => false

namespace Channel

variable {α β : Type} {kind : Make} {extra : Nat} {ν : Numbering} {V : Numbering → α → β → Prop} {p q : Channel}

-- Some request for memory was refused.
def Refused (p : Channel) : Prop :=
  ∃ size e, Call.allocate size (.error e) ∈ p.journal

theorem refused_iff : p.Refused ↔ p.journal.any Call.denied := by
  rw [List.any_eq_true]
  refine ⟨fun ⟨size, e, hmem⟩ => ⟨_, hmem, rfl⟩, fun ⟨call, hmem, hdenied⟩ => ?_⟩
  cases call with
  | allocate size result =>
    cases result with
    | error e => exact ⟨size, e, hmem⟩
    | ok id => cases hdenied
  | _ => cases hdenied

instance : DecidablePred Refused :=
  fun _ => decidable_of_iff' _ refused_iff

-- What was called and noted before makes no difference.
def Twin (kind : Make) (extra : Nat) (ν : Numbering) (p q : Channel) : Prop :=
  p.device.Twin kind extra ν q.device

-- One side had no room, for all that others have there.
def Crowded (extra : Nat) (p : Channel) : Prop :=
  0 < extra ∧ p.Refused

open Offload.Action (Echoes)

theorem noting_echoes {note : Except Error α → Call} {note' : Except Error β → Call} {call : Action Device α}
    {call' : Action Device β}
    (h : Echoes (Device.Twin kind extra) (fun _ => False) V ν call call' p.device q.device) :
    Echoes (Twin kind extra) (Crowded extra) V ν (noting note call) (noting note' call') p q := by
  rcases h with ⟨_, _, hfalse⟩ | ⟨ν', hν, hS, hr⟩
  case inl => exact hfalse.elim
  case inr => exact .inr ⟨ν', hν, hS, hr⟩

theorem allocate_echoes (h : p.Twin kind extra ν q) (size : Nat) :
    Echoes (Twin kind extra) (Crowded extra) Numbering.Buffer ν (allocate size) (allocate size) p q := by
  rcases h.memory.allocate size with ⟨m₁, m₁', hm, hm', htwin⟩ | ⟨cause, hm, hwhy⟩
  case inl =>
    obtain ⟨c, hc, hdevice⟩ := allocate_of_ok hm
    obtain ⟨c', hc', hdevice'⟩ := allocate_of_ok hm'
    have hnew : ∀ x ∈ ν.buffers, x.1 ≠ ⟨p.device.memory.next⟩ ∧ x.2 ≠ ⟨q.device.memory.next⟩ := fun x hx => by
      obtain ⟨hlt, hlt'⟩ := h.memory.made x hx
      exact ⟨fun heq => by rw [heq] at hlt; exact Nat.lt_irrefl _ hlt,
        fun heq => by rw [heq] at hlt'; exact Nat.lt_irrefl _ hlt'⟩
    have hwithin := ν.within_addBuffer ⟨p.device.memory.next⟩ ⟨q.device.memory.next⟩
    refine .of_eq hc hc' hwithin ?_ (.ok List.mem_cons_self)
    unfold Twin
    rw [hdevice, hdevice']
    refine ⟨h.make, h.make', htwin, h.apart.addBuffer hnew, h.made, fun x hx => ?_⟩
    obtain ⟨status, status', hstatus, hstatus', hmatches⟩ := h.events x hx
    exact ⟨status, status', hstatus, hstatus', hmatches.mono hwithin⟩
  case inr =>
    obtain ⟨c, hc, hdevice⟩ := allocate_of_error hm
    rcases hwhy with hextra | hm'
    case inl =>
      have hjournal : (allocate size p).2.journal = p.journal ++ [.allocate size (allocate size p).1] := rfl
      refine .inl ⟨_, by rw [hc], hextra, size, .resource p.device.index cause, ?_⟩
      rw [hjournal, hc]
      exact List.mem_append_right _ List.mem_cons_self
    case inr =>
      obtain ⟨c', hc', hdevice'⟩ := allocate_of_error hm'
      refine .of_eq hc hc' (.refl ν) ?_ (.error (h.index_eq ▸ .resource _ _))
      unfold Twin
      rwa [hdevice, hdevice']

-- Once it is written down it stays.
theorem Refused.append {calls : List Call} (h : p.Refused) (hq : q.journal = p.journal ++ calls) : q.Refused := by
  obtain ⟨size, e, hmem⟩ := h
  exact ⟨size, e, hq ▸ List.mem_append_left _ hmem⟩

end Channel
end Offload
