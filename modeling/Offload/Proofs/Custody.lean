import Offload.Proofs.Dealings
import Offload.Proofs.Growth

/-!
Who has a buffer in custody: every buffer that a call names was allocated on the same device and was not
released since. Launches have to be for the device of the latest CONTEXT, and no task may want another buffer
for an object than an earlier argument of its took.
-/

namespace Offload

deriving instance DecidableEq for Call

namespace Call

-- The buffers that a call names.
def named : Call → List BufferId
  | .release id | .write id .. | .read id .. => [id]
  | .launch _ ids .. => ids
  | _ => []

def made? : Call → Option BufferId
  | .allocate _ (.ok id) => some id
  | _ => none

def released? : Call → Option BufferId
  | .release id => some id
  | _ => none

-- What a call names was allocated before, and not released.
def Backed (before : List Call) (call : Call) : Prop :=
  ∀ id ∈ call.named, id ∈ before.filterMap made? ∧ id ∉ before.filterMap released?

theorem Bufferless.facts {call : Call} (h : call.Bufferless) :
    call.named = [] ∧ call.made? = none ∧ call.released? = none := by
  cases call with
  | allocate size result =>
    cases result with
    | ok => exact h.elim
    | error => exact ⟨rfl, rfl, rfl⟩
  | release | write | read | launch => exact h.elim
  | _ => exact ⟨rfl, rfl, rfl⟩

end Call

-- No two arguments of a task want different buffers for one object.
def Task.Steady (t : Task) : Prop :=
  t.arguments.Pairwise Argument.Agrees

instance (t : Task) : Decidable t.Steady :=
  inferInstanceAs (Decidable (List.Pairwise _ _))

theorem Memory.allocate_next {m m' : Memory} {size : Nat} {id : BufferId}
    (h : m.allocate size = .ok (id, m')) : id.number = m.next ∧ m'.next = m.next + 1 := by
  unfold allocate at h
  split at h <;> cases h
  exact ⟨rfl, rfl⟩

theorem Memory.next_run (m : Memory) (kernel : Kernel) (ids : List BufferId) (geometry : Geometry) :
    (m.run kernel ids geometry).2.next = m.next := by
  unfold run
  split <;> rfl

namespace Device

-- No command makes a buffer.
theorem next_write (id : BufferId) (data : Bytes) (wait : List EventId) (blocking : Bool) :
    (write id data wait blocking).Keeps fun d d' => d'.memory.next = d.memory.next := by
  refine write_keeps (fun m m' hwrite => ?_) wait blocking
  unfold Memory.write at hwrite
  split at hwrite
  case h_1 => cases hwrite
  case h_2 => split at hwrite <;> cases hwrite; rfl

theorem next_read (id : BufferId) (hostSize offset length : Nat) (wait : List EventId) (blocking : Bool) :
    (read id hostSize offset length wait blocking).Keeps fun d d' => d'.memory.next = d.memory.next :=
  perform_keeps (fun _ => rfl) wait blocking

theorem next_launch (kernel : Nat) (ids : List BufferId) (geometry : Geometry) (wait : List EventId) :
    (launch kernel ids geometry wait).Keeps fun d d' => d'.memory.next = d.memory.next :=
  launch_keeps (f := Memory.next) (fun m code => m.next_run code ids geometry) kernel wait

end Device

namespace Channel

variable {p : Channel} {id : BufferId} {call : Call} {d : Device}

-- The journal gives account of every buffer: those that are there were allocated and not released, and no
-- call named another one.
structure Kept (p : Channel) : Prop where
  backed   : ∀ before call after, p.journal = before ++ call :: after → call.Backed before
  made     : ∀ x ∈ p.device.memory.live, x.1 ∈ p.journal.filterMap Call.made?
  held     : ∀ x ∈ p.device.memory.live, x.1 ∉ p.journal.filterMap Call.released?
  released : ∀ id ∈ p.journal.filterMap Call.released?, id.number < p.device.memory.next

theorem kept_of_empty (hbuffers : p.device.memory.buffers = []) (hjournal : p.journal = []) : p.Kept := by
  have hlive : p.device.memory.live = [] := List.map_eq_nil_iff.mpr hbuffers
  refine ⟨fun before call after h => ?_, ?_, ?_, ?_⟩
  case refine_1 => simp [hjournal] at h
  case refine_2 => simp [hlive]
  case refine_3 => simp [hlive]
  case refine_4 => simp [hjournal]

theorem Kept.backed_of_live (h : p.Kept) (hcall : ∀ id ∈ call.named, ∃ size, (id, size) ∈ p.device.memory.live) :
    call.Backed p.journal := by
  intro id hid
  obtain ⟨size, hlive⟩ := hcall id hid
  exact ⟨h.made _ hlive, h.held _ hlive⟩

-- One more call: what is there now was there before, or was made by the call.
theorem Kept.noted (h : p.Kept)
    (hcall : ∀ id ∈ call.named, ∃ size, (id, size) ∈ p.device.memory.live)
    (hnext : p.device.memory.next ≤ d.memory.next)
    (hlive : ∀ x ∈ d.memory.live, call.released? ≠ some x.1 ∧
      (x ∈ p.device.memory.live ∨ call.made? = some x.1 ∧ p.device.memory.next ≤ x.1.number))
    (hreleased : ∀ id, call.released? = some id → id.number < d.memory.next) :
    ({ device := d, journal := p.journal ++ [call] } : Channel).Kept := by
  have hmade : ∀ id, id ∈ (p.journal ++ [call]).filterMap Call.made? ↔
      id ∈ p.journal.filterMap Call.made? ∨ call.made? = some id := by
    simp [List.filterMap_append, List.mem_filterMap]
  have hgiven : ∀ id, id ∈ (p.journal ++ [call]).filterMap Call.released? ↔
      id ∈ p.journal.filterMap Call.released? ∨ call.released? = some id := by
    simp [List.filterMap_append, List.mem_filterMap]
  refine ⟨fun before last after hsplit => ?_, fun x hx => ?_, fun x hx => ?_, fun id hid => ?_⟩
  case refine_1 =>
    rcases List.eq_nil_or_concat after with rfl | ⟨after, final, rfl⟩
    case inl =>
      obtain ⟨rfl, hlast⟩ := List.append_inj' hsplit rfl
      cases hlast
      exact h.backed_of_live hcall
    case inr =>
      rw [List.concat_eq_append, ← List.cons_append, ← List.append_assoc] at hsplit
      exact h.backed before last after (List.append_inj' hsplit rfl).1
  case refine_2 =>
    rw [hmade]
    exact (hlive x hx).2.imp (h.made x) And.left
  case refine_3 =>
    rw [hgiven]
    rintro (hold | hnew)
    case inr => exact (hlive x hx).1 hnew
    case inl =>
      rcases (hlive x hx).2 with hbefore | ⟨_, hfresh⟩
      case inl => exact h.held x hbefore hold
      case inr => exact Nat.lt_irrefl _ (Nat.lt_of_le_of_lt hfresh (h.released _ hold))
  case refine_4 =>
    rcases (hgiven id).mp hid with hold | hnew
    case inl => exact Nat.lt_of_lt_of_le (h.released id hold) hnext
    case inr => exact hreleased id hnew

-- A command on buffers that are there.
theorem Kept.command (h : p.Kept)
    (hcall : ∀ id ∈ call.named, ∃ size, (id, size) ∈ p.device.memory.live) (hmade : call.released? = none)
    (hlive : d.memory.live = p.device.memory.live) (hnext : d.memory.next = p.device.memory.next) :
    ({ device := d, journal := p.journal ++ [call] } : Channel).Kept := by
  refine h.noted hcall (Nat.le_of_eq hnext.symm) (fun x hx => ⟨?_, .inl (hlive ▸ hx)⟩) fun id hid => ?_
  case refine_1 => rw [hmade]; exact nofun
  case refine_2 => rw [hmade] at hid; cases hid

theorem Kept.write (h : p.Kept) {size : Nat} (hid : (id, size) ∈ p.device.memory.live) (data : Bytes)
    (wait : List EventId) (blocking : Bool) : (write id data wait blocking p).2.Kept := by
  refine h.command (fun other hother => ?_) rfl
    (Device.still_write id data wait blocking p.device).alike.live (Device.next_write id data wait blocking _)
  cases List.mem_singleton.mp hother
  exact ⟨size, hid⟩

theorem Kept.read (h : p.Kept) {size : Nat} (hid : (id, size) ∈ p.device.memory.live)
    (hostSize offset length : Nat) (wait : List EventId) (blocking : Bool) :
    (read id hostSize offset length wait blocking p).2.Kept := by
  refine h.command (fun other hother => ?_) rfl
    (Device.still_read id hostSize offset length wait blocking p.device).alike.live
    (Device.next_read id hostSize offset length wait blocking _)
  cases List.mem_singleton.mp hother
  exact ⟨size, hid⟩

theorem Kept.launch (h : p.Kept) {ids : List BufferId}
    (hids : ∀ id ∈ ids, ∃ size, (id, size) ∈ p.device.memory.live) (kernel : Nat) (geometry : Geometry)
    (wait : List EventId) : (launch kernel ids geometry wait p).2.Kept :=
  h.command hids rfl (Device.still_launch kernel ids geometry wait p.device).alike.live
    (Device.next_launch kernel ids geometry wait _)

theorem Kept.release (h : p.Kept) (hm : p.device.memory.Orderly) {size : Nat}
    (hid : (id, size) ∈ p.device.memory.live) : (release id p).2.Kept := by
  obtain ⟨b, hb, _⟩ := hm.buffer?_of_mem hid
  have hlt : id.number < p.device.memory.next := by
    rw [← Memory.id_of_buffer? hb]
    exact hm.sound b (List.mem_of_find?_eq_some hb)
  refine h.noted (fun other hother => ?_) (Nat.le_of_eq (Memory.next_release _ _).symm)
    (fun x hx => ⟨fun heq => ?_, .inl ?_⟩) fun other hother => ?_
  case refine_1 =>
    cases List.mem_singleton.mp hother
    exact ⟨size, hid⟩
  case refine_2 =>
    have hkey := List.mem_map_of_mem (f := Prod.fst) hx
    rw [Memory.map_fst_live_release] at hkey
    have hne := List.of_mem_filter hkey
    cases heq
    simp at hne
  case refine_3 =>
    have hx : x ∈ (p.device.memory.release id).live := hx
    unfold Memory.release at hx
    split at hx
    case h_1 => exact hx
    case h_2 =>
      obtain ⟨y, hy, rfl⟩ := List.mem_map.mp hx
      exact List.mem_map_of_mem (List.mem_of_mem_filter hy)
  case refine_4 =>
    cases hother
    change id.number < (p.device.memory.release id).next
    rw [Memory.next_release]
    exact hlt

theorem Kept.allocate (h : p.Kept) (hm : p.device.memory.Orderly) {size : Nat} {memory : Memory}
    (hmemory : p.device.memory.allocate size = .ok (id, memory)) : (Channel.allocate size p).2.Kept := by
  obtain ⟨c, hc, hdevice⟩ := allocate_of_ok hmemory
  obtain ⟨hlive, _⟩ := Memory.allocate_live hm hmemory
  obtain ⟨hnumber, hnext⟩ := Memory.allocate_next hmemory
  have hjournal : (Channel.allocate size p).2.journal =
      p.journal ++ [.allocate size (Channel.allocate size p).1] := rfl
  rw [hc] at hjournal ⊢
  have hchannel : c =
      { device := { p.device with memory }, journal := p.journal ++ [.allocate size (.ok id)] } := by
    rw [← hdevice, ← hjournal]
  rw [hchannel]
  refine h.noted nofun (by simp [hnext]) (fun x hx => ⟨nofun, ?_⟩) nofun
  have hx : x ∈ memory.live := hx
  rw [hlive] at hx
  refine (List.mem_append.mp hx).imp_right fun hnew => ?_
  rw [List.mem_singleton.mp hnew]
  exact ⟨rfl, Nat.le_of_eq hnumber.symm⟩

theorem Kept.calm {p' : Channel} (h : p.Kept) (hcalm : p.Calm p') : p'.Kept := by
  obtain ⟨⟨_, hmemory⟩, calls, hjournal, hnone⟩ := hcalm
  have hnoted (calls : List Call) (hnone : ∀ call ∈ calls, call.Bufferless) (q : Channel) (hq : q.Kept)
      (hsame : p'.device.memory = q.device.memory) :
      ({ device := p'.device, journal := q.journal ++ calls } : Channel).Kept := by
    induction calls generalizing q with
    | nil =>
      rw [List.append_nil]
      exact ⟨hq.backed, hsame ▸ hq.made, hsame ▸ hq.held, hsame ▸ hq.released⟩
    | cons call calls ih =>
      obtain ⟨hcall, hrest⟩ := List.forall_mem_cons.mp hnone
      obtain ⟨hnamed, _, hreleased⟩ := hcall.facts
      have hfirst : ({ device := p'.device, journal := q.journal ++ [call] } : Channel).Kept :=
        hq.command (by simp [hnamed]) hreleased (congrArg Memory.live hsame) (congrArg Memory.next hsame)
      have hall := ih hrest _ hfirst rfl
      rwa [List.append_assoc] at hall
  have hsame : p' = { device := p'.device, journal := p.journal ++ calls } := by rw [← hjournal]
  rw [hsame]
  exact hnoted calls hnone p h hmemory

end Channel

namespace Context

variable {rest : Nat → List (BufferId × Nat)} {s t u : Hosted Context}
  {A : Hosted Context → Deal → Prop} {c : Context} {p : Platform} {place : Nat}

-- A call on one device keeps them all, if it keeps that one.
theorem kept_onChannel {α : Type} {act : Action Channel α} (hall : ∀ other, (p.channel other).Kept)
    (h : (act (p.channel place)).2.Kept) (other : Nat) :
    ((Platform.onChannel place act p).2.channel other).Kept :=
  Platform.rel_onChannel (R := fun c c' => c.Kept → c'.Kept) (fun _ h => h) act p place (fun _ => h) other
    (hall other)

theorem Collected.live {arguments : List Argument} {ids : List BufferId}
    (h : s.part.Collected (s.device place).memory arguments ids) (hbooks : Books rest s)
    (hplace : s.part.activePlace? = some place) (hsteady : arguments.Pairwise Argument.Agrees) :
    ∀ id ∈ ids, ∃ size, (id, size) ∈ (s.device place).memory.live := by
  induction h with
  | nil => exact nofun
  | cons hhead _ ih =>
    obtain ⟨hagrees, htail⟩ := List.pairwise_cons.mp hsteady
    rw [List.forall_mem_cons]
    refine ⟨?_, ih htail⟩
    rcases hhead with ⟨index, b, hb, hid⟩ | ⟨hquarrel, _⟩
    case inl => exact ⟨_, hbooks.mem_live hplace (List.mem_of_getElem? hb.2) hid⟩
    case inr => exact absurd hagrees hquarrel

-- Giving up all buffers on record names no other.
theorem giveUpAll_kept {bs : List Binding} {others : List (BufferId × Nat)}
    (hplace : c.activePlace? = some place) (hlt : place < p.channels.length)
    (horderly : (p.channel place).device.memory.Orderly)
    (hlive : (p.channel place).device.memory.live.Perm (bs.filterMap Binding.key? ++ others))
    (hkept : ∀ other, (p.channel other).Kept) (other : Nat) :
    ((bs.foldl c.giveUp p).channel other).Kept := by
  induction bs generalizing p with
  | nil => exact hkept other
  | cons b bs ih =>
    have hsplit : (b :: bs).filterMap Binding.key? = [b].filterMap Binding.key? ++ bs.filterMap Binding.key? :=
      List.filterMap_append (l := [b])
    rw [hsplit, List.append_assoc] at hlive
    obtain ⟨hlocal, horderly', hlive'⟩ := giveUpAll_live hplace hlt horderly hlive
    refine ih (by exact hlocal.channels ▸ hlt) horderly' hlive' fun other => ?_
    obtain ⟨registry, _, heq⟩ := giveUp_eq c p b
    rw [heq, hplace]
    cases hid : b.state.buffer with
    | none => exact hkept other
    | some id =>
      have hkey : b.key? = some (id, b.state.size) := by rw [Binding.key?, hid]; rfl
      have hmem : (id, b.state.size) ∈ (p.channel place).device.memory.live :=
        hlive.mem_iff.mpr (by simp [hkey])
      exact kept_onChannel hkept ((hkept place).release horderly hmem) other

-- No deal names a buffer that its device does not have.
theorem Does.kept {d : Deal} (h : Does d s t) (hbooks : Books rest s)
    (hsteady : ∀ task ∈ s.part.tasks, task.Steady) (hkept : ∀ place, (s.platform.channel place).Kept)
    (place : Nat) : (t.platform.channel place).Kept := by
  cases h with
  | attach hplace hb hnone hmemory =>
    exact kept_onChannel hkept ((hkept _).allocate (hbooks.orderly _) hmemory) place
  | detach hplace hb hid =>
    have hmem := hbooks.mem_live hplace (List.mem_of_getElem? hb) hid
    exact kept_onChannel hkept ((hkept _).release (hbooks.orderly _) hmem) place
  | fill hplace hb hid =>
    have hmem := hbooks.mem_live hplace (List.mem_of_getElem? hb) hid
    exact kept_onChannel hkept ((hkept _).write hmem _ _ _) place
  | miss hplace hb hid =>
    have hmem := hbooks.mem_live hplace (List.mem_of_getElem? hb) hid
    exact kept_onChannel hkept ((hkept _).write hmem _ _ _) place
  | run kernel geometry wait hplace htask hids =>
    have hlive := hids.live hbooks hplace (hsteady _ htask)
    exact kept_onChannel hkept ((hkept _).launch hlive _ _ _) place
  | mark => exact hkept place
  | deliver offset wait blocking hplace hb hid =>
    have hmem := hbooks.mem_live hplace (List.mem_of_getElem? hb) (ObjectState.buffer_of_validBuffer? hid)
    rw [Platform.channel_readBack]
    exact kept_onChannel hkept ((hkept _).read hmem _ _ _ _ _) place
  | own => exact hkept place
  | clear =>
    change ((s.part.bindings.foldl s.part.giveUp s.platform).channel place).Kept
    cases hactive : s.part.activePlace? with
    | none =>
      rw [Platform.channel, (giveUpAll_none hactive _ _).1]
      exact hkept place
    | some active =>
      have hbalanced := hbooks.balanced active
      rw [heldAt, if_pos hactive] at hbalanced
      exact giveUpAll_kept hactive (hbooks.place_lt hactive) (hbooks.orderly active) hbalanced hkept place
  | turn => exact hkept place

theorem Deals.kept (h : Deals A s t) (hbooks : Books rest s)
    (hsteady : ∀ task ∈ s.part.tasks, task.Steady) (hkept : ∀ place, (s.platform.channel place).Kept) :
    ∀ place, (t.platform.channel place).Kept :=
  h.keep (I := fun u => ∀ place, (u.platform.channel place).Kept) hbooks hkept
    (fun _ _ hcalm hu place => (hu place).calm (hcalm.channels place))
    fun _ _ _ hu _ hdoes hkept => hdoes.kept hu.books (hu.stable.tasks ▸ hsteady) hkept

end Context
end Offload
