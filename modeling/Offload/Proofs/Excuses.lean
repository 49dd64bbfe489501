import Offload.Proofs.Accounts
import Offload.Proofs.Calls

/-!
What calls leave behind on a device and its channel: events stay known, and a transfer that found its
buffer fails for no other reason than that an event it waits for failed.
-/

namespace Offload

namespace Device

variable {α : Type} {d d' d'' : Device} {e : EventId} {status : EventStatus} {wait : List EventId}

-- Events from before are still there, and newer ones have larger numbers.
structure Onward (d d' : Device) : Prop where
  next   : d.nextEvent ≤ d'.nextEvent
  events : ∃ new, d'.events = new ++ d.events ∧
    ∀ x ∈ new, d.nextEvent ≤ x.1.number ∧ x.1.number < d'.nextEvent ∧ x.2.isFinished

theorem Idle.onward (h : Idle d d') : Onward d d' where
  next := Nat.le_of_eq h.2.symm
  events := ⟨[], h.1, nofun⟩

theorem Advances.onward (h : Advances wait d d') : Onward d d' := by
  obtain ⟨status, hdone, _, hevents, hnext⟩ := h
  refine ⟨by omega, [(⟨d.nextEvent⟩, status)], hevents, fun x hx => ?_⟩
  rw [List.mem_singleton.mp hx]
  exact ⟨Nat.le_refl _, hnext ▸ Nat.lt_succ_self _, hdone⟩

theorem onward_lasting : Action.Lasting Onward where
  refl d := Idle.onward (idle_lasting.refl d)
  trans := by
    intro d d' d'' ⟨hnext, new, hnew, hnumbers⟩ ⟨hnext', new', hnew', hnumbers'⟩
    refine ⟨Nat.le_trans hnext hnext', new' ++ new, by rw [hnew', hnew, List.append_assoc], ?_⟩
    intro x hx
    rcases List.mem_append.mp hx with hx | hx
    case inl =>
      obtain ⟨hlow, hhigh⟩ := hnumbers' x hx
      exact ⟨Nat.le_trans hnext hlow, hhigh⟩
    case inr =>
      obtain ⟨hlow, hhigh, hdone⟩ := hnumbers x hx
      exact ⟨hlow, Nat.lt_of_lt_of_le hhigh hnext', hdone⟩

-- Every event is over, and older than the next one.
def Past (d : Device) : Prop :=
  ∀ x ∈ d.events, x.1.number < d.nextEvent ∧ x.2.isFinished

theorem mem_of_status? (h : d.status? e = some status) : (e, status) ∈ d.events := by
  unfold status? at h
  generalize d.events = events at h
  induction events with
  | nil => cases h
  | cons x events ih =>
    rw [List.lookup_cons] at h
    split at h
    case h_1 heq =>
      cases h
      rw [eq_of_beq heq]
      exact List.mem_cons_self
    case h_2 => exact List.mem_cons_of_mem _ (ih h)

theorem Onward.past (h : Onward d d') (hp : d.Past) : d'.Past := by
  obtain ⟨hnext, new, hnew, hnumbers⟩ := h
  intro x hx
  rcases List.mem_append.mp (hnew ▸ hx) with hx | hx
  case inl => exact (hnumbers x hx).2
  case inr =>
    obtain ⟨hlt, hdone⟩ := hp x hx
    exact ⟨Nat.lt_of_lt_of_le hlt hnext, hdone⟩

theorem Onward.status?_eq (h : Onward d d') (hp : d.Past) (he : d.status? e = some status) :
    d'.status? e = some status := by
  obtain ⟨_, new, hnew, hnumbers⟩ := h
  have hlt := (hp _ (mem_of_status? he)).1
  -- the newer events have other numbers
  have hnone : new.lookup e = none := by
    rw [List.lookup_eq_none_iff]
    intro x hx
    refine bne_iff_ne.mpr fun heq => ?_
    have hle := (hnumbers x hx).1
    rw [← heq] at hle
    exact Nat.lt_irrefl _ (Nat.lt_of_lt_of_le hlt hle)
  rw [status?, hnew, List.lookup_append, hnone, Option.none_or]
  exact he

def Knows (d : Device) (e : EventId) : Prop :=
  ∃ status, d.status? e = some status

theorem Onward.knows (h : Onward d d') (hp : d.Past) (he : d.Knows e) : d'.Knows e := by
  obtain ⟨status, he⟩ := he
  exact ⟨status, h.status?_eq hp he⟩

-- All events are over, and those of a wait list are known.
structure Aware (d : Device) (wait : List EventId) : Prop where
  past  : d.Past
  known : ∀ w ∈ wait, d.Knows w

theorem Onward.aware (h : Onward d d') (ha : d.Aware wait) : d'.Aware wait :=
  ⟨h.past ha.past, fun w hw => h.knows ha.past (ha.known w hw)⟩

-- The command ended well, or because of an event on its wait list that failed.
def Excuses (d : Device) (wait : List EventId) (result : Except Error EventId) : Prop :=
  (∃ e, result = .ok e ∧ d.status? e = some .complete) ∨
    ∃ w ∈ wait, (∃ fault, d.status? w = some (.failed fault)) ∧
      ∃ e, d.status? e = some (.failed (.dependency w.number)) ∧
        (result = .ok e ∨
          ∃ index, result = .error (.device index e.number (.dependency w.number)))

theorem Onward.excuses (h : Onward d d') (hp : d.Past) {result : Except Error EventId}
    (he : d.Excuses wait result) : d'.Excuses wait result := by
  rcases he with ⟨e, hresult, hstatus⟩ | ⟨w, hw, ⟨fault, hfault⟩, e, hstatus, hresult⟩
  case inl => exact .inl ⟨e, hresult, h.status?_eq hp hstatus⟩
  case inr =>
    exact .inr ⟨w, hw, ⟨fault, h.status?_eq hp hfault⟩, e, h.status?_eq hp hstatus, hresult⟩

theorem status?_record (d : Device) (fault : Option CommandFault) (memory : Memory) :
    (d.record fault memory).status? ⟨d.nextEvent⟩ =
      some (match fault with | none => .complete | some fault => .failed fault) := by
  cases fault <;> simp [status?, record]

theorem onward_record (d : Device) (fault : Option CommandFault) (memory : Memory) :
    Onward d (d.record fault memory) := by
  refine ⟨Nat.le_succ _, [_], rfl, fun x hx => ?_⟩
  rw [List.mem_singleton.mp hx]
  refine ⟨Nat.le_refl _, Nat.lt_succ_self _, ?_⟩
  cases fault <;> rfl

-- An event that a command waits for in vain has failed, unless nobody knows it.
theorem fault_of_waitFault (ha : d.Aware wait) {fault : CommandFault}
    (h : d.waitFault ⟨d.nextEvent⟩ wait = some fault) :
    ∃ w ∈ wait, fault = .dependency w.number ∧ ∃ fault', d.status? w = some (.failed fault') := by
  obtain ⟨w, hfind, rfl⟩ := Option.map_eq_some_iff.mp h
  have hw := List.mem_of_find?_eq_some hfind
  have hblocks := List.find?_some hfind
  obtain ⟨status, hstatus⟩ := ha.known w hw
  refine ⟨w, hw, rfl, ?_⟩
  simp only [blocks, hstatus, Bool.and_eq_true, decide_eq_true_eq] at hblocks
  have hdone := (ha.past _ (mem_of_status? hstatus)).2
  cases status with
  | queued => cases hdone
  | running => cases hdone
  | complete => exact absurd rfl hblocks.2
  | failed fault' => exact ⟨fault', hstatus⟩

-- A command whose body would do well is excused.
theorem perform_excused {body : Memory → Except CommandFault α × Memory} (ha : d.Aware wait)
    (blocking : Bool) {a : α} {memory : Memory}
    (hbody : body d.memory = (.ok a, memory)) :
    (perform wait blocking body).Ends d fun r d' => d'.Excuses wait (r.map Prod.fst) := by
  unfold perform
  apply Action.Ends.bind_get
  cases hwait : d.waitFault ⟨d.nextEvent⟩ wait with
  | none =>
    rw [submit_ok hwait hbody]
    exact .inl ⟨_, rfl, status?_record d none memory⟩
  | some fault =>
    obtain ⟨w, hw, rfl, fault', hfault⟩ := fault_of_waitFault ha hwait
    rw [submit_blocked hwait]
    have hstatus := status?_record d (some (.dependency w.number)) d.memory
    have hfailed := (onward_record d (some (.dependency w.number)) d.memory).status?_eq ha.past hfault
    refine .inr ⟨w, hw, ⟨fault', ?_⟩, ⟨d.nextEvent⟩, ?_, ?_⟩ <;> cases blocking
    case refine_1.false | refine_1.true => exact hfailed
    case refine_2.false | refine_2.true => exact hstatus
    case refine_3.false => exact .inl rfl
    case refine_3.true => exact .inr ⟨d.index, rfl⟩

theorem write_excused {id : BufferId} {data : Bytes} (ha : d.Aware wait) (hm : d.memory.Orderly)
    (hlive : (id, data.length) ∈ d.memory.live) (blocking : Bool) :
    (write id data wait blocking).Ends d fun r d' => d'.Excuses wait r := by
  obtain ⟨memory, hwrite⟩ := Memory.write_live hm hlive
  exact (perform_excused ha blocking (by rw [hwrite])).bind (fun _ _ h => h) fun _ _ h => h

theorem read_excused {id : BufferId} {size hostSize offset length : Nat} (ha : d.Aware wait)
    (hm : d.memory.Orderly) (hlive : (id, size) ∈ d.memory.live) (hlength : length ≤ size)
    (hhost : offset + length ≤ hostSize) (blocking : Bool) :
    (read id hostSize offset length wait blocking).Ends d fun r d' =>
      d'.Excuses wait (r.map Prod.fst) := by
  obtain ⟨data, hread⟩ := Memory.read_live hm hlive hlength hhost
  exact perform_excused ha blocking (by rw [hread])

-- What a command answers with is what its body made.
theorem perform_gives {body : Memory → Except CommandFault α × Memory} {Q : α → Prop}
    (hbody : ∀ m a, (body m).1 = .ok a → Q a) (wait : List EventId) (blocking : Bool) :
    (perform wait blocking body).Gives fun r => ∀ a, r.2 = some a → Q a := by
  unfold perform
  refine .bind_of (Q := fun _ => True) (fun _ _ _ => trivial) fun d _ => ?_
  rcases hsubmit : submit wait body d with ⟨own, outcome, d'⟩
  refine .bind fun _ => ?_
  cases outcome with
  | error fault =>
    cases blocking with
    | false => exact .pure nofun
    | true => exact .throw _
  | ok a =>
    refine .pure fun a' ha => ?_
    cases ha
    cases hwait : d.waitFault ⟨d.nextEvent⟩ wait with
    | some fault => rw [submit_blocked hwait] at hsubmit; cases hsubmit
    | none =>
      refine hbody d.memory a ?_
      rcases h : body d.memory with ⟨fault | a', memory⟩
      case error => rw [submit_failed hwait h] at hsubmit; cases hsubmit
      case ok => rw [submit_ok hwait h] at hsubmit; cases hsubmit; rfl

theorem read_gives (id : BufferId) (hostSize offset length : Nat) (wait : List EventId)
    (blocking : Bool) : (read id hostSize offset length wait blocking).Gives fun r =>
      ∀ data, r.2 = some data → offset + data.length ≤ hostSize :=
  perform_gives (fun _ _ h => Memory.read_fits h) wait blocking

-- The memory holds the same buffers, and no event was forgotten.
structure Still (d d' : Device) : Prop where
  onward : Onward d d'
  alike  : Memory.Alike d.memory d'.memory

theorem still_lasting : Action.Lasting Still where
  refl d := ⟨onward_lasting.refl d, .refl _⟩
  trans h h' := ⟨onward_lasting.trans h.onward h'.onward, h.alike.trans h'.alike⟩

theorem still_perform {body : Memory → Except CommandFault α × Memory}
    (hbody : ∀ m, Memory.Alike m (body m).2) (wait : List EventId) (blocking : Bool) :
    (perform wait blocking body).Keeps Still := by
  intro d
  have hsubmit : Memory.Alike d.memory (submit wait body d).2.2.memory := by
    cases hwait : d.waitFault ⟨d.nextEvent⟩ wait with
    | some fault =>
      rw [submit_blocked hwait]
      exact .refl _
    | none =>
      have hm := hbody d.memory
      rcases h : body d.memory with ⟨fault | a, memory⟩ <;> rw [h] at hm
      case error => rwa [submit_failed hwait h]
      case ok => rwa [submit_ok hwait h]
  have hstill : Still d (submit wait body d).2.2 := ⟨(submit_advances wait body d).onward, hsubmit⟩
  unfold perform
  apply Action.Ends.bind_get
  generalize submit wait body d = submitted at hstill
  obtain ⟨own, outcome, d'⟩ := submitted
  cases outcome with
  | ok a => exact hstill
  | error fault => cases blocking <;> exact hstill

theorem still_write (id : BufferId) (data : Bytes) (wait : List EventId) (blocking : Bool) :
    (write id data wait blocking).Keeps Still := by
  refine .bind still_lasting (still_perform (fun m => ?_) wait blocking) fun _ => .pure still_lasting _
  split
  case h_1 hwrite => exact Memory.write_alike hwrite
  case h_2 => exact .refl m

theorem still_read (id : BufferId) (hostSize offset length : Nat) (wait : List EventId)
    (blocking : Bool) : (read id hostSize offset length wait blocking).Keeps Still :=
  still_perform (fun m => .refl m) wait blocking

theorem still_launch (kernel : Nat) (arguments : List BufferId) (geometry : Geometry)
    (wait : List EventId) : (launch kernel arguments geometry wait).Keeps Still := by
  intro d
  unfold launch
  apply Action.Ends.bind_get
  split
  case h_2 => exact still_lasting.refl d
  case h_1 code _ =>
    refine Action.Keeps.bind still_lasting (still_perform (fun m => ?_) wait false)
      (fun _ => .pure still_lasting _) d
    have halike := Memory.run_alike m code arguments geometry
    split <;> rename_i h <;> rwa [h] at halike

theorem still_barrier (wait : List EventId) : (barrier wait).Keeps Still :=
  .bind still_lasting (still_perform (fun m => .refl m) wait false) fun _ => .pure still_lasting _

theorem still_resolve (e : EventId) : (resolve e).Keeps Still := by
  intro d
  unfold resolve
  apply Action.Ends.bind_get
  split
  case h_1 => exact still_lasting.refl d
  case h_2 => exact still_lasting.refl d

theorem still_wait (events : List EventId) : (Device.wait events).Keeps Still := by
  intro d
  unfold Device.wait
  apply Action.Ends.bind_get
  split
  case h_1 => exact still_lasting.refl d
  case h_2 => exact still_lasting.refl d

end Device

-- A transfer that failed had an excuse.
def Call.Excused (d : Device) : Call → Prop
  | .write _ _ list _ result | .read _ _ _ list _ result => d.Excuses list result
  | _ => True

theorem Call.Excused.onward {d d' : Device} (h : d.Onward d') (hp : d.Past) {call : Call}
    (hc : call.Excused d) : call.Excused d' := by
  cases call with
  | write | read => exact h.excuses hp hc
  | _ => trivial

namespace Channel

variable {α : Type} {p p' : Channel}

structure Honest (p : Channel) : Prop where
  past    : p.device.Past
  excused : ∀ call ∈ p.journal, call.Excused p.device

-- Time went on, and no transfer was made without an excuse.
structure Aside (p p' : Channel) : Prop where
  onward : p.device.Onward p'.device
  honest : p.Honest → p'.Honest

theorem aside_lasting : Action.Lasting Aside where
  refl _ := ⟨Device.onward_lasting.refl _, id⟩
  trans h h' := ⟨Device.onward_lasting.trans h.onward h'.onward, h'.honest ∘ h.honest⟩

theorem Honest.noting (h : p.Honest) {d : Device} (hd : p.device.Onward d) {call : Call}
    (hc : call.Excused d) : ({ device := d, journal := p.journal ++ [call] } : Channel).Honest where
  past := hd.past h.past
  excused := by
    intro c hmem
    rcases List.mem_append.mp hmem with hold | hnew
    case inl => exact (h.excused c hold).onward hd h.past
    case inr => exact List.mem_singleton.mp hnew ▸ hc

theorem aside_noting {note : Except Error α → Call} {call : Action Device α}
    (hnote : ∀ r d, (note r).Excused d) (hcall : call.Keeps Device.Onward) :
    (noting note call).Keeps Aside :=
  fun p => ⟨hcall p.device, fun h => h.noting (hcall p.device) (hnote _ _)⟩

theorem aside_allocate (size : Nat) : (allocate size).Keeps Aside :=
  aside_noting (fun _ _ => trivial) fun d => (Device.idle_allocate size d).onward

theorem aside_release (id : BufferId) : (release id).Keeps Aside :=
  aside_noting (fun _ _ => trivial) fun d => (Device.idle_release id d).onward

theorem write_honest (h : p.Honest) {id : BufferId} {data : Bytes} {wait : List EventId}
    (ha : p.device.Aware wait) (hm : p.device.memory.Orderly)
    (hlive : (id, data.length) ∈ p.device.memory.live) (blocking : Bool) :
    (write id data wait blocking p).2.Honest :=
  h.noting (Device.still_write id data wait blocking p.device).onward
    (Device.write_excused ha hm hlive blocking)

theorem read_honest (h : p.Honest) {id : BufferId} {size hostSize offset length : Nat}
    {wait : List EventId} (ha : p.device.Aware wait) (hm : p.device.memory.Orderly)
    (hlive : (id, size) ∈ p.device.memory.live) (hlength : length ≤ size)
    (hhost : offset + length ≤ hostSize) (blocking : Bool) :
    (read id hostSize offset length wait blocking p).2.Honest :=
  h.noting (Device.still_read id hostSize offset length wait blocking p.device).onward
    (Device.read_excused ha hm hlive hlength hhost blocking)

-- The memory holds the same buffers, and no transfer was made without an excuse.
structure Still (p p' : Channel) : Prop where
  aside : Aside p p'
  alike : Memory.Alike p.device.memory p'.device.memory

theorem still_noting {note : Except Error α → Call} {call : Action Device α}
    (hnote : ∀ r d, (note r).Excused d) (hcall : call.Keeps Device.Still) :
    (noting note call).Keeps Still :=
  fun p => ⟨aside_noting hnote (fun d => (hcall d).onward) p, (hcall p.device).alike⟩

theorem still_lookup (name : String) : (lookup name).Keeps Still :=
  still_noting (fun _ _ => trivial)
    (.bind Device.still_lasting (.get Device.still_lasting) fun _ => .pure Device.still_lasting _)

theorem still_launch (kernel : Nat) (arguments : List BufferId) (geometry : Geometry)
    (wait : List EventId) : (launch kernel arguments geometry wait).Keeps Still :=
  still_noting (fun _ _ => trivial) (Device.still_launch kernel arguments geometry wait)

theorem still_barrier (wait : List EventId) : (barrier wait).Keeps Still :=
  still_noting (fun _ _ => trivial) (Device.still_barrier wait)

theorem still_marker (wait : List EventId) : (marker wait).Keeps Still :=
  still_noting (fun _ _ => trivial) (Device.still_barrier wait)

theorem still_resolve (e : EventId) : (resolve e).Keeps Still :=
  still_noting (fun _ _ => trivial) (Device.still_resolve e)

theorem still_wait (events : List EventId) : (Channel.wait events).Keeps Still :=
  still_noting (fun _ _ => trivial) (Device.still_wait events)

end Channel
end Offload
