import Offload.Device.Channel
import Offload.Proofs.Action

/-!
What a device was handed and what came of it: the wait lists of its commands and the statuses of their
events. Calls that are no commands leave all of that as it is.
-/

namespace Offload

-- The wait list of a call that hands the device a command.
def Call.waitList? : Call → Option (List EventId)
  | .write _ _ list _ _ | .read _ _ _ list _ _ | .launch _ _ _ list _ | .barrier list _
  | .marker list _ => some list
  | _ => none

structure Queue where
  handed : List (List EventId)
  events : List (EventId × EventStatus)
  next   : Nat

namespace Queue

def status? (q : Queue) (e : EventId) : Option EventStatus :=
  q.events.lookup e

def nextEvent (q : Queue) : EventId :=
  ⟨q.next⟩

-- What the next command waits for ended well; its own event does not count.
def Ready (q : Queue) (wait : List EventId) : Prop :=
  ∀ e ∈ wait, e ≠ q.nextEvent → q.status? e = some .complete

def issue (q : Queue) (wait : List EventId) (status : EventStatus) : Queue where
  handed := q.handed ++ [wait]
  events := (q.nextEvent, status) :: q.events
  next := q.next + 1

-- Other events keep their status.
theorem status?_issue_of_ne {q : Queue} {e : EventId} (hne : e ≠ q.nextEvent) (wait : List EventId)
    (status : EventStatus) : (q.issue wait status).status? e = q.status? e := by
  simp [status?, issue, List.lookup_cons, beq_false_of_ne hne]

theorem status?_issue {q : Queue} {e : EventId} (h : e.number < q.next) (wait : List EventId)
    (status : EventStatus) : (q.issue wait status).status? e = q.status? e := by
  refine status?_issue_of_ne (fun heq => ?_) wait status
  rw [heq] at h
  exact Nat.lt_irrefl _ h

theorem status?_nextEvent (q : Queue) (wait : List EventId) (status : EventStatus) :
    (q.issue wait status).status? q.nextEvent = some status := by
  simp [status?, issue]

-- A command was handed over, which got an event unless it was refused.
inductive Hands (wait : List EventId) (q : Queue) : Option EventId → Queue → Prop
  | issued (status : EventStatus) (hdone : status.isFinished)
    (hready : status = .complete → q.Ready wait) : Hands wait q (some q.nextEvent) (q.issue wait status)
  | refused : Hands wait q none { q with handed := q.handed ++ [wait] }

theorem Hands.handed_eq {wait : List EventId} {q q' : Queue} {e : Option EventId}
    (h : Hands wait q e q') : q'.handed = q.handed ++ [wait] := by
  cases h <;> rfl

end Queue

namespace Device

variable {α : Type}

-- Neither the events nor their count are touched.
def Idle (d d' : Device) : Prop :=
  d'.events = d.events ∧ d'.nextEvent = d.nextEvent

theorem idle_lasting : Action.Lasting Idle where
  refl _ := ⟨rfl, rfl⟩
  trans h h' := ⟨h'.1.trans h.1, h'.2.trans h.2⟩

-- A command ended, and the device recorded the status of its event.
def Advances (wait : List EventId) (d d' : Device) : Prop :=
  ∃ status : EventStatus, status.isFinished ∧
    (status = .complete → d.waitFault ⟨d.nextEvent⟩ wait = none) ∧
    d'.events = (⟨d.nextEvent⟩, status) :: d.events ∧ d'.nextEvent = d.nextEvent + 1

section

variable {wait : List EventId} {body : Memory → Except CommandFault α × Memory} {d : Device}
  {fault : CommandFault} {memory : Memory}

theorem submit_blocked (h : d.waitFault ⟨d.nextEvent⟩ wait = some fault) :
    submit wait body d = (⟨d.nextEvent⟩, .error fault, d.record (some fault) d.memory) := by
  simp [submit, h]

theorem submit_ok (h : d.waitFault ⟨d.nextEvent⟩ wait = none) {a : α}
    (hbody : body d.memory = (.ok a, memory)) :
    submit wait body d = (⟨d.nextEvent⟩, .ok a, d.record none memory) := by
  simp [submit, h, hbody]

theorem submit_failed (h : d.waitFault ⟨d.nextEvent⟩ wait = none)
    (hbody : body d.memory = (.error fault, memory)) :
    submit wait body d = (⟨d.nextEvent⟩, .error fault, d.record (some fault) memory) := by
  simp [submit, h, hbody]

theorem perform_ok {blocking : Bool} (h : d.waitFault ⟨d.nextEvent⟩ wait = none) {a : α}
    (hbody : body d.memory = (.ok a, memory)) :
    perform wait blocking body d = (.ok (⟨d.nextEvent⟩, some a), d.record none memory) := by
  unfold perform
  rw [Action.bind_of_ok (Action.get_apply d), submit_ok h hbody]
  rfl

theorem perform_blocked (h : d.waitFault ⟨d.nextEvent⟩ wait = some fault) :
    perform wait false body d = (.ok (⟨d.nextEvent⟩, none), d.record (some fault) d.memory) := by
  unfold perform
  rw [Action.bind_of_ok (Action.get_apply d), submit_blocked h]
  rfl

theorem perform_failed (h : d.waitFault ⟨d.nextEvent⟩ wait = none)
    (hbody : body d.memory = (.error fault, memory)) :
    perform wait false body d = (.ok (⟨d.nextEvent⟩, none), d.record (some fault) memory) := by
  unfold perform
  rw [Action.bind_of_ok (Action.get_apply d), submit_failed h hbody]
  rfl

end

theorem submit_advances (wait : List EventId) (body : Memory → Except CommandFault α × Memory)
    (d : Device) : Advances wait d (submit wait body d).2.2 := by
  cases hwait : d.waitFault ⟨d.nextEvent⟩ wait with
  | some fault =>
    rw [submit_blocked hwait]
    exact ⟨.failed fault, rfl, nofun, rfl, rfl⟩
  | none =>
    rcases hbody : body d.memory with ⟨fault | a, memory⟩
    case error =>
      rw [submit_failed hwait hbody]
      exact ⟨.failed fault, rfl, nofun, rfl, rfl⟩
    case ok =>
      rw [submit_ok hwait hbody]
      exact ⟨.complete, rfl, fun _ => hwait, rfl, rfl⟩

theorem perform_ends (wait : List EventId) (blocking : Bool)
    (body : Memory → Except CommandFault α × Memory) (d : Device) :
    (perform wait blocking body).Ends d fun r d' =>
      Advances wait d d' ∧ ∀ e a, r = .ok (e, a) → e = ⟨d.nextEvent⟩ := by
  have hadvances := submit_advances wait body d
  have hevent := submit_event wait body d
  unfold perform
  apply Action.Ends.bind_get
  generalize submit wait body d = submitted at *
  obtain ⟨own, outcome, d'⟩ := submitted
  cases outcome with
  | ok a =>
    refine ⟨hadvances, ?_⟩
    intro e a' h
    cases h
    exact hevent
  | error fault =>
    cases blocking with
    | false =>
      refine ⟨hadvances, ?_⟩
      intro e a' h
      cases h
      exact hevent
    | true => exact ⟨hadvances, nofun⟩

theorem idle_allocate (size : Nat) : (allocate size).Keeps Idle := by
  intro d
  unfold allocate
  apply Action.Ends.bind_get
  split
  case h_1 => exact ⟨rfl, rfl⟩
  case h_2 => exact ⟨rfl, rfl⟩

theorem idle_release (id : BufferId) : (release id).Keeps Idle :=
  Action.Keeps.modify fun _ => ⟨rfl, rfl⟩

theorem idle_resolve (e : EventId) : (resolve e).Keeps Idle := by
  intro d
  unfold resolve
  apply Action.Ends.bind_get
  split
  case h_1 => exact ⟨rfl, rfl⟩
  case h_2 => exact ⟨rfl, rfl⟩

theorem idle_wait (events : List EventId) : (wait events).Keeps Idle := by
  intro d
  unfold wait
  apply Action.Ends.bind_get
  split
  case h_1 => exact ⟨rfl, rfl⟩
  case h_2 => exact ⟨rfl, rfl⟩

end Device

namespace Channel

variable {α : Type}

def queue (p : Channel) : Queue where
  handed := p.journal.filterMap Call.waitList?
  events := p.device.events
  next := p.device.nextEvent

-- The queue is as it was.
def Quiet (p p' : Channel) : Prop :=
  p'.queue = p.queue

theorem noting_apply (note : Except Error α → Call) (call : Action Device α) (p : Channel) :
    noting note call p = ((call p.device).1,
      { device := (call p.device).2, journal := p.journal ++ [note (call p.device).1] }) :=
  rfl

theorem quiet_noting {note : Except Error α → Call} {call : Action Device α}
    (hnote : ∀ r, (note r).waitList? = none) (hcall : call.Keeps Device.Idle) :
    (noting note call).Keeps Quiet := by
  intro p
  have ⟨hevents, hnext⟩ := hcall p.device
  rw [Action.Ends, noting_apply]
  simp [Quiet, queue, hnote, hevents, hnext]

theorem quiet_allocate (size : Nat) : (allocate size).Keeps Quiet :=
  quiet_noting (fun _ => rfl) (Device.idle_allocate size)

theorem quiet_release (id : BufferId) : (release id).Keeps Quiet :=
  quiet_noting (fun _ => rfl) (Device.idle_release id)

theorem quiet_lookup (name : String) : (lookup name).Keeps Quiet :=
  quiet_noting (fun _ => rfl)
    (.bind Device.idle_lasting (.get Device.idle_lasting) fun _ => .pure Device.idle_lasting _)

theorem quiet_resolve (e : EventId) : (resolve e).Keeps Quiet :=
  quiet_noting (fun _ => rfl) (Device.idle_resolve e)

theorem quiet_wait (events : List EventId) : (wait events).Keeps Quiet :=
  quiet_noting (fun _ => rfl) (Device.idle_wait events)

theorem waitFault_eq_none_iff {p : Channel} {wait : List EventId} :
    p.device.waitFault ⟨p.device.nextEvent⟩ wait = none ↔ p.queue.Ready wait := by
  simp only [Device.waitFault, Option.map_eq_none_iff, List.find?_eq_none, Device.blocks,
    Bool.and_eq_true, decide_eq_true_eq, not_and, Classical.not_not]
  exact Iff.rfl

-- Hands the device a command with this wait list, and answers with its event if it answers.
def Hands (wait : List EventId) (event : α → EventId) (act : Action Channel α) : Prop :=
  ∀ p, act.Ends p fun r p' =>
    ∃ e, Queue.Hands wait p.queue e p'.queue ∧ ∀ a, r = .ok a → e = some (event a)

theorem queue_of_advances {wait : List EventId} {call : Call} {p : Channel} {d : Device}
    (hcall : call.waitList? = some wait) (h : Device.Advances wait p.device d) :
    Queue.Hands wait p.queue (some p.queue.nextEvent)
      ({ device := d, journal := p.journal ++ [call] } : Channel).queue := by
  obtain ⟨status, hdone, hready, hevents, hnext⟩ := h
  have hqueue : ({ device := d, journal := p.journal ++ [call] } : Channel).queue =
      p.queue.issue wait status := by
    simp [queue, Queue.issue, Queue.nextEvent, hcall, hevents, hnext]
  rw [hqueue]
  exact .issued status hdone fun hcomplete => waitFault_eq_none_iff.mp (hready hcomplete)

theorem hands_noting {wait : List EventId} {event : α → EventId} {note : Except Error α → Call}
    {call : Action Device α} (hnote : ∀ r, (note r).waitList? = some wait)
    (hcall : ∀ d, call.Ends d fun r d' =>
      Device.Advances wait d d' ∧ ∀ a, r = .ok a → event a = ⟨d.nextEvent⟩) :
    Hands wait event (noting note call) := by
  intro p
  have ⟨hadvances, hevent⟩ := hcall p.device
  refine ⟨_, queue_of_advances (hnote _) hadvances, fun a ha => ?_⟩
  rw [hevent a ha]
  rfl

theorem hands_write (id : BufferId) (data : Bytes) (wait : List EventId) (blocking : Bool) :
    Hands wait (fun e => e) (write id data wait blocking) := by
  apply hands_noting fun _ => rfl
  intro d
  unfold Device.write
  refine (Device.perform_ends wait blocking _ d).bind ?_ fun _ _ h => ⟨h.1, nofun⟩
  intro (e, a) d' ⟨hadvances, hevent⟩
  exact ⟨hadvances, fun e' h => Except.ok.inj h ▸ hevent e a rfl⟩

theorem hands_read (id : BufferId) (hostSize offset length : Nat) (wait : List EventId)
    (blocking : Bool) : Hands wait Prod.fst (read id hostSize offset length wait blocking) := by
  apply hands_noting fun _ => rfl
  intro d
  unfold Device.read
  exact (Device.perform_ends wait blocking _ d).mono fun r d' h => ⟨h.1, fun a ha => h.2 a.1 a.2 ha⟩

theorem device_barrier_ends (wait : List EventId) (d : Device) :
    (Device.barrier wait).Ends d fun r d' =>
      Device.Advances wait d d' ∧ ∀ e, r = .ok e → e = ⟨d.nextEvent⟩ := by
  unfold Device.barrier
  refine (Device.perform_ends wait false _ d).bind ?_ fun _ _ h => ⟨h.1, nofun⟩
  intro (e, a) d' ⟨hadvances, hevent⟩
  exact ⟨hadvances, fun e' h => Except.ok.inj h ▸ hevent e a rfl⟩

theorem hands_barrier (wait : List EventId) : Hands wait (fun e => e) (barrier wait) :=
  hands_noting (fun _ => rfl) (device_barrier_ends wait)

theorem hands_marker (wait : List EventId) : Hands wait (fun e => e) (marker wait) :=
  hands_noting (fun _ => rfl) (device_barrier_ends wait)

theorem device_launch_ends (kernel : Nat) (arguments : List BufferId) (geometry : Geometry)
    (wait : List EventId) (d : Device) :
    (Device.launch kernel arguments geometry wait).Ends d fun r d' =>
      (Device.Advances wait d d' ∧ ∀ e, r = .ok e → e = ⟨d.nextEvent⟩) ∨
        d' = d ∧ ∃ cause, r = .error cause := by
  unfold Device.launch
  apply Action.Ends.bind_get
  split
  case h_2 => exact .inr ⟨rfl, _, rfl⟩
  case h_1 =>
    refine (Device.perform_ends wait false _ d).bind ?_ fun _ _ h => .inl ⟨h.1, nofun⟩
    intro (e, a) d' ⟨hadvances, hevent⟩
    exact .inl ⟨hadvances, fun e' h => Except.ok.inj h ▸ hevent e a rfl⟩

-- A kernel that is not installed is refused, before there is an event.
theorem hands_launch (kernel : Nat) (arguments : List BufferId) (geometry : Geometry)
    (wait : List EventId) : Hands wait (fun e => e) (launch kernel arguments geometry wait) := by
  intro p
  rcases device_launch_ends kernel arguments geometry wait p.device with
    ⟨hadvances, hevent⟩ | ⟨hd, cause, hr⟩
  case inl =>
    refine ⟨_, queue_of_advances rfl hadvances, fun a ha => ?_⟩
    rw [hevent a ha]
    rfl
  case inr =>
    refine ⟨none, ?_, fun a ha => ?_⟩
    case refine_1 =>
      have hqueue : (launch kernel arguments geometry wait p).2.queue =
          { p.queue with handed := p.queue.handed ++ [wait] } := by
        rw [launch, noting_apply, hd]
        simp [queue, Call.waitList?]
      rw [hqueue]
      exact .refused
    case refine_2 => cases hr.symm.trans ha

-- A barrier has no body that could fail, so that its event ends as well as what it waits for.
theorem queue_barrier (wait : List EventId) (p : Channel) :
    ∃ (status : EventStatus) (p' : Channel), barrier wait p = (.ok p.queue.nextEvent, p') ∧
      status.isFinished ∧ (status = .complete ↔ p.queue.Ready wait) ∧
        p'.queue = p.queue.issue wait status ∧
        ∃ fault, p'.device = p.device.record fault p.device.memory := by
  have hqueue (status : EventStatus) (fault : Option CommandFault)
      (hstatus : (p.device.record fault p.device.memory).events =
        (⟨p.device.nextEvent⟩, status) :: p.device.events)
      (h : Device.barrier wait p.device =
        (.ok ⟨p.device.nextEvent⟩, p.device.record fault p.device.memory)) :
      ∃ p', barrier wait p = (.ok p.queue.nextEvent, p') ∧ p'.queue = p.queue.issue wait status ∧
        ∃ fault, p'.device = p.device.record fault p.device.memory := by
    refine ⟨_, by rw [barrier, noting_apply, h]; rfl, ?_, fault, rfl⟩
    simp only [queue, Queue.issue, Queue.nextEvent, hstatus, List.filterMap_append]
    rfl
  cases hfault : p.device.waitFault ⟨p.device.nextEvent⟩ wait with
  | none =>
    obtain ⟨p', hp', hissue⟩ := hqueue .complete none rfl (by
      unfold Device.barrier
      rw [Action.bind_of_ok (Device.perform_ok hfault rfl)]
      rfl)
    exact ⟨.complete, p', hp', rfl, ⟨fun _ => waitFault_eq_none_iff.mp hfault, fun _ => rfl⟩, hissue⟩
  | some fault =>
    obtain ⟨p', hp', hissue⟩ := hqueue (.failed fault) (some fault) rfl (by
      unfold Device.barrier
      rw [Action.bind_of_ok (Device.perform_blocked hfault)]
      rfl)
    refine ⟨.failed fault, p', hp', rfl, ⟨nofun, fun hready => ?_⟩, hissue⟩
    cases hfault.symm.trans (waitFault_eq_none_iff.mpr hready)

end Channel
end Offload
