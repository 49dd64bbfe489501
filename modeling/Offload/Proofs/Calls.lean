import Offload.Machine
import Offload.Proofs.Queue

/-!
Which calls reach the queue of a device when a context or a machine does something. Most of what they
do is quiet; each transfer and each launch hands over one command, with the wait list it was given.
-/

namespace Offload

namespace Platform

variable {α : Type} {place : Nat}

theorem channel_setChannel {p : Platform} (h : place < p.channels.length) (c : Channel) :
    (p.setChannel place c).channel place = c := by
  simp [channel, setChannel, List.getD_eq_getElem?_getD, h]

theorem channel_setChannel_ne {p : Platform} {other : Nat} (h : other ≠ place) (c : Channel) :
    (p.setChannel other c).channel place = p.channel place := by
  simp [channel, setChannel, List.getD_eq_getElem?_getD, List.getElem?_set_ne h]

theorem length_setChannel (p : Platform) (c : Channel) :
    (p.setChannel place c).channels.length = p.channels.length := by
  simp [setChannel]

-- The queue at `place` is as it was, and no device came or went.
def Quiet (place : Nat) (p p' : Platform) : Prop :=
  Channel.Quiet (p.channel place) (p'.channel place) ∧ p'.channels.length = p.channels.length

theorem quiet_lasting (place : Nat) : Action.Lasting (Quiet place) where
  refl _ := ⟨rfl, rfl⟩
  trans h h' := ⟨h'.1.trans h.1, h'.2.trans h.2⟩

theorem onChannel_apply (other : Nat) (act : Action Channel α) (p : Platform) :
    onChannel other act p =
      ((act (p.channel other)).1, p.setChannel other (act (p.channel other)).2) :=
  rfl

theorem quiet_onChannel {act : Action Channel α} (h : act.Keeps Channel.Quiet) (other : Nat) :
    (onChannel other act).Keeps (Quiet place) := by
  intro p
  rw [Action.Ends, onChannel_apply]
  refine ⟨?_, length_setChannel _ _⟩
  by_cases hother : other = place
  case neg => rw [Channel.Quiet, channel_setChannel_ne hother]
  case pos =>
    subst hother
    by_cases hlt : other < p.channels.length
    case pos =>
      rw [channel_setChannel hlt]
      exact h (p.channel other)
    case neg =>
      -- there is no such device, and nothing is put back
      rw [setChannel, List.set_eq_of_length_le (Nat.le_of_not_lt hlt)]
      rfl

theorem hands_onChannel {wait : List EventId} {event : α → EventId} {act : Action Channel α}
    (h : Channel.Hands wait event act) {p : Platform} (hplace : place < p.channels.length) :
    (onChannel place act).Ends p fun r p' =>
      (∃ e, Queue.Hands wait (p.channel place).queue e (p'.channel place).queue ∧
        ∀ a, r = .ok a → e = some (event a)) ∧ p'.channels.length = p.channels.length := by
  rw [Action.Ends, onChannel_apply]
  refine ⟨?_, length_setChannel _ _⟩
  rw [channel_setChannel hplace]
  exact h (p.channel place)

theorem hands_readBack {wait : List EventId} {p : Platform} (hplace : place < p.channels.length)
    (id : BufferId) (h : Handle) (offset length : Nat) (blocking : Bool) :
    (readBack place id h offset length wait blocking).Ends p fun r p' =>
      (∃ e, Queue.Hands wait (p.channel place).queue e (p'.channel place).queue ∧
        ∀ a, r = .ok a → e = some a) ∧ p'.channels.length = p.channels.length := by
  unfold readBack
  apply Action.Ends.bind_get
  refine (hands_onChannel (Channel.hands_read id _ offset length wait blocking) hplace).bind ?_
    fun _ _ ⟨⟨e, hqueue, _⟩, hlength⟩ => ⟨⟨e, hqueue, nofun⟩, hlength⟩
  intro (event, data) p' ⟨⟨e, hqueue, he⟩, hlength⟩
  cases he _ rfl
  cases data with
  | none => exact ⟨⟨some event, hqueue, fun a ha => congrArg some (Except.ok.inj ha)⟩, hlength⟩
  | some data => exact ⟨⟨some event, hqueue, fun a ha => congrArg some (Except.ok.inj ha)⟩, hlength⟩

end Platform

namespace Hosted

def queue {α : Type} (place : Nat) (s : Hosted α) : Queue :=
  (s.platform.channel place).queue

end Hosted

namespace Context

theorem place_ok {c : Context} {device place : Nat} :
    c.place device = .ok place ↔ c.devices[device]? = some place := by
  unfold Context.place
  cases c.devices[device]? <;> simp [pure, Except.pure, throw, throwThe, MonadExceptOf.throw]

theorem devices_markWritten (c : Context) (t : Task) (offset : Nat) :
    (c.markWritten t offset).devices = c.devices := by
  have hargument (c : Context) (a : Argument) : (c.markArgument offset a).devices = c.devices := by
    unfold markArgument
    split
    case h_1 => split <;> rfl
    case h_2 => rfl
  unfold markWritten
  induction t.arguments generalizing c with
  | nil => rfl
  | cons a arguments ih => rw [List.foldl_cons, ih, hargument]

section

variable {device index size : Nat} {b : Binding} {s : Hosted Context}

def allocateBuffer (device index size : Nat) (h : Handle) : On BufferId := do
  let buffer ← tryCatch (onDevice device (Channel.allocate size)) fun e => throw (nameObject h e)
  modifyContext (·.modifyState index (·.attach buffer size))
  return buffer

def replaceBuffer (device index size : Nat) (b : Binding) : On BufferId := do
  let _ ← (← get).part.place device
  if let some old := b.state.buffer then
    modifyContext (·.modifyState index ObjectState.detach)
    onDevice device (Channel.release old)
  allocateBuffer device index size b.object.handle

theorem ensureBuffer_of_fits (hb : s.part.binding index = .ok b) {buffer : BufferId}
    (hbuffer : b.state.buffer = some buffer) (hsize : b.state.size = size) :
    ensureBuffer device index size s = (.ok buffer, s) := by
  unfold ensureBuffer
  rw [Action.bind_of_ok (Action.get_apply s), hb, Action.bind_of_ok (Action.lift_apply _ s)]
  simp only [hbuffer, hsize]
  rfl

theorem ensureBuffer_of_differs (hb : s.part.binding index = .ok b)
    (h : b.state.buffer.isSome → b.state.size ≠ size) :
    ensureBuffer device index size s = replaceBuffer device index size b s := by
  unfold ensureBuffer
  rw [Action.bind_of_ok (Action.get_apply s), hb, Action.bind_of_ok (Action.lift_apply _ s)]
  cases hbuffer : b.state.buffer with
  | none => simp only [replaceBuffer, hbuffer]; rfl
  | some old =>
    have hsize := h (by rw [hbuffer]; rfl)
    simp only [replaceBuffer, hbuffer, if_neg hsize]
    rfl

theorem ensureBuffer_of_missing {e : Error} (hb : s.part.binding index = .error e) :
    ensureBuffer device index size s = (.error e, s) := by
  unfold ensureBuffer
  rw [Action.bind_of_ok (Action.get_apply s), hb, Action.bind_of_error (Action.lift_apply _ s)]

-- A buffer of the size asked for stays as it is. Any other is replaced, and so is none.
theorem ensureBuffer_ends_of_bound {Q : Except Error BufferId → Hosted Context → Prop}
    (hb : s.part.binding index = .ok b)
    (hfits : ∀ id, b.state.buffer = some id → b.state.size = size → Q (.ok id) s)
    (hdiffers : (b.state.buffer.isSome → b.state.size ≠ size) →
      (replaceBuffer device index size b).Ends s Q) :
    (ensureBuffer device index size).Ends s Q := by
  rw [Action.Ends]
  by_cases h : b.state.buffer.isSome → b.state.size ≠ size
  case pos =>
    rw [ensureBuffer_of_differs hb h]
    exact hdiffers h
  case neg =>
    obtain ⟨hsome, hsize⟩ := Classical.not_imp.mp h
    obtain ⟨id, hid⟩ := Option.isSome_iff_exists.mp hsome
    have hsame := Classical.not_not.mp hsize
    rw [ensureBuffer_of_fits hb hid hsame]
    exact hfits id hid hsame

theorem ensureBuffer_ends {Q : Except Error BufferId → Hosted Context → Prop}
    (hmissing : ∀ e, s.part.binding index = .error e → Q (.error e) s)
    (hfits : ∀ b id, s.part.binding index = .ok b → b.state.buffer = some id → b.state.size = size →
      Q (.ok id) s)
    (hdiffers : ∀ b, s.part.binding index = .ok b → (b.state.buffer.isSome → b.state.size ≠ size) →
      (replaceBuffer device index size b).Ends s Q) :
    (ensureBuffer device index size).Ends s Q := by
  cases hb : s.part.binding index with
  | error e =>
    rw [Action.Ends, ensureBuffer_of_missing hb]
    exact hmissing e hb
  | ok b => exact ensureBuffer_ends_of_bound hb (fun id => hfits b id hb) (hdiffers b hb)

-- What the parts of an action keep, all of it keeps.
variable {R : Hosted Context → Hosted Context → Prop} {task : Nat}

theorem activate_keeps (hR : Action.Lasting R) (hinvalidate : invalidate.Keeps R)
    (hset : (modifyContext fun c => { c with active := some device }).Keeps R) : (activate device).Keeps R := by
  refine .bind hR (.get hR) fun _ => .bind hR (.lift hR _) fun _ => .bind hR (.get hR) fun s => ?_
  dsimp only
  split
  case h_2 => exact hset
  case h_1 =>
    split
    case isTrue => exact .bind hR hinvalidate fun _ => hset
    case isFalse => exact hset

theorem kernel_keeps (hR : Action.Lasting R) (hlookup : ∀ name, (onDevice device (Channel.lookup name)).Keeps R)
    (hnote : ∀ kernel, (modifyContext fun c =>
      { c with kernels := ((device, task), kernel) :: c.kernels }).Keeps R) : (kernel device task).Keeps R := by
  refine .bind hR (.get hR) fun s => ?_
  dsimp only
  split
  case h_1 => exact .pure hR _
  case h_2 =>
    refine .bind hR (.lift hR _) fun t => .bind hR (.lift hR _) fun _ => .bind hR (hlookup _) fun found => ?_
    split
    case h_1 => exact .bind hR (hnote _) fun _ => .pure hR _
    case h_2 => exact .bind hR (.get hR) fun _ => .throw hR _

theorem ensureBuffer_keeps (hR : Action.Lasting R) (hstate : ∀ f, (modifyContext (·.modifyState index f)).Keeps R)
    (hallocate : (onDevice device (Channel.allocate size)).Keeps R)
    (hrelease : ∀ id, (onDevice device (Channel.release id)).Keeps R) :
    (ensureBuffer device index size).Keeps R := by
  have hnew (h : Handle) : (allocateBuffer device index size h).Keeps R :=
    .bind hR (.tryCatch hR hallocate fun _ => .throw hR _) fun _ => .bind hR (hstate _) fun _ => .pure hR _
  have hreplace (b : Binding) : (replaceBuffer device index size b).Keeps R := by
    refine .bind hR (.get hR) fun _ => .bind hR (.lift hR _) fun _ => ?_
    dsimp only
    split
    case h_1 => exact .bind hR (hstate _) fun _ => .bind hR (hrelease _) fun _ => hnew _
    case h_2 => exact hnew _
  exact fun s => ensureBuffer_ends (fun _ _ => hR.refl s) (fun _ _ _ _ _ => hR.refl s)
    fun b _ _ => hreplace b s

end

variable {α β : Type} {place : Nat}

structure Quiet (place : Nat) (s t : Hosted Context) : Prop where
  platform : Platform.Quiet place s.platform t.platform
  devices  : t.part.devices = s.part.devices

theorem Quiet.queue_eq {s t : Hosted Context} (h : Quiet place s t) : t.queue place = s.queue place :=
  h.platform.1

theorem quiet_lasting (place : Nat) : Action.Lasting (Quiet place) where
  refl _ := ⟨(Platform.quiet_lasting place).refl _, rfl⟩
  trans h h' := ⟨(Platform.quiet_lasting place).trans h.platform h'.platform,
    h'.devices.trans h.devices⟩

theorem quiet_onPlatform {act : Action Platform α} (h : act.Keeps (Platform.Quiet place)) :
    (Hosted.onPlatform act : On α).Keeps (Quiet place) :=
  fun s => ⟨h s.platform, rfl⟩

theorem quiet_modifyContext {f : Context → Context} (h : ∀ c, (f c).devices = c.devices) :
    (modifyContext f).Keeps (Quiet place) :=
  .modify fun s => ⟨(Platform.quiet_lasting place).refl _, h s.part⟩

theorem quiet_onDevice {act : Action Channel α} (h : act.Keeps Channel.Quiet) (device : Nat) :
    (onDevice device act).Keeps (Quiet place) :=
  have hR := quiet_lasting place
  .bind hR (.get hR) fun _ => .bind hR (.lift hR _) fun _ =>
    quiet_onPlatform (Platform.quiet_onChannel h _)

theorem quiet_giveUp (c : Context) (p : Platform) (b : Binding) :
    Platform.Quiet place p (c.giveUp p b) := by
  have hclear (active : Nat) (p' : Platform) (h : Platform.Quiet place p p') : Platform.Quiet place p
      (if (p'.registry.record? b.object.handle).bind Ownership.owner = some active then
        { p' with registry := p'.registry.clearOwner b.object.handle }
      else p') := by
    split <;> exact h
  unfold giveUp
  cases hactive : c.active with
  | none => exact (Platform.quiet_lasting place).refl p
  | some active =>
    apply hclear
    split
    case h_1 => exact Platform.quiet_onChannel (Channel.quiet_release _) _ p
    case h_2 => exact (Platform.quiet_lasting place).refl p

theorem quiet_invalidate : invalidate.Keeps (Quiet place) := by
  have hfold (c : Context) (bindings : List Binding) (p : Platform) :
      Platform.Quiet place p (bindings.foldl c.giveUp p) := by
    induction bindings generalizing p with
    | nil => exact (Platform.quiet_lasting place).refl p
    | cons b bindings ih => exact (Platform.quiet_lasting place).trans (quiet_giveUp c p b) (ih _)
  exact .modify fun s => ⟨hfold s.part s.part.bindings s.platform, rfl⟩

theorem quiet_activate (device : Nat) : (activate device).Keeps (Quiet place) :=
  activate_keeps (quiet_lasting place) quiet_invalidate (quiet_modifyContext fun _ => rfl)

theorem quiet_kernel (device task : Nat) : (kernel device task).Keeps (Quiet place) :=
  kernel_keeps (quiet_lasting place) (fun _ => quiet_onDevice (Channel.quiet_lookup _) device)
    fun _ => quiet_modifyContext fun _ => rfl

theorem quiet_ensureBuffer {device index size : Nat} : (ensureBuffer device index size).Keeps (Quiet place) :=
  ensureBuffer_keeps (quiet_lasting place) (fun _ => quiet_modifyContext fun _ => rfl)
    (quiet_onDevice (Channel.quiet_allocate size) device) fun id => quiet_onDevice (Channel.quiet_release id) device

-- A command with this wait list was handed over, and nothing else.
structure Handed (place : Nat) (wait : List EventId) (e : Option EventId) (s t : Hosted Context) :
    Prop where
  queue    : Queue.Hands wait (s.queue place) e (t.queue place)
  channels : t.platform.channels.length = s.platform.channels.length
  devices  : t.part.devices = s.part.devices

namespace Handed

variable {wait : List EventId} {e : Option EventId} {s t u : Hosted Context}

theorem after_quiet (h : Handed place wait e t u) (hq : Quiet place s t) : Handed place wait e s u where
  queue := by
    have hqueue : t.queue place = s.queue place := hq.platform.1
    exact hqueue ▸ h.queue
  channels := h.channels.trans hq.platform.2
  devices := h.devices.trans hq.devices

theorem then_quiet (h : Handed place wait e s t) (hq : Quiet place t u) : Handed place wait e s u where
  queue := by
    have hqueue : u.queue place = t.queue place := hq.platform.1
    exact hqueue ▸ h.queue
  channels := hq.platform.2.trans h.channels
  devices := hq.devices.trans h.devices

end Handed

-- Either nothing was handed over, or one command was; what is answered is that command's event, unless
-- the command blocked and its event is of no more use.
def Outcome (place : Nat) (wait : List EventId) (blocking : Bool) (s : Hosted Context)
    (r : Except Error (Option EventId)) (t : Hosted Context) : Prop :=
  (Quiet place s t ∧ ∀ e, r ≠ .ok (some e)) ∨
    ∃ e, Handed place wait e s t ∧
      ∀ a, r = .ok a → e.isSome ∧ (a = e ∨ blocking = true ∧ a = none)

theorem Outcome.after_quiet {wait : List EventId} {blocking : Bool} {s t u : Hosted Context}
    {r : Except Error (Option EventId)} (h : Outcome place wait blocking t r u)
    (hq : Quiet place s t) : Outcome place wait blocking s r u := by
  rcases h with ⟨hquiet, hr⟩ | ⟨e, hhanded, hr⟩
  case inl => exact .inl ⟨(quiet_lasting place).trans hq hquiet, hr⟩
  case inr => exact .inr ⟨e, hhanded.after_quiet hq, hr⟩

namespace Outcome

variable {wait : List EventId} {blocking : Bool} {s t : Hosted Context}
  {r : Except Error (Option EventId)}

theorem frame (h : Outcome place wait blocking s r t) :
    t.platform.channels.length = s.platform.channels.length ∧ t.part.devices = s.part.devices := by
  rcases h with ⟨hq, _⟩ | ⟨_, hh, _⟩
  case inl => exact ⟨hq.platform.2, hq.devices⟩
  case inr => exact ⟨hh.channels, hh.devices⟩

theorem next_le (h : Outcome place wait blocking s r t) :
    (s.queue place).next ≤ (t.queue place).next := by
  rcases h with ⟨hq, _⟩ | ⟨_, hh, _⟩
  case inl => exact Nat.le_of_eq (congrArg Queue.next hq.platform.1.symm)
  case inr =>
    have hqueue := hh.queue
    generalize t.queue place = q at hqueue
    cases hqueue with
    | issued => exact Nat.le_succ _
    | refused => exact Nat.le_refl _

-- An event that is answered is the one of the command, and has its status by now.
theorem of_some {e : EventId} (h : Outcome place wait blocking s (.ok (some e)) t) :
    ∃ status : EventStatus, status.isFinished ∧
      (status = .complete → (s.queue place).Ready wait) ∧ e = (s.queue place).nextEvent ∧
      t.queue place = (s.queue place).issue wait status := by
  rcases h with ⟨_, hnone⟩ | ⟨e', hh, he⟩
  case inl => exact absurd rfl (hnone e)
  case inr =>
    obtain ⟨_, rfl | ⟨_, hnone⟩⟩ := he _ rfl
    case inr => cases hnone
    case inl =>
      have hqueue := hh.queue
      generalize ht : t.queue place = q at hqueue
      cases hqueue with
      | issued status hdone hready => exact ⟨status, hdone, hready, rfl, rfl⟩

theorem of_none (h : Outcome place wait false s (.ok none) t) : Quiet place s t := by
  rcases h with ⟨hq, _⟩ | ⟨e', _, he⟩
  case inl => exact hq
  case inr =>
    obtain ⟨hsome, rfl | ⟨hfalse, _⟩⟩ := he _ rfl
    case inl => cases hsome
    case inr => cases hfalse

theorem status?_eq (h : Outcome place wait blocking s r t) {e : EventId}
    (he : e.number < (s.queue place).next) :
    (t.queue place).status? e = (s.queue place).status? e := by
  rcases h with ⟨hq, _⟩ | ⟨e', hh, _⟩
  case inl => rw [show t.queue place = s.queue place from hq.platform.1]
  case inr =>
    have hqueue := hh.queue
    generalize t.queue place = q at hqueue
    cases hqueue with
    | refused => rfl
    | issued status => exact Queue.status?_issue he _ _

end Outcome

-- What comes of an action, where `event?` picks the event out of its result.
def Issues (place : Nat) (wait : List EventId) (blocking : Bool) (event? : α → Option EventId)
    (act : On α) (s : Hosted Context) : Prop :=
  act.Ends s fun r t => Outcome place wait blocking s (r.map event?) t

section

variable {wait : List EventId} {blocking : Bool} {event? : β → Option EventId} {s : Hosted Context}

theorem Issues.bind_quiet {x : On α} {f : α → On β} (hx : x.Keeps (Quiet place))
    (hf : ∀ a t, Quiet place s t → Issues place wait blocking event? (f a) t) :
    Issues place wait blocking event? (x >>= f) s :=
  (hx s).bind (fun a t hq => (hf a t hq).mono fun _ _ h => h.after_quiet hq)
    fun _ _ hq => .inl ⟨hq, nofun⟩

theorem Issues.bind_get {f : Hosted Context → On β} (h : Issues place wait blocking event? (f s) s) :
    Issues place wait blocking event? (get >>= f) s :=
  Action.Ends.bind_get h

theorem Issues.bind_lift {x : Except Error α} {f : α → On β}
    (h : ∀ a, x = .ok a → Issues place wait blocking event? (f a) s) :
    Issues place wait blocking event? (liftM x >>= f) s :=
  Action.Ends.bind_lift h fun _ _ => .inl ⟨(quiet_lasting place).refl s, nofun⟩

theorem Issues.throw (e : Error) : Issues place wait blocking event? (throw e) s :=
  .inl ⟨(quiet_lasting place).refl s, nofun⟩

-- A command and what follows it, which may answer with its event or with none.
theorem Issues.bind_command {c : α → EventId} {x : On α} {f : α → On β}
    (hx : x.Ends s fun r t => ∃ e, Handed place wait e s t ∧ ∀ a, r = .ok a → e = some (c a))
    (hf : ∀ a, (f a).Keeps (Quiet place))
    (hevent : ∀ a, (f a).Gives fun b =>
      event? b = some (c a) ∨ blocking = true ∧ event? b = none) :
    Issues place wait blocking event? (x >>= f) s := by
  refine hx.bind ?_ fun e t h => ?_
  case refine_2 =>
    obtain ⟨e, hhanded, _⟩ := h
    exact .inr ⟨e, hhanded, nofun⟩
  case refine_1 =>
    intro a t ⟨e, hhanded, he⟩
    refine .inr ⟨e, hhanded.then_quiet (hf a t), fun e' hr => ?_⟩
    rw [he a rfl]
    cases hb : (f a t).1 with
    | error => rw [hb] at hr; cases hr
    | ok b =>
      rw [hb] at hr
      cases hr
      exact ⟨rfl, hevent a t b hb⟩

end

theorem handed_onPlatform {wait : List EventId} {event : α → EventId} {act : Action Platform α}
    {s : Hosted Context}
    (h : act.Ends s.platform fun r p =>
      (∃ e, Queue.Hands wait (s.platform.channel place).queue e (p.channel place).queue ∧
        ∀ a, r = .ok a → e = some (event a)) ∧ p.channels.length = s.platform.channels.length) :
    (Hosted.onPlatform act : On α).Ends s fun r t =>
      ∃ e, Handed place wait e s t ∧ ∀ a, r = .ok a → e = some (event a) := by
  obtain ⟨⟨e, hqueue, he⟩, hlength⟩ := h
  exact ⟨e, ⟨hqueue, hlength, rfl⟩, he⟩

end Context

namespace Machine

open Context (On onDevice modifyContext Quiet quiet_lasting Handed Outcome Issues)

variable {α β : Type} {place : Nat}

theorem quiet_count (m : Machine) (f : Counters → Counters) : (m.count f).Keeps (Quiet place) := by
  have hR := quiet_lasting place
  unfold count
  split
  case isTrue => exact .modify fun s => ⟨(Platform.quiet_lasting place).refl _, rfl⟩
  case isFalse => exact .pure hR _

section

variable {R : Hosted Context → Hosted Context → Prop} {device : Nat}

theorem argumentBuffer_keeps (hR : Action.Lasting R)
    (hensure : ∀ index size, (Context.ensureBuffer device index size).Keeps R) (threads : Nat) (a : Argument) :
    (argumentBuffer device threads a).Keeps R := by
  refine .bind hR (.get hR) fun _ => .bind hR (.lift hR _) fun _ => .bind hR (.lift hR _) fun _ => ?_
  dsimp only
  split
  case h_2 => exact hensure _ _
  case h_1 =>
    split
    case isTrue => exact .pure hR _
    case isFalse => exact hensure _ _

theorem checkLaunch_keeps {event : EventId} (hR : Action.Lasting R)
    (hwait : (onDevice device (Channel.wait [event])).Keeps R)
    (hresolve : (onDevice device (Channel.resolve event)).Keeps R) (t : Task) :
    (checkLaunch device t event).Keeps R := by
  refine .bind hR hwait fun _ => .bind hR hresolve fun _ => ?_
  split
  case h_1 => exact .throw hR _
  case h_2 => exact .pure hR _

end

theorem quiet_argumentBuffer (device threads : Nat) (a : Argument) :
    (argumentBuffer device threads a).Keeps (Quiet place) :=
  argumentBuffer_keeps (quiet_lasting place) (fun _ _ => Context.quiet_ensureBuffer) threads a

theorem quiet_checkLaunch (device : Nat) (t : Task) (event : EventId) :
    (checkLaunch device t event).Keeps (Quiet place) :=
  checkLaunch_keeps (quiet_lasting place) (Context.quiet_onDevice (Channel.quiet_wait _) device)
    (Context.quiet_onDevice (Channel.quiet_resolve _) device) t

section

variable {m : Machine} {r : Run} {t : Target} {wait : List EventId} {s : Hosted Context}

theorem device_eq (h : r.target = some t) : r.device = .ok t := by
  rw [Run.device, h]
  rfl

theorem onTarget_command {event : α → EventId} {act : Action Channel α}
    (h : Channel.Hands wait event act) (hplace : t.place < s.platform.channels.length) :
    (onTarget t act).Ends s fun r u =>
      ∃ e, Handed t.place wait e s u ∧ ∀ a, r = .ok a → e = some (event a) :=
  Context.handed_onPlatform (Platform.hands_onChannel h hplace)

theorem onDevice_command {event : α → EventId} {act : Action Channel α} {device : Nat}
    (h : Channel.Hands wait event act) (hdevice : s.part.place device = .ok place)
    (hplace : place < s.platform.channels.length) :
    (onDevice device act).Ends s fun r u =>
      ∃ e, Handed place wait e s u ∧ ∀ a, r = .ok a → e = some (event a) := by
  unfold onDevice
  apply Action.Ends.bind_get
  rw [hdevice]
  refine Action.Ends.bind_lift (fun a ha => ?_) fun _ he => nomatch he
  cases ha
  exact Context.handed_onPlatform (Platform.hands_onChannel h hplace)

theorem streamIn_issues (ht : r.target = some t) (hplace : t.place < s.platform.channels.length)
    (object offset length : Nat) :
    Issues t.place wait false (fun e => e) (m.streamIn r object offset length wait) s := by
  unfold streamIn
  rw [device_eq ht]
  refine .bind_lift fun _ htarget => ?_
  cases htarget
  refine .bind_get (.bind_lift fun b _ => ?_)
  refine .bind_quiet Context.quiet_ensureBuffer fun buffer u hu => .bind_get (.bind_lift fun b' _ => ?_)
  dsimp only
  split
  case isTrue => exact .inl ⟨(quiet_lasting t.place).refl u, nofun⟩
  case isFalse =>
    refine .bind_lift fun data _ => ?_
    have hplace' : t.place < u.platform.channels.length := hu.platform.2 ▸ hplace
    refine .bind_command (onTarget_command (Channel.hands_write _ _ _ _) hplace') ?_ ?_
    case refine_1 =>
      intro event
      have hR := quiet_lasting t.place
      exact .bind hR (Context.quiet_modifyContext fun _ => rfl) fun _ =>
        .bind hR (m.quiet_count _) fun _ => .pure hR _
    case refine_2 =>
      exact fun event => .bind fun _ => .bind fun _ => .pure (.inl rfl)

theorem launch_issues {device : Nat} (hdevice : s.part.place device = .ok place)
    (hplace : place < s.platform.channels.length) (task offset threads : Nat) :
    Issues place wait false some (m.launch task device offset threads wait) s := by
  have hR := quiet_lasting place
  unfold launch
  refine .bind_quiet (Context.quiet_kernel device task) fun kernel u hu => ?_
  refine .bind_get (.bind_lift fun place' _ => .bind_get (.bind_lift fun task' _ => ?_))
  refine .bind_quiet (.mapM hR (quiet_argumentBuffer device threads) _) fun buffers v hv => ?_
  refine .bind_get (.bind_lift fun geometry _ => ?_)
  have hquiet := hR.trans hu hv
  have hdevice' : v.part.place device = .ok place := by
    rw [Context.place_ok, hquiet.devices]
    exact Context.place_ok.mp hdevice
  have hplace' : place < v.platform.channels.length := hquiet.platform.2 ▸ hplace
  refine .bind_command (onDevice_command (Channel.hands_launch _ _ _ _) hdevice' hplace') ?_ ?_
  case refine_1 =>
    intro event
    have hmark : (do
        modifyContext (·.markWritten task' offset)
        return event : On EventId).Keeps (Quiet place) :=
      .bind hR (Context.quiet_modifyContext fun c => c.devices_markWritten task' offset) fun _ =>
        .pure hR _
    refine .bind hR (m.quiet_count _) fun _ => ?_
    dsimp only
    split
    case isTrue => exact .bind hR (quiet_checkLaunch _ _ _) fun _ => hmark
    case isFalse => exact hmark
  case refine_2 =>
    intro event
    have hmark : (do
        modifyContext (·.markWritten task' offset)
        return event : On EventId).Gives fun b =>
          some b = some event ∨ false = true ∧ some b = none :=
      .bind fun _ => .pure (.inl rfl)
    refine .bind fun _ => ?_
    dsimp only
    split
    case isTrue => exact .bind fun _ => hmark
    case isFalse => exact hmark

theorem streamOut_issues (ht : r.target = some t) (hplace : t.place < s.platform.channels.length)
    (object offset length : Nat) (blocking : Bool) :
    Issues t.place wait blocking Prod.fst (m.streamOut r object offset length wait blocking) s := by
  have hR := quiet_lasting t.place
  unfold streamOut
  rw [device_eq ht]
  refine .bind_lift fun _ htarget => ?_
  cases htarget
  refine .bind_get (.bind_lift fun b _ => ?_)
  dsimp only
  split
  case h_2 => exact .throw _
  case h_1 =>
    split
    case isTrue => exact .throw _
    case isFalse =>
      refine .bind_command (c := fun e => e)
        (Context.handed_onPlatform (Platform.hands_readBack hplace _ _ _ _ _)) ?_ ?_
      case refine_1 =>
        intro event
        refine .bind hR (m.quiet_count _) fun _ => ?_
        split
        case isTrue =>
          exact .bind hR (.modify fun _ => ⟨(Platform.quiet_lasting _).refl _, rfl⟩) fun _ =>
            .pure hR _
        case isFalse => exact .pure hR _
      case refine_2 =>
        intro event
        refine .bind fun _ => ?_
        split
        case isTrue hblocking => exact .bind fun _ => .pure (.inr ⟨hblocking, rfl⟩)
        case isFalse => exact .pure (.inl rfl)

-- A stream-out has an event to record unless it blocked.
theorem streamOut_gives (object offset length : Nat) (blocking : Bool) :
    (m.streamOut r object offset length wait blocking).Gives fun result =>
      (blocking = false → result.1.isSome) ∧ ∃ pending, result.2 = { r with pending } := by
  unfold streamOut
  refine .bind fun _ => .bind fun _ => .bind fun _ => ?_
  dsimp only
  split
  case h_2 => exact .throw _
  case h_1 =>
    split
    case isTrue => exact .throw _
    case isFalse =>
      refine .bind fun _ => .bind fun _ => ?_
      split
      case isTrue hblocking =>
        refine .bind fun _ => .pure ⟨?_, r.pending, rfl⟩
        simp [hblocking]
      case isFalse => exact .pure ⟨fun _ => rfl, _, rfl⟩

end
end Machine
end Offload
