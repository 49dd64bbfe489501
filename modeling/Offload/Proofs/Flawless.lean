import Offload.Proofs.Confined
import Offload.Proofs.Earning

/-!
What instructions do as long as nothing failed. Transfers and barriers do not fail by themselves, and a launch of a
task with exceptions is looked after: either its kernel ended well, or the failure is told at once and nothing else
was asked of the device.
-/

namespace Offload

-- The call was for a kernel, and was answered with this event.
def Call.Launches (e : EventId) : Call → Prop
  | .launch _ _ _ _ result => result = .ok e
  | _ => False

instance (e : EventId) (call : Call) : Decidable (call.Launches e) := by
  unfold Call.Launches
  split <;> infer_instance

theorem Call.event_eq_of_launches {call : Call} {e e' : EventId} (h : call.Launches e) (h' : call.Launches e') :
    e = e' := by
  cases call with
  | launch => exact Except.ok.inj (Eq.trans (Eq.symm h) h')
  | _ => exact h.elim

theorem Call.not_launches {call : Call} (h : call.waitList? = none) (e : EventId) : ¬call.Launches e := by
  cases call <;> first | exact id | cases h

theorem Call.Bufferless.not_launches {call : Call} (h : call.Bufferless) (e : EventId) : ¬call.Launches e := by
  cases call <;> first | exact id | exact h.elim

-- Copies have faults of their own.
theorem Memory.write_not_kernel (m : Memory) (id : BufferId) (data : Bytes) (fault : KernelFault) :
    m.write id data ≠ .error (.kernel fault) := by
  unfold write
  split
  case h_1 => nofun
  case h_2 => split <;> nofun

theorem Memory.read_not_kernel (m : Memory) (id : BufferId) (hostSize offset length : Nat) (fault : KernelFault) :
    m.read id hostSize offset length ≠ .error (.kernel fault) := by
  unfold read
  split
  case h_1 => nofun
  case h_2 =>
    split
    case isTrue => nofun
    case isFalse => split <;> nofun

namespace Device

variable {α : Type} {d d' : Device} {first : Nat} {e : EventId} {wait : List EventId}

-- Nothing failed since `first`.
def Flawless (d : Device) (first : Nat) : Prop :=
  ∀ e fault, first ≤ e.number → d.status? e ≠ some (.failed fault)

theorem Past.flawless (h : d.Past) : d.Flawless d.nextEvent := fun _ _ hfirst hstatus =>
  absurd (h _ (mem_of_status? hstatus)).1 (Nat.not_lt_of_le hfirst)

theorem Flawless.of_events (hevents : d'.events = d.events) (h : d.Flawless first) : d'.Flawless first := by
  intro e fault hfirst
  rw [status?, hevents]
  exact h e fault hfirst

theorem Flawless.complete (h : d.Flawless first) (hpast : d.Past) (hfirst : first ≤ e.number) (hknows : d.Knows e) :
    d.status? e = some .complete := by
  obtain ⟨status, hstatus⟩ := hknows
  have hdone := (hpast _ (mem_of_status? hstatus)).2
  cases status with
  | complete => exact hstatus
  | failed fault => exact absurd hstatus (h e fault hfirst)
  | queued | running => cases hdone

-- No kernel failed that had not failed before.
def Innocent (d d' : Device) : Prop :=
  ∀ e fault, d'.status? e = some (.failed (.kernel fault)) → d.status? e = some (.failed (.kernel fault))

theorem innocent_lasting : Action.Lasting Innocent where
  refl _ _ _ := id
  trans h h' e fault hstatus := h e fault (h' e fault hstatus)

-- Without a kernel to blame nothing fails.
theorem Innocent.flawless (h : d.Innocent d') (haccountable : d'.Accountable first) (hd : d.Flawless first) :
    d'.Flawless first := by
  have hnobody (e : EventId) : ¬d'.Blames first e := by
    intro hblames
    induction hblames with
    | own hfirst hstatus => exact hd _ _ hfirst (h _ _ hstatus)
    | passed _ _ _ ih => exact ih
  exact fun e fault hfirst hstatus => hnobody e (haccountable e fault hfirst hstatus)

theorem perform_innocent {body : Memory → Except CommandFault α × Memory}
    (hbody : ∀ m fault, (body m).1 ≠ .error (.kernel fault)) (wait : List EventId) (blocking : Bool) :
    (perform wait blocking body).Keeps Innocent := by
  intro d e fault hstatus
  rw [perform_device] at hstatus
  by_cases heq : e = ⟨d.nextEvent⟩
  case neg => rwa [status?_after_of_ne heq] at hstatus
  case pos =>
    subst heq
    rw [status?_after] at hstatus
    cases hwait : d.waitFault ⟨d.nextEvent⟩ wait with
    | some cause =>
      obtain ⟨w, -, rfl⟩ := Option.map_eq_some_iff.mp hwait
      rw [hwait] at hstatus
      cases hstatus
    | none =>
      simp only [hwait, Option.none_or] at hstatus
      cases hresult : (body d.memory).1 with
      | ok a =>
        rw [hresult] at hstatus
        cases hstatus
      | error cause =>
        rw [hresult] at hstatus
        cases hstatus
        exact absurd hresult (hbody d.memory fault)

theorem write_innocent (id : BufferId) (data : Bytes) (wait : List EventId) (blocking : Bool) :
    (write id data wait blocking).Keeps Innocent := by
  refine .bind innocent_lasting (perform_innocent (fun m fault => ?_) wait blocking) fun _ => .pure innocent_lasting _
  cases hwrite : m.write id data with
  | ok => nofun
  | error cause =>
    intro heq
    cases heq
    exact m.write_not_kernel id data fault hwrite

theorem read_innocent (id : BufferId) (hostSize offset length : Nat) (wait : List EventId) (blocking : Bool) :
    (read id hostSize offset length wait blocking).Keeps Innocent :=
  perform_innocent (fun m fault => m.read_not_kernel id hostSize offset length fault) wait blocking

-- A launch that is taken concerns no other event than its own.
theorem launch_others {kernel : Nat} {ids : List BufferId} {geometry : Geometry} :
    (launch kernel ids geometry wait).Ends d fun result d' => ∀ e, result = .ok e →
      ∀ other ≠ e, d'.status? other = d.status? other := by
  unfold launch
  refine Action.Ends.bind_get ?_
  split
  case h_2 =>
    intro e he
    cases he
  case h_1 =>
    have hothers {body : Memory → Except CommandFault Unit × Memory} :
        (perform wait false body).Ends d fun result d' => ∀ e a, result = .ok (e, a) →
          ∀ other ≠ e, d'.status? other = d.status? other := by
      intro e a he other hne
      rw [(perform_ends wait false body d).2 e a he] at hne
      rw [perform_device, status?_after_of_ne hne]
    refine hothers.bind (fun x d' h => ?_) fun _ _ _ e he => by cases he
    intro e he
    cases he
    exact h x.1 x.2 rfl

end Device

namespace Channel

variable {α : Type} {p p' p'' : Channel} {event : EventId}

-- No kernel was called for.
def Unlaunched (p p' : Channel) : Prop :=
  ∃ calls, p'.journal = p.journal ++ calls ∧ ∀ call ∈ calls, ∀ e, ¬call.Launches e

theorem unlaunched_lasting : Action.Lasting Unlaunched where
  refl _ := ⟨[], by simp, nofun⟩
  trans := by
    intro p p' p'' ⟨calls, hcalls, hnone⟩ ⟨calls', hcalls', hnone'⟩
    exact ⟨calls ++ calls', by rw [hcalls', hcalls, List.append_assoc], List.forall_mem_append.mpr ⟨hnone, hnone'⟩⟩

theorem unlaunched_noting {note : Except Error α → Call} {call : Action Device α}
    (hnote : ∀ r e, ¬(note r).Launches e) : (noting note call).Keeps Unlaunched :=
  fun _ => ⟨[_], rfl, List.forall_mem_singleton.mpr (hnote _)⟩

theorem unlaunched_allocate (size : Nat) : (allocate size).Keeps Unlaunched :=
  unlaunched_noting fun _ _ => id

theorem unlaunched_release (id : BufferId) : (release id).Keeps Unlaunched :=
  unlaunched_noting fun _ _ h => h

theorem unlaunched_write (id : BufferId) (data : Bytes) (wait : List EventId) (blocking : Bool) :
    (write id data wait blocking).Keeps Unlaunched :=
  unlaunched_noting fun _ _ h => h

theorem unlaunched_read (id : BufferId) (hostSize offset length : Nat) (wait : List EventId) (blocking : Bool) :
    (read id hostSize offset length wait blocking).Keeps Unlaunched :=
  unlaunched_noting fun _ _ h => h

-- The device was given nothing to do.
def Idles (p p' : Channel) : Prop :=
  ∃ calls, p'.journal = p.journal ++ calls ∧ ∀ call ∈ calls, call.waitList? = none

theorem idles_lasting : Action.Lasting Idles where
  refl _ := ⟨[], by simp, nofun⟩
  trans := by
    intro p p' p'' ⟨calls, hcalls, hnone⟩ ⟨calls', hcalls', hnone'⟩
    exact ⟨calls ++ calls', by rw [hcalls', hcalls, List.append_assoc], List.forall_mem_append.mpr ⟨hnone, hnone'⟩⟩

theorem Quiet.idles (h : p.Quiet p') (hstart : p.journal <+: p'.journal) : p.Idles p' := by
  obtain ⟨calls, hcalls⟩ := hstart
  refine ⟨calls, hcalls.symm, fun call hcall => ?_⟩
  have hhanded : p'.journal.filterMap Call.waitList? = p.journal.filterMap Call.waitList? := congrArg Queue.handed h
  rw [← hcalls, List.filterMap_append, List.append_right_eq_self, List.filterMap_eq_nil_iff] at hhanded
  exact hhanded call hcall

theorem Idles.unlaunched (h : p.Idles p') : p.Unlaunched p' := by
  obtain ⟨calls, hcalls, hnone⟩ := h
  exact ⟨calls, hcalls, fun call hcall => Call.not_launches (hnone call hcall)⟩

theorem Calm.unlaunched (h : p.Calm p') : p.Unlaunched p' := by
  obtain ⟨calls, hcalls, hnone⟩ := h.journal
  exact ⟨calls, hcalls, fun call hcall => (hnone call hcall).not_launches⟩

-- A kernel was called for, and the device was given nothing else to do.
def Launched (event : EventId) (p p' : Channel) : Prop :=
  ∃ before call after, p'.journal = p.journal ++ before ++ call :: after ∧ call.Launches event ∧
    (∀ x ∈ before, x.waitList? = none) ∧ ∀ x ∈ after, x.waitList? = none

theorem Launched.after_idle (h : Launched event p' p'') (hidle : p.Idles p') : Launched event p p'' := by
  obtain ⟨before, call, after, hcalls, hcall, hbefore, hafter⟩ := h
  obtain ⟨calls, hidle, hnone⟩ := hidle
  refine ⟨calls ++ before, call, after, ?_, hcall, List.forall_mem_append.mpr ⟨hnone, hbefore⟩, hafter⟩
  rw [hcalls, hidle, List.append_assoc p.journal]

theorem Launched.then_idle (h : Launched event p p') (hidle : p'.Idles p'') : Launched event p p'' := by
  obtain ⟨before, call, after, hcalls, hcall, hbefore, hafter⟩ := h
  obtain ⟨calls, hidle, hnone⟩ := hidle
  refine ⟨before, call, after ++ calls, ?_, hcall, hbefore, List.forall_mem_append.mpr ⟨hafter, hnone⟩⟩
  rw [hidle, hcalls, List.append_assoc, List.cons_append]

end Channel

namespace Context

variable {rest : Nat → List (BufferId × Nat)} {s t : Hosted Context} {A : Hosted Context → Deal → Prop} {place : Nat}
  {α : Type}

theorem Quiet.flawless (hquiet : Quiet place s t) {first : Nat} (h : (s.device place).Flawless first) :
    (t.device place).Flawless first :=
  h.of_events (congrArg Queue.events hquiet.platform.1)

theorem Quiet.status?_eq (hquiet : Quiet place s t) (e : EventId) :
    (t.device place).status? e = (s.device place).status? e := by
  have hevents : (t.device place).events = (s.device place).events := congrArg Queue.events hquiet.platform.1
  rw [Device.status?, hevents, Device.status?]

theorem Quiet.idles (hquiet : Quiet place s t) (hcalm : Calm s t) :
    (s.platform.channel place).Idles (t.platform.channel place) := by
  obtain ⟨calls, hcalls, -⟩ := (hcalm.channels place).journal
  exact Channel.Quiet.idles hquiet.platform.1 ⟨calls, hcalls.symm⟩

-- Of all deals only one calls for a kernel.
theorem Does.unlaunched {d : Deal} (hdoes : Does d s t) (hrun : ∀ task, d ≠ .run task) (place : Nat) :
    (s.platform.channel place).Unlaunched (t.platform.channel place) := by
  have hcall {β : Type} {act : Action Channel β} (h : act.Keeps Channel.Unlaunched) (other : Nat) :
      (s.platform.channel place).Unlaunched ((Platform.onChannel other act s.platform).2.channel place) :=
    Platform.rel_onChannel (R := Channel.Unlaunched) Channel.unlaunched_lasting.refl act s.platform other (h _) place
  cases hdoes with
  | attach => exact hcall (Channel.unlaunched_allocate _) _
  | detach => exact hcall (Channel.unlaunched_release _) _
  | fill => exact hcall (Channel.unlaunched_write _ _ _ _) _
  | miss => exact hcall (Channel.unlaunched_write _ _ _ _) _
  | run => exact absurd rfl (hrun _)
  | deliver =>
    rw [Platform.channel_readBack]
    exact hcall (Channel.unlaunched_read _ _ _ _ _ _) _
  | clear =>
    obtain ⟨calls, hcalls, -⟩ := (giveUpAll_adds (c := s.part) (p := s.platform) s.part.bindings place).journal
    exact (Channel.Quiet.idles (quiet_invalidate s).platform.1 ⟨calls, hcalls.symm⟩).unlaunched
  | mark | own | turn => exact Channel.unlaunched_lasting.refl _

theorem Deals.unlaunched (hdeals : Deals A s t) (hbooks : Books rest s) (hrun : ∀ u task, ¬A u (.run task))
    (place : Nat) : (s.platform.channel place).Unlaunched (t.platform.channel place) :=
  hdeals.keep (I := fun u => (s.platform.channel place).Unlaunched (u.platform.channel place)) hbooks
    (Channel.unlaunched_lasting.refl _)
    (fun _ _ hcalm hu => Channel.unlaunched_lasting.trans hu (hcalm.channels place).unlaunched)
    fun _ u _ _ hd hdoes hu => Channel.unlaunched_lasting.trans hu
      (hdoes.unlaunched (fun task heq => hrun u task (heq ▸ hd)) place)

-- At `place` no kernel failed.
def Innocent (place : Nat) (s t : Hosted Context) : Prop :=
  (s.device place).Innocent (t.device place)

theorem innocent_lasting (place : Nat) : Action.Lasting (Innocent place) where
  refl _ := Device.innocent_lasting.refl _
  trans := Device.innocent_lasting.trans

theorem innocent_of_quiet {act : On α} (h : act.Keeps (Quiet place)) : act.Keeps (Innocent place) := by
  intro s e fault hstatus
  rwa [(h s).status?_eq] at hstatus

theorem innocent_onTarget {note : Except Error α → Call} {call : Action Device α} (h : call.Keeps Device.Innocent)
    (tgt : Target) : (Machine.onTarget tgt (Channel.noting note call)).Keeps (Innocent place) := fun s =>
  Platform.rel_onChannel (R := fun p p' => p.device.Innocent p'.device) (fun _ => Device.innocent_lasting.refl _)
    (Channel.noting note call) s.platform tgt.place (h _) place

theorem innocent_readBack (other : Nat) (id : BufferId) (h : Handle) (offset length : Nat) (wait : List EventId)
    (blocking : Bool) : (Hosted.onPlatform (Platform.readBack other id h offset length wait blocking) :
      On EventId).Keeps (Innocent place) := by
  intro s
  have hread := Platform.channel_readBack other id h offset length wait blocking s.platform place
  have hinnocent := Platform.rel_onChannel (R := fun p p' => p.device.Innocent p'.device)
    (fun _ => Device.innocent_lasting.refl _)
    (Channel.read id (s.platform.registry.byteLength h) offset length wait blocking) s.platform other
    (Device.read_innocent _ _ _ _ _ _ _) place
  rwa [← hread] at hinnocent

end Context

namespace Machine

open Context

variable {rest : Nat → List (BufferId × Nat)} {s t : Hosted Context} {m : Machine} {r : Run} {i : Instruction}
  {k place device : Nat} {wait : List EventId}

theorem streamIn_innocent (object offset length : Nat) :
    (m.streamIn r object offset length wait).Keeps (Innocent place) := by
  have hR := innocent_lasting place
  refine .bind hR (.lift hR _) fun tgt => .bind hR (.get hR) fun _ => .bind hR (.lift hR _) fun _ =>
    .bind hR (innocent_of_quiet quiet_ensureBuffer) fun _ => .bind hR (.get hR) fun _ => .bind hR (.lift hR _) fun _ => ?_
  dsimp only
  split
  case isTrue => exact .pure hR _
  case isFalse =>
    exact .bind hR (.lift hR _) fun _ => .bind hR (innocent_onTarget (Device.write_innocent _ _ _ _) tgt) fun _ =>
      .bind hR (innocent_of_quiet (quiet_modifyContext fun _ => rfl)) fun _ =>
        .bind hR (innocent_of_quiet (m.quiet_count _)) fun _ => .pure hR _

theorem streamOut_innocent (object offset length : Nat) (blocking : Bool) :
    (m.streamOut r object offset length wait blocking).Keeps (Innocent place) := by
  have hR := innocent_lasting place
  refine .bind hR (.lift hR _) fun tgt => .bind hR (.get hR) fun _ => .bind hR (.lift hR _) fun _ => ?_
  dsimp only
  split
  case h_2 => exact .throw hR _
  case h_1 =>
    split
    case isTrue => exact .throw hR _
    case isFalse =>
      refine .bind hR (innocent_readBack _ _ _ _ _ _ _) fun _ => .bind hR (innocent_of_quiet (m.quiet_count _)) fun _ => ?_
      split
      case isTrue => exact .bind hR (.modify fun _ => Device.innocent_lasting.refl _) fun _ => .pure hR _
      case isFalse => exact .pure hR _

-- Only a launch lets a kernel fail.
theorem step_innocent (hnode : i.opcode.isNode) (hi : i.opcode ≠ .launch) :
    (m.step k i r).Keeps (Innocent place) := by
  have hR := innocent_lasting place
  have hrecord (r : Run) (event : Option EventId) : (m.record r k event).Keeps (Innocent place) :=
    innocent_of_quiet (quiet_record k event)
  cases i with
  | streamIn => exact .bind hR (streamIn_innocent _ _ _) fun _ => hrecord _ _
  | streamOut => exact .bind hR (streamOut_innocent _ _ _ _) fun _ => hrecord _ _
  | streamOutBlocking => exact .bind hR (streamOut_innocent _ _ _ _) fun _ => hrecord _ _
  | launch => exact absurd rfl hi
  | _ => cases hnode

-- And only a launch calls for one.
theorem step_unlaunched (hi : i.opcode ≠ .launch) (hbooks : Books rest s) (hplaced : r.Placed s)
    (hworks : i.WorksOn (r.target.map Target.index)) (place : Nat) :
    (m.step k i r).Ends s fun _ t => (s.platform.channel place).Unlaunched (t.platform.channel place) := by
  refine (step_deals hbooks hplaced hworks).mono fun _ _ ht => ht.1.unlaunched hbooks (fun u task hpermits => ?_) place
  cases i <;> first | exact hpermits.elim | exact absurd rfl hi

-- What comes of the launch of a task with exceptions.
inductive Watched (first place device : Nat) (task : Task) (s t : Hosted Context) : Except Error EventId → Prop
  | refused {e : Error} (hidle : (s.platform.channel place).Idles (t.platform.channel place)) :
    Watched first place device task s t (.error e)
  | done {event : EventId} (hlaunched : (s.platform.channel place).Launched event (t.platform.channel place))
    (hflawless : (t.device place).Flawless first) (hcomplete : (t.device place).status? event = some .complete) :
    Watched first place device task s t (.ok event)
  | failed {event : EventId} {fault : CommandFault}
    (hlaunched : (s.platform.channel place).Launched event (t.platform.channel place))
    (hfailed : (t.device place).status? event = some (.failed fault)) :
    Watched first place device task s t (.error (.device device event.number (.task task.id fault)))

theorem Reaches.unlaunched {is tail : List Instruction} {r' : Run} {s' : Hosted Context} (h : Reaches m k is r s r' s')
    (hi : ∀ i ∈ is, i.opcode ≠ .launch) (hbooks : Books rest s) (hfit : Run.Fit False (is ++ tail) r s) (place : Nat) :
    (s.platform.channel place).Unlaunched (s'.platform.channel place) := by
  induction h with
  | done => exact Channel.unlaunched_lasting.refl _
  | @step k i is r r₁ r' s s₁ s' hstep _ ih =>
    obtain ⟨hfirst, hlater⟩ := List.forall_mem_cons.mp hi
    obtain ⟨hsustains, hfits⟩ := (step_fit hbooks hfit).of_eq hstep
    exact Channel.unlaunched_lasting.trans
      ((step_unlaunched hfirst hbooks hfit.placed hfit.grounded.1 place).of_eq hstep)
      (ih hlater hsustains.books (hfits r₁ rfl).1)

theorem Readies.idles (h : Readies rest place s t) : (s.platform.channel place).Idles (t.platform.channel place) :=
  Channel.Quiet.idles h.quiet.platform.1 h.continues.journal

-- What the device makes of a launch whose kernel and buffers it has.
theorem launch_launched {kernel : Nat} {ids : List BufferId} {geometry : Geometry} {c : Channel} {first : Nat}
    (hawaits : c.device.Awaits first wait) {x : String × Kernel} (hkernel : c.device.kernels[kernel]? = some x)
    (hids : ∀ id ∈ ids, id ∈ c.device.memory.live.map Prod.fst) :
    (Channel.launch kernel ids geometry wait).Ends c fun result c' => ∃ event, result = .ok event ∧
      c.Launched event c' ∧ c'.device.Past ∧ c'.device.Knows event ∧
        ∀ e ≠ event, c'.device.status? e = c.device.status? e := by
  have haccountable : (Device.launch kernel ids geometry wait).Ends c.device _ :=
    Device.launch_accountable hawaits hkernel hids
  obtain ⟨-, event, hok, -, hknows⟩ := haccountable
  have honward := (Device.still_launch kernel ids geometry wait c.device).onward
  have hothers := Device.launch_others event hok
  refine ⟨event, hok, ⟨[], .launch kernel ids geometry wait _, [], ?_, hok, nofun, nofun⟩,
    honward.past hawaits.aware.past, hknows, hothers⟩
  rw [List.append_nil]
  rfl

theorem launch_watched {task offset threads first : Nat} {t' : Task} (hbooks : Books rest s)
    (hactive : s.part.active = some device) (hdevice : s.part.devices[device]? = some place) (hlearned : Learned s)
    (hawaits : (s.device place).Awaits first wait) (hflawless : (s.device place).Flawless first)
    (ht : s.part.tasks[task]? = some t') (hexceptions : t'.exceptions) (happart : t'.Apart)
    (hbound : ∀ a ∈ t'.arguments, a.object.handle ∈ s.part.objects.map HostObject.handle) :
    (m.launch task device offset threads wait).Ends s fun result t => Watched first place device t' s t result := by
  unfold launch
  refine (kernel_mishap m.config.tuning first [] hbooks hdevice hlearned ht).bind (fun kernel u ⟨hu, hkernel, _⟩ => ?_)
    fun e u ⟨hu, _⟩ => .refused hu.idles
  have hawaitsᵤ := hu.quiet.awaits hawaits
  have hdeviceᵤ := hu.schooled.devices ▸ hdevice
  have htᵤ := hu.schooled.tasks ▸ ht
  refine Action.Ends.bind_get (Action.Ends.bind_of_ok (a := place) (t := u) (by rw [place_ok.mpr hdeviceᵤ]; rfl) ?_)
  refine Action.Ends.bind_get (Action.Ends.bind_of_ok (a := t') (t := u) (by rw [task_ok.mpr htᵤ]; rfl) ?_)
  refine (argumentBuffers_mishap m.config.tuning first [] hu.upholds.books (hu.upholds.active.trans hactive)
    hdeviceᵤ happart (hu.schooled.objects ▸ hbound)).bind (fun ids v ⟨hv, hids, _⟩ => ?_) fun e v ⟨hv, _⟩ =>
      .refused (Channel.idles_lasting.trans hu.idles hv.idles)
  have hidle := Channel.idles_lasting.trans hu.idles hv.idles
  have hquiet := (quiet_lasting place).trans hu.quiet hv.quiet
  have hdeviceᵥ := hv.schooled.devices ▸ hdeviceᵤ
  refine Action.Ends.bind_get (Action.Ends.bind_lift (fun geometry _ => ?_) fun e _ => .refused hidle)
  obtain ⟨x, hx⟩ := hkernel kernel rfl
  have hkernels : (v.device place).kernels = (u.device place).kernels :=
    congrArg Make.kernels (hv.schooled.same place)
  refine ((onDevice_ends hdeviceᵥ (hv.upholds.books.attached _ (List.mem_of_getElem? hdeviceᵥ))
    (launch_launched (hv.quiet.awaits hawaitsᵤ) (hkernels ▸ hx) (hids ids rfl))).and_keeps
      (still_onDevice (P := False) (Channel.still_launch _ _ _ _) device)).bind (fun event w ⟨hw, hstill⟩ => ?_)
        fun _ _ ⟨⟨_, hok, _⟩, _⟩ => by cases hok
  obtain ⟨_, hok, hlaunched, hpast, hknows, hothers⟩ := hw
  cases hok
  refine (count_ends m _ place w).and_keeps (calm_count m _) |>.bind (fun _ x ⟨⟨_, hquietₓ⟩, hcalmₓ⟩ => ?_)
    fun _ _ ⟨⟨hok, _⟩, _⟩ => by cases hok
  dsimp only
  rw [if_pos hexceptions]
  have hdeviceₓ := hquietₓ.devices ▸ hstill.devices ▸ hdeviceᵥ
  have hltₓ := hquietₓ.platform.2 ▸ hstill.channels ▸ hv.upholds.books.attached _ (List.mem_of_getElem? hdeviceᵥ)
  have hpastₓ : (x.device place).Past := (hcalmₓ.channels place).device.onward.past hpast
  rcases hcheck : checkLaunch device t' event x with ⟨result, y⟩
  have hquiet' : Quiet place x y := (quiet_checkLaunch device t' event).of_eq hcheck
  have hcalm' := (calm_checkLaunch device t' event).of_eq hcheck
  have hlaunched : (s.platform.channel place).Launched event (y.platform.channel place) :=
    (hlaunched.after_idle hidle).then_idle
      (Channel.idles_lasting.trans (hquietₓ.idles hcalmₓ) (hquiet'.idles hcalm'))
  cases result with
  | error e =>
    obtain ⟨fault, rfl, hfailed⟩ := (checkLaunch_error hdeviceₓ hltₓ (hquietₓ.knows hknows) t').of_eq hcheck e rfl
    refine Action.Ends.bind_of_error hcheck (.failed hlaunched ?_)
    rwa [hquiet'.status?_eq]
  | ok =>
    have hcomplete := checkLaunch_complete hdeviceₓ hpastₓ hcheck
    refine Action.Ends.bind_of_ok hcheck (Action.Ends.bind_modify (.done hlaunched (fun e fault hfirst hstatus => ?_)
      hcomplete))
    by_cases heq : e = event
    case pos =>
      subst heq
      cases hcomplete.symm.trans hstatus
    case neg =>
      refine hquiet.flawless hflawless e fault hfirst ?_
      have hstatus : (y.device place).status? e = some (.failed fault) := hstatus
      rw [hquiet'.status?_eq, hquietₓ.status?_eq] at hstatus
      exact (hothers e heq).symm.trans hstatus

end Machine
end Offload
