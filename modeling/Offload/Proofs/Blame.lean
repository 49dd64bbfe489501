import Offload.Proofs.Landing
import Offload.Proofs.Poison

/-!
Who is to blame when commands fail. As long as every command finds its buffers and waits for nothing but what was
issued since, the first failure of all is that of a kernel, and every other one goes back to such a failure.
-/

namespace Offload

-- A kernel that finds all its buffers fails for reasons of its own.
theorem Memory.fault_of_run {m : Memory} {code : Kernel} {ids : List BufferId} {geometry : Geometry}
    {fault : CommandFault} (hids : ∀ id ∈ ids, id ∈ m.live.map Prod.fst)
    (h : (m.run code ids geometry).1 = some fault) : ∃ f, fault = .kernel f := by
  have hall : ids.findIdx? (fun id => (m.buffer? id).isNone) = none := by
    rw [List.findIdx?_eq_none_iff]
    intro id hid
    rw [Option.isNone_eq_false_iff, Option.isSome_iff_ne_none]
    exact fun hnone => buffer?_eq_none_iff.mp hnone (hids id hid)
  unfold run gather at h
  rw [hall] at h
  obtain ⟨f, _, hf⟩ := Option.map_eq_some_iff.mp h
  exact ⟨f, hf.symm⟩

namespace Device

variable {α : Type} {d d' : Device} {first : Nat} {e : EventId} {wait : List EventId} {b : Body}

-- The command failed because a kernel did: its own, or that of one that it waited for, both no older than `first`.
inductive Blames (d : Device) (first : Nat) : EventId → Prop
  | own {e : EventId} {fault : KernelFault} (hfirst : first ≤ e.number)
    (h : d.status? e = some (.failed (.kernel fault))) : Blames d first e
  | passed {e w : EventId} (hfirst : first ≤ e.number)
    (h : d.status? e = some (.failed (.dependency w.number))) (hw : Blames d first w) : Blames d first e

theorem Onward.blames (h : Onward d d') (hp : d.Past) (he : d.Blames first e) : d'.Blames first e := by
  induction he with
  | own hfirst hstatus => exact .own hfirst (h.status?_eq hp hstatus)
  | passed hfirst hstatus _ ih => exact .passed hfirst (h.status?_eq hp hstatus) ih

-- For all that failed since `first` there is a kernel to blame.
def Accountable (d : Device) (first : Nat) : Prop :=
  ∀ e fault, first ≤ e.number → d.status? e = some (.failed fault) → d.Blames first e

theorem Blames.of_events (hevents : d'.events = d.events) (h : d.Blames first e) : d'.Blames first e := by
  induction h with
  | own hfirst hstatus => exact .own hfirst (by rwa [status?, hevents])
  | passed hfirst hstatus _ ih => exact .passed hfirst (by rwa [status?, hevents]) ih

theorem Accountable.of_events (hevents : d'.events = d.events) (h : d.Accountable first) :
    d'.Accountable first := by
  intro e fault hfirst hstatus
  rw [status?, hevents] at hstatus
  exact (h e fault hfirst hstatus).of_events hevents

-- Nothing failed yet.
theorem Past.accountable (h : d.Past) : d.Accountable d.nextEvent := by
  intro e fault hfirst hstatus
  exact absurd (h _ (mem_of_status? hstatus)).1 (Nat.not_lt_of_le hfirst)

-- A command that waits for nothing but what it knows of, and what was issued since `first`.
structure Awaits (d : Device) (first : Nat) (wait : List EventId) : Prop where
  aware       : d.Aware wait
  recent      : ∀ w ∈ wait, first ≤ w.number
  begun       : first ≤ d.nextEvent
  accountable : d.Accountable first

theorem status?_record_of_ne (fault : Option CommandFault) (memory : Memory) (hne : e ≠ ⟨d.nextEvent⟩) :
    (d.record fault memory).status? e = d.status? e := by
  have hevents : (d.record fault memory).status? e = List.lookup e ((⟨d.nextEvent⟩, _) :: d.events) := rfl
  rw [hevents, List.lookup_cons, beq_eq_false_iff_ne.mpr hne]
  rfl

theorem status?_after_of_ne (hne : e ≠ ⟨d.nextEvent⟩) : (d.after b).status? e = d.status? e := by
  unfold after
  cases d.waitFault ⟨d.nextEvent⟩ b.wait with
  | some fault => exact status?_record_of_ne (some fault) d.memory hne
  | none => exact status?_record_of_ne b.fault b.memory hne

-- The next command is to blame a kernel for its failure, unless another one did it already.
theorem Awaits.after (h : d.Awaits first b.wait) (hbody : ∀ fault, b.fault = some fault → ∃ f, fault = .kernel f) :
    (d.after b).Accountable first := by
  have honward := onward_after d b
  intro e fault hfirst hstatus
  by_cases heq : e = ⟨d.nextEvent⟩
  case neg =>
    rw [status?_after_of_ne heq] at hstatus
    exact honward.blames h.aware.past (h.accountable e fault hfirst hstatus)
  case pos =>
    subst heq
    have hafter := status?_after d b
    cases hwait : d.waitFault ⟨d.nextEvent⟩ b.wait with
    | none =>
      rw [hwait, Option.none_or] at hafter
      cases hfault : b.fault with
      | none =>
        rw [hfault] at hafter
        cases hafter.symm.trans hstatus
      | some _ =>
        obtain ⟨f, rfl⟩ := hbody _ hfault
        rw [hfault] at hafter
        exact .own hfirst hafter
    | some _ =>
      obtain ⟨w, hw, rfl, fault', hfailed⟩ := fault_of_waitFault h.aware hwait
      rw [hwait] at hafter
      exact .passed hfirst hafter (honward.blames h.aware.past (h.accountable w fault' (h.recent w hw) hfailed))

-- The error tells of a command that failed, for which a kernel is to blame.
def Reports (d : Device) (first : Nat) (e : Error) : Prop :=
  ∃ event fault, e = .device d.index event.number fault ∧ d.status? event = some (.failed fault) ∧
    d.Blames first event

theorem perform_error {blocking : Bool} {body : Memory → Except CommandFault α × Memory} {e : Error}
    (h : perform wait blocking body d = (.error e, d')) : blocking = true ∧ d'.index = d.index ∧
      ∃ fault, e = .device d.index d.nextEvent fault ∧ d'.status? ⟨d.nextEvent⟩ = some (.failed fault) := by
  have hreported {fault : CommandFault} {memory : Memory}
      (h : (if blocking then throw (.device d.index d.nextEvent fault) else pure (⟨d.nextEvent⟩, none) :
        Action Device (EventId × Option α)) (d.record (some fault) memory) = (.error e, d')) :
      blocking = true ∧ d'.index = d.index ∧
        ∃ fault, e = .device d.index d.nextEvent fault ∧ d'.status? ⟨d.nextEvent⟩ = some (.failed fault) := by
    cases blocking <;> cases h
    exact ⟨rfl, rfl, fault, rfl, status?_record d (some fault) memory⟩
  unfold perform at h
  rw [Action.bind_of_ok (Action.get_apply d)] at h
  cases hwait : d.waitFault ⟨d.nextEvent⟩ wait with
  | some fault =>
    rw [submit_blocked hwait] at h
    exact hreported h
  | none =>
    rcases hbody : body d.memory with ⟨fault | a, memory⟩
    case error =>
      rw [submit_failed hwait hbody] at h
      exact hreported h
    case ok =>
      rw [submit_ok hwait hbody] at h
      cases h

-- Whoever is told of a failure is told of one that a kernel is to blame for.
theorem perform_accountable {body : Memory → Except CommandFault α × Memory} (h : d.Awaits first wait)
    (hbody : ∀ fault, (body d.memory).1 = .error fault → ∃ f, fault = .kernel f) (blocking : Bool) :
    (perform wait blocking body).Ends d fun r d' => d'.Accountable first ∧
      ∀ e, r = .error e → blocking = true ∧ d'.Reports first e := by
  have haccountable : (perform wait blocking body d).2.Accountable first := by
    rw [perform_device]
    refine Awaits.after h fun fault hfault => hbody fault ?_
    dsimp only at hfault
    split at hfault
    case h_1 => cases hfault
    case h_2 fault' heq =>
      cases hfault
      exact heq
  refine ⟨haccountable, fun e he => ?_⟩
  obtain ⟨hblocking, hindex, fault, rfl, hstatus⟩ := perform_error (Prod.ext he rfl)
  exact ⟨hblocking, ⟨d.nextEvent⟩, fault, by rw [hindex], hstatus, haccountable _ fault h.begun hstatus⟩

theorem write_accountable {id : BufferId} {data : Bytes} (h : d.Awaits first wait) (hm : d.memory.Orderly)
    (hlive : (id, data.length) ∈ d.memory.live) (blocking : Bool) :
    (write id data wait blocking).Ends d fun r d' => d'.Accountable first ∧
      ∀ e, r = .error e → blocking = true ∧ d'.Reports first e := by
  obtain ⟨memory, hwrite⟩ := Memory.write_live hm hlive
  refine (perform_accountable h (fun fault hfault => ?_) blocking).bind (fun _ _ ht => ⟨ht.1, nofun⟩) fun _ _ ht =>
    ⟨ht.1, fun e he => ht.2 e (by cases he; rfl)⟩
  rw [hwrite] at hfault
  cases hfault

theorem read_accountable {id : BufferId} {size hostSize offset length : Nat} (h : d.Awaits first wait)
    (hm : d.memory.Orderly) (hlive : (id, size) ∈ d.memory.live) (hlength : length ≤ size)
    (hhost : offset + length ≤ hostSize) (blocking : Bool) :
    (read id hostSize offset length wait blocking).Ends d fun r d' => d'.Accountable first ∧
      ∀ e, r = .error e → blocking = true ∧ d'.Reports first e := by
  obtain ⟨data, hread⟩ := Memory.read_live hm hlive hlength hhost
  refine perform_accountable h (fun fault hfault => ?_) blocking
  rw [hread] at hfault
  cases hfault

theorem barrier_accountable (h : d.Awaits first wait) :
    (barrier wait).Ends d fun _ d' => d'.Accountable first :=
  (perform_accountable h (fun _ hfault => by cases hfault) false).bind (fun _ _ ht => ht.1) fun _ _ ht => ht.1

-- What nobody waits for gets an event, whatever comes of it.
theorem perform_queued {body : Memory → Except CommandFault α × Memory} (h : d.Awaits first wait)
    (hbody : ∀ fault, (body d.memory).1 = .error fault → ∃ f, fault = .kernel f) :
    (perform wait false body).Ends d fun r d' => d'.Accountable first ∧
      ∃ (e : EventId) (a : Option α), r = .ok (e, a) ∧ first ≤ e.number ∧ d'.Knows e := by
  have hperform := perform_accountable h hbody false
  have hdevice := perform_device wait false body d
  have hevent := perform_ends wait false body d
  rcases hp : perform wait false body d with ⟨e | ⟨event, a⟩, d'⟩
  case error => exact absurd ((hperform.of_eq hp).2 e rfl).1 Bool.false_ne_true
  case ok =>
    have hnext : event = ⟨d.nextEvent⟩ := (hevent.of_eq hp).2 event a rfl
    replace hdevice : d' = d.after _ := (congrArg Prod.snd hp).symm.trans hdevice
    have hknown : d'.Knows event := by
      rw [hdevice, hnext]
      exact ⟨_, status?_after d _⟩
    rw [Action.Ends, hp]
    exact ⟨(hperform.of_eq hp).1, event, a, rfl, hnext ▸ h.begun, hknown⟩

-- So does the launch of a kernel that is there.
theorem launch_accountable {kernel : Nat} {ids : List BufferId} {geometry : Geometry} (h : d.Awaits first wait)
    {x : String × Kernel} (hkernel : d.kernels[kernel]? = some x)
    (hids : ∀ id ∈ ids, id ∈ d.memory.live.map Prod.fst) :
    (launch kernel ids geometry wait).Ends d fun r d' => d'.Accountable first ∧
      ∃ e : EventId, r = .ok e ∧ first ≤ e.number ∧ d'.Knows e := by
  unfold launch
  refine Action.Ends.bind_get ?_
  rw [hkernel]
  refine (perform_queued h fun fault hfault => ?_).bind (fun x d' hd => ?_) fun _ _ hd => ?_
  case refine_1 =>
    rcases hrun : d.memory.run x.2 ids geometry with ⟨_ | fault', memory⟩
    case none => simp [hrun] at hfault
    case some =>
      simp only [hrun, Except.error.injEq] at hfault
      exact hfault ▸ Memory.fault_of_run hids (congrArg Prod.fst hrun)
  case refine_2 =>
    obtain ⟨haccountable, event, _, hok, hfirst, hknows⟩ := hd
    cases hok
    exact ⟨haccountable, event, rfl, hfirst, hknows⟩
  case refine_3 =>
    obtain ⟨_, _, _, hok, _⟩ := hd
    cases hok

end Device
end Offload
