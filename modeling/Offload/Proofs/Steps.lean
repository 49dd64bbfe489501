import Offload.Proofs.Calls

/-!
The instructions of a machine one after the other: what each of them records, what it hands to the
device, and what is reached by issuing several of them.
-/

namespace Offload.Machine

open Context (On Quiet quiet_lasting Outcome Issues)

variable {m : Machine} {r r' r'' : Run} {s s' s'' : Hosted Context} {k : Nat} {i : Instruction}
  {is js : List Instruction}

-- Issuing `is`, of which the first is instruction `k`, takes a run to another.
inductive Reaches (m : Machine) : (k : Nat) → List Instruction → Run → Hosted Context → Run →
    Hosted Context → Prop
  | done {k : Nat} {r : Run} {s : Hosted Context} : Reaches m k [] r s r s
  | step {k : Nat} {i : Instruction} {is : List Instruction} {r r' r'' : Run}
    {s s' s'' : Hosted Context} (h : m.step k i r s = (.ok r', s'))
    (hrest : Reaches m (k + 1) is r' s' r'' s'') : Reaches m k (i :: is) r s r'' s''

theorem add_length_cons (k : Nat) (i : Instruction) (is : List Instruction) :
    k + (i :: is).length = k + 1 + is.length := by
  rw [List.length_cons]
  omega

namespace Reaches

theorem append (h : Reaches m k is r s r' s') (h' : Reaches m (k + is.length) js r' s' r'' s'') :
    Reaches m k (is ++ js) r s r'' s'' := by
  induction h with
  | done => exact h'
  | step hi _ ih =>
    refine .step hi (ih ?_)
    rwa [add_length_cons] at h'

theorem split (h : Reaches m k (is ++ js) r s r'' s'') :
    ∃ r' s', Reaches m k is r s r' s' ∧ Reaches m (k + is.length) js r' s' r'' s'' := by
  induction is generalizing k r s with
  | nil => exact ⟨r, s, .done, h⟩
  | cons i is ih =>
    cases h with
    | step hi hrest =>
      obtain ⟨r', s', his, hjs⟩ := ih hrest
      refine ⟨r', s', .step hi his, ?_⟩
      rwa [add_length_cons]

end Reaches

-- An execution that does not fail passes through one run after another.
theorem steps_ok : m.steps k is r s = (.ok r'', s'') ↔ Reaches m k is r s r'' s'' := by
  induction is generalizing k r s with
  | nil =>
    constructor
    case mp =>
      intro h
      cases h
      exact .done
    case mpr =>
      intro h
      cases h
      rfl
  | cons i is ih =>
    unfold steps
    rw [Action.bind_ok]
    constructor
    case mp =>
      intro ⟨r', s', hi, hrest⟩
      refine .step ?_ (ih.mp hrest)
      rcases hstep : m.step k i r s with ⟨e | r₁, s₁⟩
      case error =>
        rw [Action.tryCatch_of_error hstep] at hi
        obtain ⟨_, _, _, hthrow⟩ := Action.bind_ok.mp hi
        cases hthrow
      case ok => rwa [Action.tryCatch_of_ok hstep] at hi
    case mpr =>
      intro h
      cases h with
      | step hi hrest => exact ⟨_, _, Action.tryCatch_of_ok hi, ih.mpr hrest⟩

-- Every execution runs through what is reached by its first instructions, whether it fails or not.
theorem steps_append (h : Reaches m k is r s r' s') :
    m.steps k (is ++ js) r s = m.steps (k + is.length) js r' s' := by
  induction h with
  | done => rfl
  | step hi _ ih =>
    rw [List.cons_append, steps, Action.bind_of_ok (Action.tryCatch_of_ok hi), ih, add_length_cons]

-- The first instruction that fails ends the execution, and the context gives its buffers back.
theorem steps_of_error {e : Error} {u : Hosted Context} (h : m.step k i r s = (.error e, u)) :
    m.steps k (i :: is) r s = (.error (e.atInstruction k i.opcode), (Context.invalidate u).2) := by
  unfold steps
  refine Action.bind_of_error ?_
  rw [Action.tryCatch_of_error h]
  rfl

-- What a run has on record after instruction `k` was issued as a command.
structure Recorded (k : Nat) (i : Instruction) (r r' : Run) : Prop where
  lists  : r'.lists = (r.consume i.wait?).lists
  target : r'.target = r.target
  final  : r'.final = r.final
  events : r'.events = r.events ++ (r'.last.map (k, ·)).toList

theorem record_apply (r : Run) (k : Nat) (event : Option EventId) :
    (r.record k event).lists = r.lists ∧ (r.record k event).target = r.target ∧
      (r.record k event).final = r.final ∧ (r.record k event).last = event ∧
      (r.record k event).events = r.events ++ (event.map (k, ·)).toList := by
  cases event <;> simp [Run.record]

theorem recorded_consume (r : Run) (k : Nat) (i : Instruction) (pending : List Handle)
    (event : Option EventId) :
    Recorded k i r ({ r.consume i.wait? with pending }.record k event) := by
  have hconsume : (r.consume i.wait?).target = r.target ∧ (r.consume i.wait?).final = r.final ∧
      (r.consume i.wait?).events = r.events := by
    cases i.wait? <;> exact ⟨rfl, rfl, rfl⟩
  have ⟨hlists, htarget, hfinal, hlast, hevents⟩ :=
    record_apply { r.consume i.wait? with pending } k event
  exact ⟨hlists, htarget.trans hconsume.1, hfinal.trans hconsume.2.1, by
    rw [hevents, hlast]; exact congrArg (· ++ _) hconsume.2.2⟩

theorem record_gives (P : Run → Prop) {index : Nat} {event : Option EventId}
    (h : P (r.record index event)) : (m.record r index event).Gives P := by
  unfold record
  exact .bind fun _ => .pure h

theorem quiet_record {place : Nat} (index : Nat) (event : Option EventId) :
    (m.record r index event).Keeps (Quiet place) := by
  have hR := quiet_lasting place
  unfold record
  exact .bind hR (m.quiet_count _) fun _ => .pure hR _

theorem issues_record {place : Nat} {wait : List EventId} {blocking : Bool} {α : Type}
    {event? : α → Option EventId} {act : On α} (h : Issues place wait blocking event? act s)
    {f : α → On Run}
    (hquiet : ∀ a, (f a).Keeps (Quiet place))
    (hlast : ∀ a, (f a).Gives fun r' => r'.last = event? a) :
    Issues place wait blocking Run.last (act >>= f) s := by
  refine Action.Ends.bind h (fun a t ha => ?_) fun e t he => ?_
  case refine_2 =>
    rcases he with ⟨hq, _⟩ | ⟨e', hh, _⟩
    case inl => exact .inl ⟨hq, nofun⟩
    case inr => exact .inr ⟨e', hh, nofun⟩
  case refine_1 =>
    have hevent (x : Option EventId) (hr : ((f a t).1).map Run.last = .ok x) : event? a = x := by
      cases hb : (f a t).1 with
      | error => rw [hb] at hr; cases hr
      | ok b =>
        rw [hb] at hr
        exact (hlast a t b hb).symm.trans (Except.ok.inj hr)
    rcases ha with ⟨hq, hnone⟩ | ⟨e', hh, he'⟩
    case inl =>
      refine .inl ⟨(quiet_lasting place).trans hq (hquiet a t), fun e hr => ?_⟩
      exact hnone e (congrArg Except.ok (hevent _ hr))
    case inr =>
      refine .inr ⟨e', hh.then_quiet (hquiet a t), fun x hr => ?_⟩
      exact he' x (congrArg Except.ok (hevent x hr))

section

variable {t : Target}

-- An instruction of a node hands over at most one command, which waits for the events of its list.
theorem step_issues (hi : i.opcode.isNode) (ht : r.target = some t)
    (hplace : t.place < s.platform.channels.length)
    (hdevice : ∀ task device wait offset threads, i = .launch task device wait offset threads →
      s.part.place device = .ok t.place) :
    Issues t.place (r.waiting i.wait?) (i.opcode = .streamOutBlocking) Run.last (m.step k i r) s := by
  have hconsume (list : Option Nat) : (r.consume list).target = some t := by
    cases list <;> exact ht
  have hlast (r : Run) (event : Option EventId) :
      (m.record r k event).Gives fun r' => r'.last = event :=
    record_gives _ (record_apply r k event).2.2.2.1
  cases i <;> cases hi
  case launch task device wait offset threads =>
    exact issues_record (launch_issues (hdevice _ _ _ _ _ rfl) hplace task offset threads)
      (fun _ => quiet_record _ _) fun _ => hlast _ _
  case streamIn object offset length wait =>
    exact issues_record (streamIn_issues ht hplace object offset length)
      (fun _ => quiet_record _ _) fun _ => hlast _ _
  case streamOut object offset length wait =>
    exact issues_record (streamOut_issues (hconsume wait) hplace object offset length false)
      (fun _ => quiet_record _ _) fun _ => hlast _ _
  case streamOutBlocking object offset length wait =>
    exact issues_record (streamOut_issues (hconsume wait) hplace object offset length true)
      (fun _ => quiet_record _ _) fun _ => hlast _ _

theorem step_gives (hi : i.opcode.isNode) :
    (m.step k i r).Gives fun r' =>
      Recorded k i r r' ∧ (i.opcode = .launch ∨ i.opcode = .streamOut → r'.last.isSome) := by
  have hrecorded (pending : List Handle) (event : Option EventId)
      (hevent : i.opcode = .launch ∨ i.opcode = .streamOut → event.isSome) :
      (m.record { r.consume i.wait? with pending } k event).Gives fun r' =>
        Recorded k i r r' ∧ (i.opcode = .launch ∨ i.opcode = .streamOut → r'.last.isSome) := by
    refine record_gives _ ⟨recorded_consume r k i pending event, fun h => ?_⟩
    rw [(record_apply { r.consume i.wait? with pending } k event).2.2.2.1]
    exact hevent h
  cases i <;> cases hi
  case launch => exact .bind fun _ => hrecorded _ _ fun _ => rfl
  case streamIn => exact .bind fun _ => hrecorded _ _ (by simp [Instruction.opcode])
  case streamOut wait =>
    refine .bind_of (streamOut_gives _ _ _ _) fun (event, r') ⟨hevent, pending, hr'⟩ => ?_
    cases hr'
    exact hrecorded pending event fun _ => hevent rfl
  case streamOutBlocking wait =>
    refine .bind_of (streamOut_gives _ _ _ _) fun (event, r') ⟨_, pending, hr'⟩ => ?_
    cases hr'
    exact hrecorded pending event (by simp [Instruction.opcode])

theorem step_begin {slots tasks lists : Nat}
    (h : m.step k (.begin slots tasks lists) r s = (.ok r', s')) :
    (∀ place, Quiet place s s') ∧ r' = r.record k none := by
  obtain ⟨_, _, hget, h⟩ := Action.bind_ok.mp h
  cases hget
  dsimp only at h
  split at h
  case isTrue => cases h
  case isFalse =>
    exact ⟨fun _ => (quiet_record k none).of_eq h, (record_gives (· = r.record k none) rfl).of_eq h⟩

theorem step_context {device : Nat} (h : m.step k (.context device) r s = (.ok r', s')) :
    (∀ place, Quiet place s s') ∧ ∃ place, s.part.place device = .ok place ∧
      r' = { r with target := some { index := device, place } }.record k none := by
  obtain ⟨_, u, hactivate, h⟩ := Action.bind_ok.mp h
  obtain ⟨_, _, hget, h⟩ := Action.bind_ok.mp h
  cases hget
  obtain ⟨place, _, hplace, h⟩ := Action.bind_ok.mp h
  obtain ⟨hfound, rfl⟩ := Action.lift_eq_ok.mp hplace
  have hu (place : Nat) : Quiet place s u := (Context.quiet_activate device).of_eq hactivate
  refine ⟨fun q => (quiet_lasting q).trans (hu q) ((quiet_record k none).of_eq h), place, ?_, ?_⟩
  case refine_1 => rw [Context.place_ok, ← (hu place).devices, ← Context.place_ok, hfound]
  case refine_2 => exact (record_gives (· = Run.record _ k none) rfl).of_eq h

theorem step_addDep {list : Nat} (h : list < r.lists.length) :
    m.step k (.addDep list) r s = (.ok { r with
      lists := r.lists.modify list (·.append r.last)
      states := r.states.set k .completed }, s) := by
  simp only [step, if_pos h]
  rfl

theorem step_barrier {list : Option Nat} (ht : r.target = some t)
    (hplace : t.place < s.platform.channels.length)
    (h : m.step k (.barrier list) r s = (.ok r', s')) :
    ∃ status : EventStatus, status.isFinished ∧
      (status = .complete ↔ (s.queue t.place).Ready (r.waiting list)) ∧
      s'.queue t.place = (s.queue t.place).issue (r.waiting list) status ∧
      r'.target = some t ∧ r'.final = some (s.queue t.place).nextEvent ∧
      r'.events = r.events ++ [(k, (s.queue t.place).nextEvent)] ∧
      s'.platform.channels.length = s.platform.channels.length := by
  obtain ⟨status, p, hbarrier, hdone, hready, hqueue, _⟩ :=
    Channel.queue_barrier (r.waiting list) (s.platform.channel t.place)
  change m.synchronize r k Channel.barrier list s = _ at h
  unfold synchronize at h
  rw [device_eq ht] at h
  obtain ⟨_, _, htarget, h⟩ := Action.bind_ok.mp h
  cases htarget
  have hcommand : onTarget t (Channel.barrier (r.waiting list)) s =
      (.ok (s.queue t.place).nextEvent,
        { s with platform := s.platform.setChannel t.place p }) := by
    rw [onTarget, Hosted.onPlatform, Platform.onChannel_apply, hbarrier]
    rfl
  rw [Action.bind_of_ok hcommand] at h
  obtain ⟨_, v, hcount, h⟩ := Action.bind_ok.mp h
  have hquiet : Quiet t.place { s with platform := s.platform.setChannel t.place p } s' :=
    (quiet_lasting t.place).trans ((m.quiet_count _).of_eq hcount) ((quiet_record _ _).of_eq h)
  have hrecord := (record_gives (· = Run.record _ k (some (s.queue t.place).nextEvent)) rfl).of_eq h
  have hconsume : (r.consume list).target = some t ∧ (r.consume list).events = r.events := by
    cases list <;> exact ⟨ht, rfl⟩
  refine ⟨status, hdone, hready, ?_, ?_⟩
  case refine_1 =>
    have hset : Hosted.queue t.place { s with platform := s.platform.setChannel t.place p } =
        p.queue := by rw [Hosted.queue, Platform.channel_setChannel hplace]
    exact hquiet.platform.1.trans (hset.trans hqueue)
  case refine_2 =>
    rw [hrecord]
    exact ⟨hconsume.1, rfl, congrArg (· ++ _) hconsume.2,
      hquiet.platform.2.trans (Platform.length_setChannel _ _)⟩

theorem step_finish (h : m.step k .finish r s = (.ok r', s')) :
    (∀ place, Quiet place s s') ∧ r' = r.record k none :=
  ⟨fun _ => (quiet_record k none).of_eq h, (record_gives (· = r.record k none) rfl).of_eq h⟩

-- What an execution returns is what its last run has on record.
theorem execute_ok {e : Execution} (h : m.execute s = (.ok e, s'')) :
    ∃ r u, Reaches m 0 m.instructions (Run.start m) s r u ∧ (∀ place, Quiet place u s'') ∧
      r.target = some e.target ∧ e.final = r.final ∧ e.events = r.events ∧ e.pending = r.pending ∧
      e.states = r.states := by
  unfold execute at h
  obtain ⟨r, u, hsteps, h⟩ := Action.bind_ok.mp h
  obtain ⟨target, _, htarget, h⟩ := Action.bind_ok.mp h
  obtain ⟨htarget, rfl⟩ := Action.lift_eq_ok.mp htarget
  obtain ⟨_, v, hcount, h⟩ := Action.bind_ok.mp h
  cases h
  refine ⟨r, u, steps_ok.mp hsteps, fun _ => (m.quiet_count _).of_eq hcount, ?_, rfl, rfl, rfl, rfl⟩
  unfold Run.device at htarget
  split at htarget <;> cases htarget
  assumption

end
end Offload.Machine
