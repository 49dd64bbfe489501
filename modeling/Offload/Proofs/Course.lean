import Offload.Proofs.Keeping
import Offload.Proofs.WaitLists

/-!
Whole runs and the books. As long as every launch names the device of the latest CONTEXT, each instruction
keeps the books, so that a run keeps them to its end, wherever that is; the run that fails leaves the context
without a buffer.
-/

namespace Offload

namespace Instruction

-- The device that the instructions after this one work on.
def turnsTo (current : Option Nat) : Instruction → Option Nat
  | .context device => some device
  | _ => current

-- A launch is for the device that the program works on.
def WorksOn (current : Option Nat) : Instruction → Prop
  | .launch _ device _ _ _ => current = some device
  | _ => True

instance (current : Option Nat) (i : Instruction) : Decidable (i.WorksOn current) := by
  cases i <;> unfold WorksOn <;> infer_instance

theorem turnsTo_of_ne {i : Instruction} (h : i.opcode ≠ .context) (current : Option Nat) :
    i.turnsTo current = current := by
  cases i with
  | context => exact absurd rfl h
  | _ => rfl

end Instruction

theorem Instruction.isSome_turnsTo {is : List Instruction} (h : ∃ device, .context device ∈ is)
    (current : Option Nat) : (is.foldl turnsTo current).isSome := by
  have hkeeps (is : List Instruction) (current : Option Nat) (h : current.isSome) :
      (is.foldl turnsTo current).isSome := by
    induction is generalizing current with
    | nil => exact h
    | cons i is ih =>
      refine ih _ ?_
      cases i with
      | context => rfl
      | _ => exact h
  obtain ⟨device, hmem⟩ := h
  obtain ⟨pre, post, rfl⟩ := List.append_of_mem hmem
  rw [List.foldl_append, List.foldl_cons]
  exact hkeeps post _ rfl

-- Every launch of a program names the device of the latest CONTEXT.
def Grounded : Option Nat → List Instruction → Prop
  | _, [] => True
  | current, i :: is => i.WorksOn current ∧ Grounded (i.turnsTo current) is

instance Grounded.decidable : ∀ (current : Option Nat) (is : List Instruction),
    Decidable (Grounded current is)
  | _, [] => .isTrue trivial
  | current, i :: is =>
    have := Grounded.decidable (i.turnsTo current) is
    inferInstanceAs (Decidable (i.WorksOn current ∧ Grounded (i.turnsTo current) is))

-- What an instruction reads into, or counts as written, lies within its objects.
def Context.Admits (registry : Registry) (c : Context) : Instruction → Prop
  | .launch task _ _ offset _ => ∃ t, c.tasks[task]? = some t ∧
      ∀ a ∈ t.arguments, offset ≤ registry.byteLength a.object.handle
  | .streamOut object offset length _ | .streamOutBlocking object offset length _ =>
    ∃ o, c.objects[object]? = some o ∧
      offset + Machine.transferSize registry o length ≤ registry.byteLength o.handle
  | _ => True

namespace Context

variable {P : Prop} {rest : Nat → List (BufferId × Nat)} {s t u : Hosted Context} {i : Instruction}

theorem transferSize_of_lengths {registry registry' : Registry}
    (h : ∀ k, registry'.byteLength k = registry.byteLength k) (o : HostObject) (length : Nat) :
    Machine.transferSize registry' o length = Machine.transferSize registry o length := by
  rw [Machine.transferSize, Machine.transferSize, h]

-- An instruction that a context admits is admitted when there is more in its tables.
theorem Admits.mono {registry registry' : Registry} {c c' : Context}
    (hlengths : ∀ k, registry'.byteLength k = registry.byteLength k) (hobjects : c.objects <+: c'.objects)
    (htasks : c.tasks <+: c'.tasks) (hi : c.Admits registry i) : c'.Admits registry' i := by
  have htransfer {object offset length : Nat}
      (ho : ∃ o, c.objects[object]? = some o ∧
        offset + Machine.transferSize registry o length ≤ registry.byteLength o.handle) :
      ∃ o, c'.objects[object]? = some o ∧
        offset + Machine.transferSize registry' o length ≤ registry'.byteLength o.handle := by
    obtain ⟨o, ho, hfits⟩ := ho
    refine ⟨o, WaitLists.getElem?_of_prefix hobjects ho, ?_⟩
    rwa [transferSize_of_lengths hlengths, hlengths]
  cases i with
  | launch task device wait offset threads =>
    obtain ⟨t, ht, hfits⟩ := hi
    refine ⟨t, WaitLists.getElem?_of_prefix htasks ht, fun a ha => ?_⟩
    rw [hlengths]
    exact hfits a ha
  | streamOut => exact htransfer hi
  | streamOutBlocking => exact htransfer hi
  | _ => trivial

theorem Stable.admits (h : Stable s t) (hi : s.part.Admits s.platform.registry i) :
    t.part.Admits t.platform.registry i :=
  hi.mono h.lengths (h.objects ▸ List.prefix_rfl) (h.tasks ▸ List.prefix_rfl)

theorem exists_object {c : Context} {index : Nat} {b : Binding} {o : HostObject}
    (hb : c.bindings[index]? = some b) (ho : c.objects[index]? = some o) : b.object = o :=
  Option.some.inj ((getElem?_objects hb).symm.trans ho)

end Context

namespace Run

variable {r r' : Run} {s t : Hosted Context} {e : EventId}

-- The event may end up on the wait list of a command.
def Mentions (r : Run) (e : EventId) : Prop :=
  (∃ l ∈ r.lists, e ∈ l.events) ∨ r.last = some e

-- The device knows all the events that the run has in its lists.
def Informed (r : Run) (s : Hosted Context) : Prop :=
  ∀ t, r.target = some t →
    (s.device t.place).Past ∧ ∀ e, r.Mentions e → (s.device t.place).Knows e

-- What a run relies on to go on with `is`, and with `P` to make no transfer without an excuse.
structure Fit (P : Prop) (is : List Instruction) (r : Run) (s : Hosted Context) : Prop where
  placed   : r.Placed s
  grounded : Grounded (r.target.map Target.index) is
  sure     : P → r.Informed s ∧ ∀ i ∈ is, i.opcode ≠ .context ∧ s.part.Admits s.platform.registry i

theorem mentions_of_mem_waiting {list : Option Nat} (he : e ∈ r.waiting list) : r.Mentions e := by
  cases list with
  | none => cases he
  | some list =>
    rw [waiting] at he
    cases hl : r.lists[list]? with
    | none => rw [hl] at he; cases he
    | some l =>
      rw [hl] at he
      exact .inl ⟨l, List.mem_of_getElem? hl, he⟩

theorem Informed.aware (h : r.Informed s) (list : Option Nat) : r.Aware s (r.waiting list) :=
  fun t ht => ⟨(h t ht).1, fun _ hw => (h t ht).2 _ (mentions_of_mem_waiting hw)⟩

theorem target_consume (r : Run) (list : Option Nat) : (r.consume list).target = r.target := by
  cases list <;> rfl

theorem mentions_of_consume {list : Option Nat} {l : EventList} (hl : l ∈ (r.consume list).lists)
    (he : e ∈ l.events) : r.Mentions e := by
  cases list with
  | none => exact .inl ⟨l, hl, he⟩
  | some list =>
    obtain ⟨place, hplace⟩ := List.getElem?_of_mem hl
    simp only [consume, List.getElem?_modify] at hplace
    obtain ⟨l', hl', heq⟩ := Option.map_eq_some_iff.mp hplace
    refine .inl ⟨l', List.mem_of_getElem? hl', ?_⟩
    split at heq <;> rw [← heq] at he <;> exact he

theorem Placed.of_active (h : r.Placed s) (htarget : r'.target = r.target)
    (hactive : t.part.active = s.part.active) (hdevices : t.part.devices = s.part.devices) :
    r'.Placed t := by
  intro tgt ht
  rw [hactive, hdevices]
  exact h tgt (htarget ▸ ht)

end Run

namespace Machine

open Context
open Run (device_ok)

variable {P : Prop} {rest : Nat → List (BufferId × Nat)} {s t u : Hosted Context} {m : Machine}
  {r r' : Run} {i : Instruction} {is : List Instruction} {k : Nat}

-- Nothing was issued yet, and the run is on no device.
theorem fit_start (hgrounded : Grounded none m.instructions) :
    Run.Fit False m.instructions (Run.start m) s where
  placed _ ht := nomatch ht
  grounded := hgrounded
  sure := False.elim

-- What an instruction makes of the events that the run mentions.
theorem step_mentions (hi : i.opcode ≠ .context) :
    (m.step k i r).Gives fun r' => r'.target = r.target ∧
      ∀ e, r'.Mentions e → r.Mentions e ∨ r'.last = some e := by
  have hlists {r' : Run} {list : Option Nat} (h : r'.lists = (r.consume list).lists) (e : EventId)
      (he : r'.Mentions e) : r.Mentions e ∨ r'.last = some e := by
    rcases he with ⟨l, hl, he⟩ | hlast
    case inl => exact .inl (Run.mentions_of_consume (h ▸ hl) he)
    case inr => exact .inr hlast
  have hrecord {r₁ : Run} {event : Option EventId} (list : Option Nat)
      (h : r₁.lists = (r.consume list).lists) (htarget : r₁.target = r.target) :
      (m.record r₁ k event).Gives fun r' => r'.target = r.target ∧
        ∀ e, r'.Mentions e → r.Mentions e ∨ r'.last = some e := by
    have ⟨hlists', htarget', _⟩ := Machine.record_apply r₁ k event
    exact record_gives _ ⟨htarget'.trans htarget, hlists (hlists'.trans h)⟩
  have hnode (hnode : i.opcode.isNode) : (m.step k i r).Gives fun r' => r'.target = r.target ∧
      ∀ e, r'.Mentions e → r.Mentions e ∨ r'.last = some e := fun s r' h =>
    have ⟨hrecorded, _⟩ := step_gives hnode s r' h
    ⟨hrecorded.target, hlists hrecorded.lists⟩
  cases i with
  | context => exact absurd rfl hi
  | launch | streamIn | streamOut | streamOutBlocking => exact hnode rfl
  | begin slots tasks lists =>
    refine .bind fun s => ?_
    dsimp only
    split
    case isTrue => exact .throw _
    case isFalse => exact hrecord none rfl rfl
  | finish => exact hrecord none rfl rfl
  | barrier list | marker list =>
    exact .bind fun _ => .bind fun _ => .bind fun _ => hrecord list rfl (r.target_consume list)
  | addDep list =>
    simp only [step]
    split
    case isFalse => exact .throw _
    case isTrue =>
      refine .pure ⟨rfl, fun e he => ?_⟩
      rcases he with ⟨l, hl, he⟩ | hlast
      case inr => exact .inr hlast
      case inl =>
        obtain ⟨place, hplace⟩ := List.getElem?_of_mem hl
        simp only [List.getElem?_modify] at hplace
        obtain ⟨l', hl', heq⟩ := Option.map_eq_some_iff.mp hplace
        have hmem := List.mem_of_getElem? hl'
        split at heq <;> rw [← heq] at he
        case isFalse => exact .inl (.inl ⟨l', hmem, he⟩)
        case isTrue =>
          rcases List.mem_append.mp he with hold | hnew
          case inl =>
            split at hold
            case isTrue => cases hold
            case isFalse => exact .inl (.inl ⟨l', hmem, hold⟩)
          case inr => exact .inr (Option.mem_toList.mp hnew)

-- The event of a command that waited for others is known from then on.
theorem synchronize_knows {call : List EventId → Action Channel EventId} {list : Option Nat}
    (hcall : ∀ events, Channel.Hands events (fun e => e) (call events)) {tgt : Target}
    (ht : r.target = some tgt) (hplace : tgt.place < s.platform.channels.length) :
    (m.synchronize r k call list).Ends s fun result t =>
      ∀ r', result = .ok r' → ∀ e, r'.last = some e → (t.device tgt.place).Knows e := by
  unfold synchronize
  rw [device_eq ht]
  refine Action.Ends.bind_of_ok (Action.lift_apply _ s) ?_
  refine (onTarget_command (hcall _) hplace).bind (fun event u ⟨e, hhanded, he⟩ => ?_) fun _ _ _ => nofun
  cases he event rfl
  have hquiet (t : Hosted Context) (hq : Quiet tgt.place u t) : (t.device tgt.place).Knows event := by
    have hqueue := hhanded.queue
    generalize hu : u.queue tgt.place = q at hqueue
    cases hqueue with
    | issued status =>
      refine ⟨status, ?_⟩
      have hstatus := Queue.status?_nextEvent (s.queue tgt.place) (r.waiting list) status
      rwa [← hu, ← hq.queue_eq] at hstatus
  have hR := quiet_lasting tgt.place
  have hcount : (m.count Counters.countBarrier).Keeps (Quiet tgt.place) := m.quiet_count _
  refine (hcount u).bind (fun _ v hv => ?_) fun _ _ _ => nofun
  rw [Action.Ends]
  intro r' hr' e he
  have hw : Quiet tgt.place v (m.record { r.consume list with final := some event } k (some event) v).2 :=
    quiet_record k (some event) v
  have hlast : r'.last = some event :=
    record_gives (m := m) (fun r => r.last = some event) (record_apply _ k (some event)).2.2.2.1 v r' hr'
  cases hlast.symm.trans he
  exact hquiet _ (hR.trans hv hw)

-- The event of an instruction is known from then on.
theorem step_knows (hplaced : r.Placed s) (hbooks : Books rest s)
    (hworks : i.WorksOn (r.target.map Target.index)) (hi : i.opcode ≠ .context) {tgt : Target}
    (ht : r.target = some tgt) :
    (m.step k i r).Ends s fun result t => ∀ r', result = .ok r' → ∀ e, r'.last = some e →
      r.last = some e ∨ (t.device tgt.place).Knows e := by
  obtain ⟨_, hdevice⟩ := hplaced tgt ht
  have hplace := hbooks.attached _ (List.mem_of_getElem? hdevice)
  have hsync {call : List EventId → Action Channel EventId} {list : Option Nat}
      (hcall : ∀ events, Channel.Hands events (fun e => e) (call events)) :
      (m.synchronize r k call list).Ends s fun result t => ∀ r', result = .ok r' → ∀ e, r'.last = some e →
        r.last = some e ∨ (t.device tgt.place).Knows e :=
    (synchronize_knows hcall ht hplace).mono fun _ _ h r' hr' e he => .inr (h r' hr' e he)
  have hnone : (m.record r k none).Gives fun r' => r'.last = none :=
    record_gives _ (record_apply r k none).2.2.2.1
  have hnode (hnode : i.opcode.isNode) : (m.step k i r).Ends s fun result t =>
      ∀ r', result = .ok r' → ∀ e, r'.last = some e → r.last = some e ∨ (t.device tgt.place).Knows e := by
    refine (step_issues hnode ht hplace fun task device wait offset threads heq => ?_).mono ?_
    case refine_1 =>
      subst heq
      have hsame : some tgt.index = some device := by
        have hcurrent : r.target.map Target.index = some device := hworks
        rwa [ht] at hcurrent
      exact Context.place_ok.mpr (Option.some.inj hsame ▸ hdevice)
    case refine_2 =>
      intro result t houtcome r' hr' e he
      rw [hr', Except.map, he] at houtcome
      obtain ⟨status, _, _, rfl, hqueue⟩ := houtcome.of_some
      have hstatus := Queue.status?_nextEvent (s.queue tgt.place) (r.waiting i.wait?) status
      rw [← hqueue] at hstatus
      exact .inr ⟨status, hstatus⟩
  cases i with
  | context => exact absurd rfl hi
  | launch | streamIn | streamOut | streamOutBlocking => exact hnode rfl
  | barrier list => exact hsync Channel.hands_barrier
  | marker list => exact hsync Channel.hands_marker
  | finish =>
    intro r' hr' e he
    rw [hnone s r' hr'] at he
    cases he
  | begin slots tasks lists =>
    refine Action.Ends.bind_get ?_
    dsimp only
    split
    case isTrue =>
      intro r' hr'
      cases hr'
    case isFalse =>
      intro r' hr' e he
      rw [hnone s r' hr'] at he
      cases he
  | addDep list =>
    rw [Action.Ends]
    simp only [step]
    split
    case isFalse =>
      intro r' hr'
      cases hr'
    case isTrue =>
      intro r' hr' e he
      cases hr'
      exact .inl he

theorem step_upholds (hbooks : Books rest s) (hplaced : r.Placed s)
    (hworks : i.WorksOn (r.target.map Target.index)) (hi : i.opcode ≠ .context)
    (hP : P → r.Informed s ∧ s.part.Admits s.platform.registry i) :
    (m.step k i r).Ends s fun _ t => Upholds P rest s t := by
  have haware (hp : P) (list : Option Nat) : r.Aware s (r.waiting list) := (hP hp).1.aware list
  have hrecord {r : Run} {event : Option EventId} {u : Hosted Context} (hu : Upholds P rest s u) :
      (m.record r k event).Ends u fun _ t => Upholds P rest s t :=
    (still_record (P := P) k event u).mono fun _ _ ht => hu.trans (ht.upholds hu.books)
  have hstreamOut (object offset length : Nat) (list : Option Nat) (blocking : Bool)
      (hadmits : P → ∃ o, s.part.objects[object]? = some o ∧
        offset + transferSize s.platform.registry o length ≤ s.platform.registry.byteLength o.handle) :
      (m.streamOut (r.consume list) object offset length (r.waiting list) blocking >>= fun x =>
        m.record x.2 k x.1).Ends s fun _ t => Upholds P rest s t := by
    have htarget := r.target_consume list
    refine (streamOut_upholds hbooks (hplaced.of_active htarget rfl rfl)
      (fun hp t ht => haware hp list t (htarget ▸ ht)) (fun hp b hb => ?_) blocking).bind
      (fun _ _ hu => hrecord hu) fun _ _ hu => hu
    obtain ⟨o, ho, hfits⟩ := hadmits hp
    rw [Context.exists_object hb ho]
    exact hfits
  cases i with
  | context => exact absurd rfl hi
  | begin slots tasks lists =>
    refine Action.Ends.bind_get ?_
    dsimp only
    split
    case isTrue => exact hbooks.upholds
    case isFalse => exact hrecord hbooks.upholds
  | streamIn object offset length list =>
    exact (streamIn_upholds hbooks hplaced (fun hp => haware hp list) object offset length).bind
      (fun _ _ hu => hrecord hu) fun _ _ hu => hu
  | launch task device list offset threads =>
    obtain ⟨tgt, ht, hdevice⟩ := Option.map_eq_some_iff.mp hworks
    have hactive : s.part.active = some device := hdevice ▸ (hplaced tgt ht).1
    refine (launch_upholds hbooks hactive (fun hp t ht a ha => ?_) threads).bind
      (fun _ _ hu => hrecord hu) fun _ _ hu => hu
    obtain ⟨t', ht', hfits⟩ := (hP hp).2
    cases ht.symm.trans ht'
    exact hfits a ha
  | streamOut object offset length list =>
    exact hstreamOut object offset length list false fun hp => (hP hp).2
  | streamOutBlocking object offset length list =>
    exact hstreamOut object offset length list true fun hp => (hP hp).2
  | addDep list =>
    rw [Action.Ends]
    simp only [step]
    split
    case isTrue => exact hbooks.upholds
    case isFalse => exact hbooks.upholds
  | barrier list =>
    exact (still_synchronize (P := P) Channel.still_barrier k list s).mono fun _ _ h => h.upholds hbooks
  | marker list =>
    exact (still_synchronize (P := P) Channel.still_marker k list s).mono fun _ _ h => h.upholds hbooks
  | finish => exact hrecord hbooks.upholds

-- CONTEXT makes its device the active one, and everything that follows works there.
theorem step_context_sustains (hbooks : Books rest s) (device : Nat) :
    (m.step k (.context device) r).Ends s fun result t => Sustains P rest s t ∧ ∀ r', result = .ok r' →
      r'.Placed t ∧ r'.target.map Target.index = some device ∧ r'.lists = r.lists ∧ r'.last = none := by
  refine (activate_sustains (P := P) hbooks device).bind (fun _ u ⟨hu, hactive⟩ => ?_)
    fun _ _ ⟨hu, _⟩ => ⟨hu, nofun⟩
  obtain ⟨hactive, _⟩ := hactive _ rfl
  refine Action.Ends.bind_get (Action.Ends.bind_lift (fun place hplace => ?_) fun _ _ => ⟨hu, nofun⟩)
  have hplace := Context.place_ok.mp hplace
  generalize hr₁ : ({ r with target := some { index := device, place } } : Run) = r₁
  have ⟨hlists, htarget, _, hlast, _⟩ := Machine.record_apply r₁ k none
  have hstill := still_record (m := m) (r := r₁) (P := P) k none u
  refine ⟨hu.trans (hstill.upholds hu.books).toSustains, fun r' hr' => ?_⟩
  have hr' : r' = r₁.record k none :=
    (record_gives (m := m) (· = r₁.record k none) rfl) u r' hr'
  subst hr₁ hr'
  refine ⟨fun t ht => ?_, by rw [htarget]; rfl, hlists, hlast⟩
  cases htarget.symm.trans ht
  rw [hstill.active, hstill.devices]
  exact ⟨hactive, hplace⟩

theorem step_fit (hbooks : Books rest s) (hfit : Run.Fit P (i :: is) r s) :
    (m.step k i r).Ends s fun result t => Sustains P rest s t ∧ ∀ r', result = .ok r' →
      Run.Fit P is r' t ∧ r'.target.map Target.index = i.turnsTo (r.target.map Target.index) := by
  obtain ⟨hplaced, ⟨hworks, hgrounded⟩, hsure⟩ := hfit
  by_cases hi : i.opcode = .context
  case pos =>
    obtain ⟨device, rfl⟩ : ∃ device, i = .context device := by
      cases i with
      | context device => exact ⟨device, rfl⟩
      | _ => cases hi
    refine (step_context_sustains hbooks device).mono fun result t ⟨ht, hok⟩ => ⟨ht, fun r' hr' => ?_⟩
    obtain ⟨hplaced', htarget', _⟩ := hok r' hr'
    exact ⟨⟨hplaced', htarget' ▸ hgrounded, fun hp => absurd rfl ((hsure hp).2 _ List.mem_cons_self).1⟩,
      htarget'⟩
  case neg =>
    have hupholds := step_upholds (m := m) (k := k) hbooks hplaced hworks hi
      fun hp => ⟨(hsure hp).1, ((hsure hp).2 i List.mem_cons_self).2⟩
    refine ⟨hupholds.toSustains, fun r' hr' => ?_⟩
    obtain ⟨htarget, hmentions⟩ := step_mentions hi s r' hr'
    have hturns : r'.target.map Target.index = i.turnsTo (r.target.map Target.index) := by
      rw [htarget, Instruction.turnsTo_of_ne hi]
    refine ⟨⟨hplaced.of_active htarget hupholds.active hupholds.stable.devices, hturns ▸ hgrounded,
      fun hp => ⟨fun tgt ht => ?_, fun j hj => ?_⟩⟩, hturns⟩
    case refine_1 =>
      rw [htarget] at ht
      obtain ⟨hpast, hknown⟩ := (hsure hp).1 tgt ht
      have honward := hupholds.stable.onward tgt.place
      refine ⟨honward.past hpast, fun e he => ?_⟩
      rcases hmentions e he with hold | hlast
      case inl => exact honward.knows hpast (hknown e hold)
      case inr =>
        rcases step_knows hplaced hbooks hworks hi ht r' hr' e hlast with hold | hnew
        case inl => exact honward.knows hpast (hknown e (.inr hold))
        case inr => exact hnew
    case refine_2 =>
      obtain ⟨hne, hadmits⟩ := (hsure hp).2 j (List.mem_cons_of_mem i hj)
      exact ⟨hne, hupholds.stable.admits hadmits⟩

-- The books are kept, and a run that failed has given every buffer back.
def Ended (P : Prop) (rest : Nat → List (BufferId × Nat)) (s : Hosted Context) {α : Type}
    (result : Except Error α) (t : Hosted Context) : Prop :=
  Sustains P rest s t ∧ ∀ e, result = .error e → ∃ u, t = (Context.invalidate u).2

theorem steps_cons (hstep : (m.step k i r).Ends s fun result t => Sustains P rest s t ∧
      ∀ r', result = .ok r' → (m.steps (k + 1) is r').Ends t (Ended P rest t)) :
    (m.steps k (i :: is) r).Ends s (Ended P rest s) := by
  rcases h : m.step k i r s with ⟨e | r', t⟩ <;> obtain ⟨ht, hok⟩ := hstep.of_eq h
  case error =>
    rw [Action.Ends, steps_of_error h]
    exact ⟨ht.trans (invalidate_upholds ht.books).1.toSustains, fun _ _ => ⟨t, rfl⟩⟩
  case ok =>
    unfold steps
    refine Action.Ends.bind_of_ok (Action.tryCatch_of_ok h) ?_
    exact (hok r' rfl).mono fun result u hended => ⟨ht.trans hended.1, hended.2⟩

-- Wherever a run ends the books are kept, and who fails gives everything back.
theorem steps_sustains (hbooks : Books rest s) (hfit : Run.Fit P is r s) :
    (m.steps k is r).Ends s (Ended P rest s) := by
  induction is generalizing k r s with
  | nil => exact ⟨hbooks.sustains, nofun⟩
  | cons i is ih =>
    exact steps_cons ((step_fit hbooks hfit).mono fun result t ⟨ht, hok⟩ =>
      ⟨ht, fun r' hr' => ih ht.books (hok r' hr').1⟩)

-- A run works on the device of the latest CONTEXT.
theorem Reaches.current {s' : Hosted Context} (h : Reaches m k is r s r' s') :
    r'.target.map Target.index = is.foldl Instruction.turnsTo (r.target.map Target.index) := by
  induction h with
  | done => rfl
  | @step k i is r r₁ r₂ s s₁ s₂ hi _ ih =>
    have hturns : r₁.target.map Target.index = i.turnsTo (r.target.map Target.index) := by
      by_cases hcontext : i.opcode = .context
      case neg =>
        rw [((step_mentions hcontext).of_eq hi).1, Instruction.turnsTo_of_ne hcontext]
      case pos =>
        cases i with
        | context device =>
          obtain ⟨_, place, _, hr⟩ := step_context hi
          rw [hr, (record_apply _ k none).2.1]
          rfl
        | _ => cases hcontext
    rw [ih, hturns]
    rfl

-- An execution that gets through its instructions has a device, if there is a CONTEXT among them.
theorem execute_ended (hcontext : ∃ device, .context device ∈ m.instructions)
    (hsteps : (m.steps 0 m.instructions (Run.start m)).Ends s (Ended P rest s)) :
    m.execute.Ends s fun result t => Ended P rest s result t ∧
      ∀ e, result = .error e → m.steps 0 m.instructions (Run.start m) s = (.error e, t) := by
  unfold execute
  rcases h : m.steps 0 m.instructions (Run.start m) s with ⟨e | r, t⟩ <;>
    obtain ⟨ht, herror⟩ := hsteps.of_eq h
  case error =>
    obtain ⟨u, hu⟩ := herror e rfl
    exact Action.Ends.bind_of_error h ⟨⟨ht, fun _ _ => ⟨u, hu⟩⟩, fun e he => by cases he; rfl⟩
  case ok =>
    refine Action.Ends.bind_of_ok h ?_
    have hcurrent := (steps_ok.mp h).current
    obtain ⟨target, htarget⟩ : ∃ target, r.target = some target := by
      have hsome : (r.target.map Target.index).isSome := by
        rw [hcurrent]
        exact Instruction.isSome_turnsTo hcontext _
      exact Option.isSome_iff_exists.mp (by simpa using hsome)
    rw [device_eq htarget]
    refine Action.Ends.bind_of_ok (Action.lift_apply _ t) ?_
    obtain ⟨counters, hcount⟩ := count_apply m Counters.countExecution t
    refine Action.Ends.bind_of_ok hcount ⟨⟨ht.trans ?_, nofun⟩, nofun⟩
    exact (((still_count (P := P) m _).of_eq hcount).upholds ht.books).toSustains

end Machine
end Offload
