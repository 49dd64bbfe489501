import Offload.Proofs.Mishaps
import Offload.Proofs.Sizes

/-!
What executions come to. A machine for the steps of a schedule gets through them, or comes to a step that something
is wrong with: all else that instructions could stumble over is ruled out by how programs are made.
-/

namespace Offload

-- The step that an instruction stands for.
def Instruction.Means (c : Context) : Instruction → Step → Prop
  | .streamIn index _ _ _, .streamIn o | .streamOut index _ _ _, .streamOut o
  | .streamOutBlocking index _ _ _, .streamOut o => ∃ x, c.objects[index]? = some x ∧ x.handle = o.handle
  | .launch task _ _ _ _, .task t => c.tasks[task]? = some t
  | _, _ => False

theorem Instruction.Means.fills_iff {c : Context} {i : Instruction} {step : Step} (h : i.Means c step) (k : Handle) :
    i.Fills c k ↔ step.Fills k := by
  cases i <;> cases step <;> try exact h.elim
  case streamIn.streamIn =>
    obtain ⟨x, hx, hsame⟩ := h
    refine ⟨fun ⟨y, hy, hk⟩ => ?_, fun hk => ⟨x, hx, hsame.trans hk⟩⟩
    cases hx.symm.trans hy
    exact hsame.symm.trans hk
  case launch.task =>
    refine ⟨fun ⟨t, ht, hfills⟩ => ?_, fun hfills => ⟨_, h, hfills⟩⟩
    cases ht.symm.trans h
    exact hfills
  all_goals exact Iff.rfl

-- The instruction asks for nothing that is not there.
def Instruction.Modest (s : Hosted Context) : Instruction → Prop
  | .streamIn object offset length wait => wait = none ∧ ∃ o, s.part.objects[object]? = some o ∧
      offset + Machine.transferSize s.platform.registry o length ≤ s.platform.registry.byteLength o.handle
  | .launch task _ _ _ _ => ∃ t, s.part.tasks[task]? = some t ∧ t.Apart ∧
      ∀ a ∈ t.arguments, a.object.handle ∈ s.part.objects.map HostObject.handle
  | .streamOut object offset length _ | .streamOutBlocking object offset length _ =>
      ∃ o, s.part.objects[object]? = some o ∧
        offset + Machine.transferSize s.platform.registry o length ≤ s.platform.registry.byteLength o.handle
  | _ => True

-- If there is data of the object, there is enough of it; and if there is none, none was brought.
def Instruction.Heeds (s : Hosted Context) (before : List Step) : Instruction → Prop
  | .streamOut object _ length _ | .streamOutBlocking object _ length _ => ∀ b, s.part.bindings[object]? = some b →
      (b.state.isValid → Machine.transferSize s.platform.registry b.object length ≤ b.state.size) ∧
      (¬b.state.isValid → ∀ step ∈ before, ¬step.Fills b.object.handle)
  | _ => True

-- For all that failed since `first` a kernel is to blame, and no other events are waited for than those since then.
structure Run.Answerable (first place : Nat) (r : Run) (s : Hosted Context) : Prop where
  recent      : ∀ e, r.Mentions e → first ≤ e.number
  begun       : first ≤ (s.device place).nextEvent
  accountable : (s.device place).Accountable first

namespace Machine

open Context

variable {rest : Nat → List (BufferId × Nat)} {s t : Hosted Context} {m : Machine} {r r' : Run} {i : Instruction}
  {is : List Instruction} {k first object offset length : Nat} {tgt : Target} {list : Option Nat}

theorem modest_of_stable (h : Stable s t) (hi : i.Modest s) : i.Modest t := by
  have hwindow {object offset length : Nat} (hfits : ∃ o, s.part.objects[object]? = some o ∧
      offset + transferSize s.platform.registry o length ≤ s.platform.registry.byteLength o.handle) :
      ∃ o, t.part.objects[object]? = some o ∧
        offset + transferSize t.platform.registry o length ≤ t.platform.registry.byteLength o.handle := by
    obtain ⟨o, ho, hfits⟩ := hfits
    refine ⟨o, h.objects ▸ ho, ?_⟩
    rw [transferSize_of_lengths h.lengths, h.lengths]
    exact hfits
  cases i with
  | streamIn => exact ⟨hi.1, hwindow hi.2⟩
  | launch =>
    obtain ⟨task, htask, happart, hbound⟩ := hi
    exact ⟨task, h.tasks ▸ htask, happart, h.objects ▸ hbound⟩
  | streamOut => exact hwindow hi
  | streamOutBlocking => exact hwindow hi
  | _ => trivial

theorem awaits_of_answerable (hinformed : r.Informed s) (htgt : r.target = some tgt)
    (h : r.Answerable first tgt.place s) (list : Option Nat) :
    (s.device tgt.place).Awaits first (r.waiting list) where
  aware       := hinformed.aware list tgt htgt
  recent w hw := h.recent w (Run.mentions_of_mem_waiting hw)
  begun       := h.begun
  accountable := h.accountable

-- What is put on record does not matter, and nothing goes wrong there.
theorem recorded_accountable {α : Type} {act : On α} {f : α → On Run} {place index : Nat}
    {Q : Error → Hosted Context → Prop}
    (h : act.Ends s fun result t => (t.device place).Accountable first ∧ ∀ e, result = .error e → Q e t)
    (hf : ∀ x, ∃ r event, f x = m.record r index event) :
    (act >>= f).Ends s fun result t => (t.device place).Accountable first ∧ ∀ e, result = .error e → Q e t := by
  refine h.bind (fun x t ⟨ht, _⟩ => ?_) fun e t ⟨ht, hQ⟩ => ⟨ht, fun e' he => hQ e' (by cases he; rfl)⟩
  obtain ⟨r, event, hrecord⟩ := hf x
  rw [hrecord]
  refine (count_ends m _ place t).bind (fun _ u ⟨_, hquiet⟩ => ⟨hquiet.accountable ht, nofun⟩) fun _ _ ⟨hok, _⟩ => ?_
  cases hok

theorem streamOut_answers (hbooks : Books rest s) (hplaced : r.Placed s) (htgt : r.target = some tgt)
    (hawaits : (s.device tgt.place).Awaits first (r.waiting list))
    (hmodest : ∃ o, s.part.objects[object]? = some o ∧
      offset + transferSize s.platform.registry o length ≤ s.platform.registry.byteLength o.handle)
    (blocking : Bool) :
    (m.streamOut (r.consume list) object offset length (r.waiting list) blocking).Ends s fun result t =>
      (t.device tgt.place).Accountable first ∧ ∀ e, result = .error e → ∀ o before,
        (∃ x, s.part.objects[object]? = some x ∧ x.handle = o.handle) →
        (Instruction.streamOut object offset length list).Heeds s before →
        Step.Mishap m.config.tuning first (s.platform.channel tgt.place) (t.platform.channel tgt.place) before
          (.streamOut o) (if blocking then .streamOutBlocking else .streamOut) e := by
  obtain ⟨x, hx, hinside⟩ := hmodest
  obtain ⟨b, hb, rfl⟩ := Option.map_eq_some_iff.mp ((List.getElem?_map ..).symm.trans hx)
  refine (streamOut_mishap hbooks (hplaced.of_active (r.target_consume list) rfl rfl)
    ((r.target_consume list).trans htgt) hawaits hb hinside blocking).mono fun result t ⟨ht, herror⟩ => ⟨ht, ?_⟩
  intro e he o before ⟨y, hy, hsame⟩ hheeds
  cases hx.symm.trans hy
  obtain ⟨hlarge, hunfilled⟩ := hheeds b hb
  rcases herror e he with ⟨rfl, hinvalid⟩ | ⟨hvalid, hshort⟩ | ⟨rfl, hreports⟩
  case inl =>
    rw [hsame]
    refine .nothing ?_ (hsame ▸ hunfilled hinvalid)
    cases blocking
    case false => exact .inl rfl
    case true => exact .inr rfl
  case inr.inl => exact absurd (hlarge hvalid) (Nat.not_le_of_lt hshort)
  case inr.inr => exact .reported hreports

-- An instruction of a node that asks for nothing that is not there fails for few reasons.
theorem step_mishap (hnode : i.opcode.isNode) (hbooks : Books rest s) (hplaced : r.Placed s)
    (hworks : i.WorksOn (r.target.map Target.index)) (htgt : r.target = some tgt) (hinformed : r.Informed s)
    (hanswers : r.Answerable first tgt.place s) (hlearned : Learned s) (hmodest : i.Modest s) :
    (m.step k i r).Ends s fun result t => (t.device tgt.place).Accountable first ∧
      ∀ e, result = .error e → ∀ step before, i.Means s.part step → i.Heeds s before →
        Step.Mishap m.config.tuning first (s.platform.channel tgt.place) (t.platform.channel tgt.place) before step
          i.opcode e := by
  have hawaits := awaits_of_answerable hinformed htgt hanswers
  cases i with
  | streamIn object offset length list =>
    obtain ⟨rfl, o, ho, hinside⟩ := hmodest
    obtain ⟨b, hb, rfl⟩ := Option.map_eq_some_iff.mp ((List.getElem?_map ..).symm.trans ho)
    refine recorded_accountable (f := fun event => m.record (r.consume none) k event)
      ((streamIn_mishap hbooks hplaced htgt (hawaits none) hb hinside).mono fun result t ⟨ht, hrefuses⟩ =>
        ⟨ht, fun e he step before hmeans _ => ?_⟩) fun event => ⟨_, event, rfl⟩
    cases step with
    | streamIn o =>
      obtain ⟨x, hx, hsame⟩ := hmeans
      cases ho.symm.trans hx
      exact .full (hsame ▸ hrefuses e he)
    | _ => exact hmeans.elim
  | launch task device list offset threads =>
    obtain ⟨t', ht', happart, hbound⟩ := hmodest
    obtain ⟨hactive, hplace⟩ := hplaced tgt htgt
    rw [htgt] at hworks
    cases hworks
    have hlaunch (before : List Step) := launch_mishap (m := m) offset threads before hbooks
      hactive hplace hlearned (hawaits list) ht' happart hbound
    refine recorded_accountable (f := fun event => m.record (r.consume list) k (some event))
      ⟨(hlaunch []).1, fun e he step before hmeans _ => ?_⟩ fun event => ⟨_, some event, rfl⟩
    cases step with
    | task t =>
      cases ht'.symm.trans hmeans
      exact (hlaunch before).2 e he
    | _ => exact hmeans.elim
  | streamOut object offset length list =>
    unfold step
    refine recorded_accountable ((streamOut_answers hbooks hplaced htgt (hawaits list) hmodest false).mono
      fun result t ⟨ht, herror⟩ => ⟨ht, fun e he step before hmeans hheeds => ?_⟩) fun x => ⟨x.2, x.1, rfl⟩
    cases step with
    | streamOut o => exact herror e he o before hmeans hheeds
    | _ => exact hmeans.elim
  | streamOutBlocking object offset length list =>
    unfold step
    refine recorded_accountable ((streamOut_answers hbooks hplaced htgt (hawaits list) hmodest true).mono
      fun result t ⟨ht, herror⟩ => ⟨ht, fun e he step before hmeans hheeds => ?_⟩) fun x => ⟨x.2, x.1, rfl⟩
    cases step with
    | streamOut o => exact herror e he o before hmeans hheeds
    | _ => exact hmeans.elim
  | _ => cases hnode

theorem placed_device (hworks : i.WorksOn (r.target.map Target.index)) (hplaced : r.Placed s)
    (htgt : r.target = some tgt) : ∀ task device wait offset threads, i = .launch task device wait offset threads →
      s.part.place device = .ok tgt.place := by
  rintro task device wait offset threads rfl
  rw [htgt] at hworks
  cases hworks
  exact place_ok.mpr (hplaced tgt htgt).2

-- An event that a node leaves is one that was not there before.
theorem recent_of_step (hnode : i.opcode.isNode) (hbooks : Books rest s) (hplaced : r.Placed s)
    (hworks : i.WorksOn (r.target.map Target.index)) (htgt : r.target = some tgt)
    (hanswers : r.Answerable first tgt.place s) (hstep : m.step k i r s = (.ok r', t)) :
    ∀ e, r'.Mentions e → first ≤ e.number := by
  have hlt := hbooks.attached _ (List.mem_of_getElem? (hplaced tgt htgt).2)
  have hcontext : i.opcode ≠ .context := fun heq => by rw [heq] at hnode; cases hnode
  intro e he
  rcases ((step_mentions hcontext).of_eq hstep).2 e he with hold | hnew
  case inl => exact hanswers.recent e hold
  case inr =>
    have hissues : Outcome tgt.place (r.waiting i.wait?) (i.opcode = .streamOutBlocking) s (.ok r'.last) t :=
      (step_issues hnode htgt hlt (placed_device hworks hplaced htgt)).of_eq hstep
    rw [hnew] at hissues
    obtain ⟨_, _, _, rfl, _⟩ := hissues.of_some
    exact hanswers.begun

-- An instruction in the middle of a run, whether it is of a node or puts down the event of one.
theorem step_answerable (hi : i.opcode.isNode ∨ i.opcode = .addDep) (hbooks : Books rest s)
    (hfit : Run.Fit True (i :: is) r s) (htgt : r.target = some tgt) (hanswers : r.Answerable first tgt.place s)
    (hlearned : Learned s) (hmodest : i.Modest s) (hstep : m.step k i r s = (.ok r', t)) :
    r'.target = some tgt ∧ r'.Answerable first tgt.place t := by
  have hcontext := (hfit.sure trivial).2 i List.mem_cons_self |>.1
  have hkept := ((step_mentions hcontext).of_eq hstep).1.trans htgt
  rcases hi with hnode | hopcode
  case inl =>
    have hmishap := (step_mishap (m := m) (k := k) hnode hbooks hfit.placed hfit.grounded.1 htgt (hfit.sure trivial).1
      hanswers hlearned hmodest).of_eq hstep
    have hstable := ((step_fit hbooks hfit).of_eq hstep).1.stable
    exact ⟨hkept, recent_of_step hnode hbooks hfit.placed hfit.grounded.1 htgt hanswers hstep,
      Nat.le_trans hanswers.begun (hstable.onward tgt.place).next, hmishap.1⟩
  case inr =>
    cases i with
    | addDep list =>
      by_cases hlt : list < r.lists.length
      case neg =>
        simp only [step, if_neg hlt] at hstep
        cases hstep
      case pos =>
        cases (step_addDep hlt).symm.trans hstep
        refine ⟨hkept, fun e he => ?_, hanswers.begun, hanswers.accountable⟩
        rcases ((step_mentions (m := m) (k := k) hcontext).of_eq hstep).2 e he with hold | hlast
        case inl => exact hanswers.recent e hold
        case inr => exact hanswers.recent e (.inr hlast)
    | _ => cases hopcode

theorem Reaches.schooled {pre : List Instruction} {s' : Hosted Context} (h : Reaches m k pre r s r' s') :
    Schooled s s' := by
  induction h with
  | done => exact schooled_lasting.refl _
  | step hstep _ ih => exact schooled_lasting.trans ((schooled_step _ _ _).of_eq hstep) ih

-- A run goes on to wait for what it issued itself.
theorem Reaches.answerable {pre : List Instruction} {s' : Hosted Context} (h : Reaches m k pre r s r' s')
    (hpre : ∀ i ∈ pre, (i.opcode.isNode ∨ i.opcode = .addDep) ∧ i.Modest s) (hbooks : Books rest s)
    (hfit : Run.Fit True (pre ++ is) r s) (htgt : r.target = some tgt) (hanswers : r.Answerable first tgt.place s)
    (hlearned : Learned s) : r'.target = some tgt ∧ r'.Answerable first tgt.place s' := by
  induction h with
  | done => exact ⟨htgt, hanswers⟩
  | @step k i pre r r₁ r' s s₁ s' hstep _ ih =>
    obtain ⟨⟨hi, hmodest⟩, hpre⟩ := List.forall_mem_cons.mp hpre
    obtain ⟨hsustains, hfits⟩ := (step_fit hbooks hfit).of_eq hstep
    obtain ⟨htgt₁, hanswers₁⟩ := step_answerable hi hbooks hfit htgt hanswers hlearned hmodest hstep
    exact ih (fun j hj => ⟨(hpre j hj).1, modest_of_stable hsustains.stable (hpre j hj).2⟩) hsustains.books
      (hfits r₁ rfl).1 htgt₁ hanswers₁ (((schooled_step k i r).of_eq hstep).learned hlearned)

end Machine
end Offload
