import Offload.Proofs.Affairs
import Offload.Proofs.Flawless
import Offload.Proofs.Lifecycle

/-!
Executions whose tasks all have exceptions. One that does well leaves nothing that failed, for whoever waits for it to
find out; and one in which a launch fails ends there, and tells which one it was.
-/

namespace Offload

theorem Compile.Ending.not_launch {i : Instruction} (ending : Ending) (hi : i ∈ ending.instructions) :
    i.opcode ≠ .launch := by
  intro hopcode
  rcases ending.of_mem hi with ⟨_, rfl⟩ | rfl <;> cases hopcode

-- Since then nothing failed, and all launches are complete.
structure Channel.Prospers (p p' : Channel) : Prop where
  flawless : p'.device.Flawless p.device.nextEvent
  launches : ∃ calls, p'.journal = p.journal ++ calls ∧
    ∀ call ∈ calls, ∀ e, call.Launches e → p'.device.status? e = some .complete

-- A kernel was called for since then, and this is the event that was answered.
def Channel.Took (event : EventId) (p p' : Channel) : Prop :=
  ∃ calls call, p'.journal = p.journal ++ calls ∧ call ∈ calls ∧ call.Launches event

namespace Channel.Prospers

variable {p p' p'' : Channel} {calls : List Call} {event : EventId}

theorem refl (h : p.device.Past) : p.Prospers p :=
  ⟨h.flawless, [], by simp, nofun⟩

theorem extend (h : p.Prospers p') (hpast : p'.device.Past) (honward : p'.device.Onward p''.device)
    (hflawless : p''.device.Flawless p.device.nextEvent) (hcalls : p''.journal = p'.journal ++ calls)
    (hlater : ∀ call ∈ calls, ∀ e, call.Launches e → p''.device.status? e = some .complete) : p.Prospers p'' := by
  obtain ⟨earlier, hearlier, hcomplete⟩ := h.launches
  refine ⟨hflawless, earlier ++ calls, by rw [hcalls, hearlier, List.append_assoc], ?_⟩
  exact List.forall_mem_append.mpr
    ⟨fun call hcall e he => honward.status?_eq hpast (hcomplete call hcall e he), hlater⟩

theorem unlaunched (h : p.Prospers p') (hpast : p'.device.Past) (honward : p'.device.Onward p''.device)
    (hflawless : p''.device.Flawless p.device.nextEvent) (hnone : p'.Unlaunched p'') : p.Prospers p'' := by
  obtain ⟨calls, hcalls, hnone⟩ := hnone
  exact h.extend hpast honward hflawless hcalls fun call hcall e he => absurd he (hnone call hcall e)

theorem launched (h : p.Prospers p') (hpast : p'.device.Past) (honward : p'.device.Onward p''.device)
    (hflawless : p''.device.Flawless p.device.nextEvent) (hlaunched : Launched event p' p'')
    (hcomplete : p''.device.status? event = some .complete) : p.Prospers p'' := by
  obtain ⟨before, call, after, hcalls, hcall, hbefore, hafter⟩ := hlaunched
  rw [List.append_assoc] at hcalls
  refine h.extend hpast honward hflawless hcalls (List.forall_mem_append.mpr ⟨fun x hx e he => ?_, ?_⟩)
  case refine_1 => exact absurd he (Call.not_launches (hbefore x hx) e)
  case refine_2 =>
    refine List.forall_mem_cons.mpr ⟨fun e he => ?_, fun x hx e he => absurd he (Call.not_launches (hafter x hx) e)⟩
    exact Call.event_eq_of_launches hcall he ▸ hcomplete

theorem of_took (h : p.Prospers p') (hpast : p'.device.Past) (honward : p'.device.Onward p''.device)
    (hcalls : p''.journal = p'.journal ++ calls) (htook : Took event p p'') :
    p''.device.status? event = some .complete ∨ ∃ call ∈ calls, call.Launches event := by
  obtain ⟨earlier, hearlier, hcomplete⟩ := h.launches
  obtain ⟨all, call, hall, hcall, hevent⟩ := htook
  obtain rfl : all = earlier ++ calls := by
    rw [hcalls, hearlier, List.append_assoc] at hall
    exact (List.append_cancel_left hall).symm
  rcases List.mem_append.mp hcall with hold | hnew
  case inl => exact .inl (honward.status?_eq hpast (hcomplete call hold event hevent))
  case inr => exact .inr ⟨call, hnew, hevent⟩

theorem complete_of_took (h : p.Prospers p') (hpast : p'.device.Past) (honward : p'.device.Onward p''.device)
    (hnone : p'.Unlaunched p'') (htook : Took event p p'') : p''.device.status? event = some .complete := by
  obtain ⟨calls, hcalls, hnone⟩ := hnone
  refine (h.of_took hpast honward hcalls htook).resolve_right ?_
  rintro ⟨call, hcall, hevent⟩
  exact hnone call hcall event hevent

theorem complete_or_eq_of_took {own : EventId} (h : p.Prospers p') (hpast : p'.device.Past)
    (honward : p'.device.Onward p''.device) (hlaunched : Launched own p' p'') (htook : Took event p p'') :
    p''.device.status? event = some .complete ∨ event = own := by
  obtain ⟨before, call, after, hcalls, hcall, hbefore, hafter⟩ := hlaunched
  rw [List.append_assoc] at hcalls
  refine (h.of_took hpast honward hcalls htook).imp_right ?_
  rintro ⟨x, hx, hevent⟩
  rcases List.mem_append.mp hx with hx | hx
  case inl => exact absurd hevent (Call.not_launches (hbefore x hx) event)
  case inr =>
    rcases List.mem_cons.mp hx with rfl | hx
    case inl => exact Call.event_eq_of_launches hevent hcall
    case inr => exact absurd hevent (Call.not_launches (hafter x hx) event)

end Channel.Prospers

-- So far all went well, and all events on record are complete.
structure Run.Prospers (c : Channel) (place : Nat) (r : Run) (s : Hosted Context) : Prop where
  channel : c.Prospers (s.platform.channel place)
  events  : ∀ x ∈ r.events, (s.device place).status? x.2 = some .complete

namespace Machine

open Context Compile

variable {rest : Nat → List (BufferId × Nat)} {s t : Hosted Context} {m : Machine} {r r' : Run} {i : Instruction}
  {is pre : List Instruction} {k first : Nat} {tgt : Target} {c : Channel} {e : Error}

-- A launch in the middle of a run is looked after.
theorem run_watched {task device offset threads : Nat} {list : Option Nat} (hbooks : Books rest s)
    (hfit : Run.Fit True (.launch task device list offset threads :: is) r s) (htgt : r.target = some tgt)
    (hanswers : r.Answerable first tgt.place s) (hlearned : Learned s)
    (hmodest : (Instruction.launch task device list offset threads).Modest s)
    (hexceptions : ∀ t ∈ s.part.tasks, t.exceptions) (hflawless : (s.device tgt.place).Flawless first) :
    device = tgt.index ∧ ∃ t', s.part.tasks[task]? = some t' ∧
      (m.launch task device offset threads (r.waiting list)).Ends s fun result t =>
        Watched first tgt.place device t' s t result := by
  obtain ⟨t', ht', happart, hbound⟩ := hmodest
  obtain ⟨hactive, hplace⟩ := hfit.placed tgt htgt
  have hworks := hfit.grounded.1
  rw [htgt] at hworks
  cases hworks
  exact ⟨rfl, t', ht', launch_watched hbooks hactive hplace hlearned
    (awaits_of_answerable (hfit.sure trivial).1 htgt hanswers list) hflawless ht'
    (hexceptions t' (List.mem_of_getElem? ht')) happart hbound⟩

-- An instruction in the middle of a run leaves nothing that failed if it does well.
theorem step_prospers (hi : i.opcode.isNode ∨ i.opcode = .addDep) (hbooks : Books rest s)
    (hfit : Run.Fit True (i :: is) r s) (htgt : r.target = some tgt)
    (hanswers : r.Answerable c.device.nextEvent tgt.place s) (hlearned : Learned s) (hmodest : i.Modest s)
    (hexceptions : ∀ t ∈ s.part.tasks, t.exceptions) (h : r.Prospers c tgt.place s)
    (hstep : m.step k i r s = (.ok r', t)) : r'.Prospers c tgt.place t := by
  rcases hi with hnode | hopcode
  case inr =>
    cases i with
    | addDep list =>
      by_cases hlt : list < r.lists.length
      case pos =>
        cases (step_addDep hlt).symm.trans hstep
        exact ⟨h.channel, h.events⟩
      case neg =>
        simp only [step, if_neg hlt] at hstep
        cases hstep
    | _ => cases hopcode
  case inl =>
    obtain ⟨hsustains, hfits⟩ := (step_fit hbooks hfit).of_eq hstep
    have honward := hsustains.stable.onward tgt.place
    have hpast := ((hfit.sure trivial).1 tgt htgt).1
    obtain ⟨htgt', hanswers'⟩ := step_answerable (.inl hnode) hbooks hfit htgt hanswers hlearned hmodest hstep
    have hchannel : c.Prospers (t.platform.channel tgt.place) := by
      by_cases hlaunch : i.opcode = .launch
      case neg =>
        have hinnocent : (s.device tgt.place).Innocent (t.device tgt.place) := (step_innocent hnode hlaunch).of_eq hstep
        exact h.channel.unlaunched hpast honward (hinnocent.flawless hanswers'.accountable h.channel.flawless)
          ((step_unlaunched hlaunch hbooks hfit.placed hfit.grounded.1 tgt.place).of_eq hstep)
      case pos =>
        cases i with
        | launch task device list offset threads =>
          obtain ⟨-, t', -, hwatched⟩ := run_watched (m := m) hbooks hfit htgt hanswers hlearned hmodest hexceptions
            h.channel.flawless
          obtain ⟨event, u, hcall, hrecord⟩ := Action.bind_ok.mp hstep
          have hquiet : Quiet tgt.place u t := (quiet_record k (some event)).of_eq hrecord
          have hcalm : Calm u t := (calm_record k (some event)).of_eq hrecord
          cases hwatched.of_eq hcall with
          | done hlaunched hflawless hcomplete =>
            refine h.channel.launched hpast honward (hquiet.flawless hflawless)
              (hlaunched.then_idle (hquiet.idles hcalm)) ?_
            exact (hquiet.status?_eq event).trans hcomplete
        | _ => cases hlaunch
    -- what was just issued is known, and did not fail
    obtain ⟨hpast', hknown⟩ := ((hfits r' rfl).1.sure trivial).1 tgt htgt'
    refine ⟨hchannel, ?_⟩
    rw [((step_gives hnode).of_eq hstep).1.events]
    refine List.forall_mem_append.mpr ⟨fun x hx => honward.status?_eq hpast (h.events x hx), fun x hx => ?_⟩
    obtain ⟨event, hlast, rfl⟩ : ∃ event, r'.last = some event ∧ (k, event) = x := by simpa using hx
    exact hchannel.flawless.complete hpast' (hanswers'.recent event (.inr hlast)) (hknown event (.inr hlast))

theorem Reaches.prospers {s' : Hosted Context} (h : Reaches m k pre r s r' s')
    (hpre : ∀ i ∈ pre, (i.opcode.isNode ∨ i.opcode = .addDep) ∧ i.Modest s) (hbooks : Books rest s)
    (hfit : Run.Fit True (pre ++ is) r s) (htgt : r.target = some tgt)
    (hanswers : r.Answerable c.device.nextEvent tgt.place s) (hlearned : Learned s)
    (hexceptions : ∀ t ∈ s.part.tasks, t.exceptions) (hprospers : r.Prospers c tgt.place s) :
    r'.Prospers c tgt.place s' := by
  induction h with
  | done => exact hprospers
  | @step k i pre r r₁ r' s s₁ s' hstep _ ih =>
    obtain ⟨⟨hi, hmodest⟩, hpre⟩ := List.forall_mem_cons.mp hpre
    obtain ⟨hsustains, hfits⟩ := (step_fit hbooks hfit).of_eq hstep
    obtain ⟨htgt₁, hanswers₁⟩ := step_answerable hi hbooks hfit htgt hanswers hlearned hmodest hstep
    exact ih (fun j hj => ⟨(hpre j hj).1, modest_of_stable hsustains.stable (hpre j hj).2⟩) hsustains.books
      (hfits r₁ rfl).1 htgt₁ hanswers₁ (((schooled_step k i r).of_eq hstep).learned hlearned)
      (hsustains.stable.tasks ▸ hexceptions)
      (step_prospers hi hbooks hfit htgt hanswers hlearned hmodest hexceptions hprospers hstep)

-- An instruction that fails called for no kernel, or for one that failed, and then it tells.
theorem step_tells (hnode : i.opcode.isNode) (hbooks : Books rest s)
    (hfit : Run.Fit True (i :: is) r s) (htgt : r.target = some tgt) (hanswers : r.Answerable first tgt.place s)
    (hlearned : Learned s) (hmodest : i.Modest s) (hexceptions : ∀ t ∈ s.part.tasks, t.exceptions)
    (hflawless : (s.device tgt.place).Flawless first) (hstep : m.step k i r s = (.error e, t)) :
    (s.platform.channel tgt.place).Unlaunched (t.platform.channel tgt.place) ∨
      ∃ task list offset threads t' event fault, i = .launch task tgt.index list offset threads ∧
        s.part.tasks[task]? = some t' ∧
          (s.platform.channel tgt.place).Launched event (t.platform.channel tgt.place) ∧
            (t.device tgt.place).status? event = some (.failed fault) ∧
              e = .device tgt.index event.number (.task t'.id fault) := by
  by_cases hlaunch : i.opcode = .launch
  case neg => exact .inl ((step_unlaunched hlaunch hbooks hfit.placed hfit.grounded.1 tgt.place).of_eq hstep)
  case pos =>
    cases i with
    | launch task device list offset threads =>
      obtain ⟨rfl, t', ht', hwatched⟩ := run_watched (m := m) hbooks hfit htgt hanswers hlearned hmodest hexceptions
        hflawless
      have hends : (m.step k (.launch task tgt.index list offset threads) r).Ends s fun result t =>
          ∀ e, result = .error e → Watched first tgt.place tgt.index t' s t (.error e) := by
        refine hwatched.bind (fun event u _ => ?_) fun _ _ hu e he => by cases he; exact hu
        exact (count_ends m _ 0 u).bind (fun _ _ _ => nofun) fun _ _ ⟨hok, _⟩ => by cases hok
      cases hends.of_eq hstep e rfl with
      | refused hidle => exact .inl hidle.unlaunched
      | failed hlaunched hfailed =>
        exact .inr ⟨task, list, offset, threads, t', _, _, rfl, ht', hlaunched, hfailed, rfl⟩
    | _ => cases hlaunch

-- The end of a program waits for what did not fail.
theorem Reaches.prospers_ending {ending : Ending} {s' : Hosted Context} (h : Reaches m k ending.instructions r s r' s')
    (hbooks : Books rest s) (hfit : Run.Fit True ending.instructions r s) (htgt : r.target = some tgt)
    (hanswers : r.Answerable c.device.nextEvent tgt.place s) (hprospers : r.Prospers c tgt.place s) :
    r'.Prospers c tgt.place s' := by
  have hfit' : Run.Fit False (ending.instructions ++ []) r s :=
    ⟨hfit.placed, by rw [List.append_nil]; exact hfit.grounded, False.elim⟩
  have hlt := hbooks.attached _ (List.mem_of_getElem? (hfit.placed tgt htgt).2)
  have honward := (h.fit hbooks hfit').1.stable.onward tgt.place
  have hpast := ((hfit.sure trivial).1 tgt htgt).1
  have hnone := h.unlaunched (fun i hi => ending.not_launch hi) hbooks hfit' tgt.place
  obtain ⟨-, -, ⟨-, hevents, hqueue⟩ | ⟨list, status, -, -, hready, hqueue, -, hevents⟩⟩ := h.ending htgt hlt
  case inl =>
    have hsame : (s'.device tgt.place).events = (s.device tgt.place).events := congrArg Queue.events hqueue
    refine ⟨hprospers.channel.unlaunched hpast honward (hprospers.channel.flawless.of_events hsame) hnone, ?_⟩
    rw [hevents]
    exact fun x hx => honward.status?_eq hpast (hprospers.events x hx)
  case inr =>
    have hawaits := awaits_of_answerable (hfit.sure trivial).1 htgt hanswers (some list)
    have hcomplete : status = .complete := hready.mpr fun w hw _ =>
      hprospers.channel.flawless.complete hpast (hawaits.recent w hw) (hawaits.aware.known w hw)
    have hlast : (s'.device tgt.place).status? (s.queue tgt.place).nextEvent = some .complete := by
      have hstatus := Queue.status?_nextEvent (s.queue tgt.place) (r.waiting (some list)) status
      rw [← hqueue, hcomplete] at hstatus
      exact hstatus
    have hflawless : (s'.device tgt.place).Flawless c.device.nextEvent := by
      intro e fault hfirst hstatus
      have hfailed : (s'.queue tgt.place).status? e = some (.failed fault) := hstatus
      by_cases heq : e = (s.queue tgt.place).nextEvent
      case pos =>
        rw [heq] at hstatus
        cases hlast.symm.trans hstatus
      case neg =>
        rw [hqueue, Queue.status?_issue_of_ne heq] at hfailed
        exact hprospers.channel.flawless e fault hfirst hfailed
    refine ⟨hprospers.channel.unlaunched hpast honward hflawless hnone, ?_⟩
    rw [hevents]
    refine List.forall_mem_append.mpr ⟨fun x hx => honward.status?_eq hpast (hprospers.events x hx), ?_⟩
    exact List.forall_mem_singleton.mpr hlast

theorem Opens.prospers {rest : Nat → List (BufferId × Nat)} (h : Opens rest tgt is s r t) (htrust : Trusted s) :
    r.Prospers (s.platform.channel tgt.place) tgt.place t where
  channel :=
    have hpast := (htrust.honest tgt.place).past
    (Channel.Prospers.refl hpast).unlaunched hpast h.sure.onward (h.quiet.flawless hpast.flawless)
      (Channel.Quiet.idles h.quiet.platform.1 h.sure.journal).unlaunched
  events := by
    rw [h.events]
    nofun

-- The LAUNCH at `index` called for a kernel that failed. All before it did well, it told what happened, and the
-- device was given nothing to do after it.
structure Caught (m : Machine) (place index : Nat) (event : EventId) (s t : Hosted Context) (e : Error) : Prop where
  told  : ∃ task device list offset threads t' fault,
    m.instructions[index]? = some (.launch task device list offset threads) ∧ s.part.tasks[task]? = some t' ∧
      (t.device place).status? event = some (.failed fault) ∧
        e = .instruction index .launch (.device device event.number (.task t'.id fault))
  alone : ∃ r u, Reaches m 0 (m.instructions.take index) (Run.start m) s r u ∧
    (u.platform.channel place).Launched event (t.platform.channel place)

-- An execution that does well leaves nothing that failed; and if a launch failed, then it tells which one.
structure Candid (m : Machine) (place : Nat) (s : Hosted Context) (result : Except Error Execution)
    (t : Hosted Context) : Prop where
  complete : ∀ e, result = .ok e → e.target.place = place ∧ place < t.platform.channels.length ∧
    (∀ event status, (s.device place).nextEvent ≤ event.number → (t.device place).status? event = some status →
      status = .complete) ∧ ∀ x ∈ e.events, (t.device place).status? x.2 = some .complete
  caught   : ∀ event fault, (s.platform.channel place).Took event (t.platform.channel place) →
    (t.device place).status? event = some (.failed fault) →
      ∃ index e, result = .error e ∧ m.Caught place index event s t e

namespace Regular

variable {steps : List Step} {g : Graph} {l : Layout} {passes : List Pass} {q : Registry} {rest : Nat → List (BufferId × Nat)}
  {front blocks before tail : List Instruction} {done : List Site} {site : Site} {s' u : Hosted Context}

theorem prospers (h : m.Regular q steps g l passes s)
    (hready : Renders.Ready m steps g l passes rest tgt front blocks s r t) (htrust : Trusted s)
    (hlearned : Learned s) (hexceptions : ∀ t, .task t ∈ steps → t.exceptions) {ss : List Site}
    (hlaid : Laid g l passes ss pre) (hss : ss ⊆ sites l.order passes.length)
    (hpre : pre ++ tail = blocks ++ l.ending.instructions) (hreach : Reaches m front.length pre r t r' s') :
    r'.Prospers (s.platform.channel tgt.place) tgt.place s' := by
  have hopens := hready.opens
  refine hreach.prospers (h.modest_of_laid hready hlaid hss hpre) hopens.sustains.books (hpre ▸ hopens.fit)
    hopens.target (hopens.answerable htrust) (hopens.schooled.learned hlearned) (fun t ht => ?_)
    (hopens.prospers htrust)
  exact hexceptions t (h.tasks t (hopens.schooled.tasks ▸ ht))

-- Where a run breaks off, it is for the launch that failed, if there is one.
theorem breaks_candid {source : Error} (h : m.Regular q steps g l passes s)
    (hready : Renders.Ready m steps g l passes rest tgt front blocks s r t) (htrust : Trusted s)
    (hlearned : Learned s) (hexceptions : ∀ t, .task t ∈ steps → t.exceptions)
    (hbreaks : Breaks m g l passes front.length (sites l.order passes.length) blocks r t done site before i r' s' source
      u) : m.Candid tgt.place s (.error (.instruction (front.length + before.length) i.opcode source))
        (invalidate u).2 := by
  obtain ⟨after, hrest, hs', hmodest⟩ := h.arrives hready htrust hlearned hbreaks
  obtain ⟨later, hsites⟩ := hbreaks.sites
  obtain ⟨_, _, hissued⟩ := hbreaks.issued
  have hrun := (h.prospers hready htrust hlearned hexceptions hbreaks.laid (hsites ▸ List.subset_append_left _ _) hrest
    hbreaks.reaches).channel
  have htasks : s'.part.tasks = s.part.tasks := hs'.sustains.stable.tasks.trans hready.opens.schooled.tasks
  have htells := step_tells hissued.isNode hs'.sustains.books hs'.fit hs'.target hs'.answers hs'.learned hmodest
    (fun t ht => hexceptions t (h.tasks t (htasks ▸ ht))) hrun.flawless hbreaks.fails
  -- what the context gives back is not looked at any more
  have hfailed := ((step_fit hs'.sustains.books hs'.fit).of_eq hbreaks.fails).1
  have hpast := ((hs'.fit.sure trivial).1 tgt hs'.target).1
  have hbroken := hfailed.stable.onward tgt.place
  have hcleared := invalidate_continues hfailed.books tgt.place
  have honward := Device.onward_lasting.trans hbroken hcleared.onward
  have hidle := Channel.Quiet.idles (quiet_invalidate u).platform.1 hcleared.journal
  refine ⟨nofun, fun event fault htook hstatus => ?_⟩
  rcases htells with hnone | ⟨task, list, offset, threads, t', own, cause, rfl, ht', hlaunched, hown, rfl⟩
  case inl =>
    have hcomplete := hrun.complete_of_took hpast honward
      (Channel.unlaunched_lasting.trans hnone hidle.unlaunched) htook
    cases hcomplete.symm.trans hstatus
  case inr =>
    have hlaunched := hlaunched.then_idle hidle
    rcases hrun.complete_or_eq_of_took hpast honward hlaunched htook with hcomplete | rfl
    case inl => cases hcomplete.symm.trans hstatus
    case inr =>
      have hsplit : m.instructions = (front ++ before) ++ .launch task tgt.index list offset threads :: after := by
        rw [hready.instructions, ← hrest, List.append_assoc]
      refine ⟨_, _, rfl, ⟨task, tgt.index, list, offset, threads, t', cause, ?_, htasks ▸ ht', ?_, rfl⟩, r', s', ?_, hlaunched⟩
      case refine_1 => simp [hsplit]
      case refine_2 => exact hcleared.onward.status?_eq (hbroken.past hpast) hown
      case refine_3 =>
        rw [hsplit, ← List.length_append, List.take_left']
        · exact hready.reaches.append (Nat.zero_add _ ▸ hbreaks.reaches)
        · rfl

theorem execute_candid (h : m.Regular q steps g l passes s) (hbooks : Books rest s) (htrust : Trusted s)
    (hlearned : Learned s) (hsuits : m.Suits s.platform.registry s.part)
    (hexceptions : ∀ t, .task t ∈ steps → t.exceptions) :
    ∃ place ∈ s.part.devices, m.execute.Ends s fun result t => m.Candid place s result t := by
  obtain ⟨tgt, front, blocks, r, t, hready⟩ := h.ready hbooks htrust hsuits
  refine ⟨tgt.place, List.mem_of_getElem? hready.device, ?_⟩
  rcases reaches_or_breaks (m := m) (k := front.length) (s := t) hready.laid hready.lists with
    ⟨r', s', hreach⟩ | ⟨done, site, before, i, r', s', e, u, hbreaks⟩
  case inr =>
    rw [Action.Ends, hready.execute_eq hbreaks]
    exact h.breaks_candid hready htrust hlearned hexceptions hbreaks
  case inl =>
    have hopens := hready.opens
    obtain ⟨htgt, hanswers⟩ := h.answerable hready htrust hlearned hready.laid (List.Subset.refl _) rfl hreach
    obtain ⟨hsustains, hfit⟩ := hreach.fit hopens.sustains.books hopens.fit
    have hlt := hsustains.books.attached _ (List.mem_of_getElem? (hfit.placed tgt htgt).2)
    obtain ⟨r₂, s₂, hending, htgt₂, -⟩ := ending_answers (m := m) (k := front.length + blocks.length) htgt
      hlt (awaits_of_answerable (hfit.sure trivial).1 htgt hanswers) l.ending
    have hprospers := hending.prospers_ending hsustains.books hfit htgt hanswers
      (h.prospers hready htrust hlearned hexceptions hready.laid (List.Subset.refl _) rfl hreach)
    have hfit' : Run.Fit True (l.ending.instructions ++ []) r' s' := by rwa [List.append_nil]
    have honward := (hending.fit hsustains.books hfit').1.stable.onward tgt.place
    have hpast := honward.past ((hfit.sure trivial).1 tgt htgt).1
    obtain ⟨-, hchannels, -⟩ := hending.ending htgt hlt
    obtain ⟨counters, hexecute⟩ := Machine.execute_eq (hready.reaches_end hreach hending) htgt₂
    rw [Action.Ends, hexecute]
    refine ⟨fun e he => ?_, fun event fault htook hstatus => ?_⟩
    case refine_1 =>
      cases he
      exact ⟨rfl, hchannels ▸ hlt, fun event status hfirst hstatus =>
        Option.some.inj (hstatus.symm.trans (hprospers.channel.flawless.complete hpast hfirst ⟨status, hstatus⟩)),
        hprospers.events⟩
    case refine_2 =>
      have hcomplete := hprospers.channel.complete_of_took hpast (Device.onward_lasting.refl _)
        (Channel.unlaunched_lasting.refl _) htook
      cases hcomplete.symm.trans hstatus

end Regular

end Machine

namespace Schedule.Equipped

open Tenant (Lodged)

variable {rest : Nat → List (BufferId × Nat)} {place : Nat} {q : Registry} {s : Hosted Schedule}

theorem execute_candid (h : Equipped place q s) (hlodged : Lodged rest ⟨s.platform, s.part.tenant⟩)
    (hregular : ∀ step ∈ s.part.steps, step.Regular q) (hexceptions : ∀ t, .task t ∈ s.part.steps → t.exceptions) :
    Schedule.execute.Ends s fun result t =>
      t.platform = s.platform ∧ (∃ e, result = .error e) ∨ ∃ m c, t.part.machine = some m ∧
        m.execute ⟨s.platform, c⟩ = (result, ⟨t.platform, t.part.context⟩) ∧
          m.Candid place ⟨s.platform, c⟩ result ⟨t.platform, t.part.context⟩ := by
  refine h.execute_of_run hlodged (fun e t _ _ hplatform => .inl ⟨hplatform, e, rfl⟩)
    fun t m ht hlodged' hplatform hsteps _ hm => ?_
  obtain ⟨⟨g, l, passes, hregular⟩, -, hsuits⟩ := ht.regular hlodged' (hsteps ▸ hregular) hm
  obtain ⟨place', hplace, hcandid⟩ := hregular.execute_candid hlodged'.books hlodged'.trust ht.learned hsuits
    (hsteps ▸ hexceptions)
  cases ht.eq_place hplace
  rw [hplatform] at hcandid
  exact .inr ⟨m, t.part.context, hm, hplatform ▸ rfl, hplatform ▸ hcandid⟩

end Schedule.Equipped

namespace Neighbourhood

variable {place k : Nat}

-- Whatever was asked of the schedules on a device before, one of them whose tasks all have exceptions leaves nothing
-- that failed if its execution does well, and so it is in vain to wait for bad news. If a launch of it failed, its
-- execution failed because of this launch, and gave the device nothing to do any more.
theorem proceed_candid {p : Platform} (hfresh : House.Fresh ⟨p, []⟩) (hplace : place < p.channels.length)
    (plans : List Plan) (moves : List (Nat × Affair)) :
    let h := (settle p place plans).proceed moves
    ∀ x, h.neighbours[k]? = some x → (∀ step ∈ x.schedule.steps, step.Regular p.registry) →
      (∀ t, .task t ∈ x.schedule.steps → t.exceptions) →
      Schedule.execute.Ends ⟨h.platform, x.schedule⟩ fun result t =>
        let c := h.platform.channel place
        let c' := t.platform.channel place
        (∀ e, result = .ok e →
          (∀ event status, c.device.nextEvent ≤ event.number → c'.device.status? event = some status →
            status = .complete) ∧
          (∀ x ∈ e.events, c'.device.status? x.2 = some .complete) ∧
            (Execution.wait ⟨t.platform, e⟩).1 = .ok ⟨⟩) ∧
        ∀ event fault, c.Took event c' → c'.device.status? event = some (.failed fault) →
          ∃ m s index e, t.part.machine = some m ∧
            m.execute ⟨h.platform, s⟩ = (result, ⟨t.platform, t.part.context⟩) ∧ result = .error e ∧
              m.Caught place index event ⟨h.platform, s⟩ ⟨t.platform, t.part.context⟩ e := by
  intro h x hx hregular hexceptions
  have horderly : h.Orderly place p.registry := (settle_orderly hfresh hplace plans).proceed moves
  refine ((horderly.equipped k x hx).execute_candid (horderly.sound.lodged hx) hregular hexceptions).mono
    fun result t ht => ?_
  rcases ht with ⟨hplatform, e, rfl⟩ | ⟨m, s, hm, hexecute, hcandid⟩
  case inl =>
    refine ⟨nofun, fun event fault ⟨calls, call, hcalls, hcall, _⟩ _ => ?_⟩
    rw [hplatform, List.self_eq_append_right] at hcalls
    rw [hcalls] at hcall
    cases hcall
  case inr =>
    refine ⟨fun e he => ?_, fun event fault htook hstatus => ?_⟩
    case refine_1 =>
      obtain ⟨hplace, hlt, hcomplete, hevents⟩ := hcandid.complete e he
      exact ⟨hcomplete, hevents, (Execution.wait_ends (s := ⟨t.platform, e⟩) hplace hlt).2.1 hevents⟩
    case refine_2 =>
      obtain ⟨index, e, he, hcaught⟩ := hcandid.caught event fault htook hstatus
      exact ⟨m, s, index, e, hm, hexecute, he, hcaught⟩

-- A kernel that does not like fours.
def fussy : Kernel := fun v =>
  if v.arguments = [[4]] then .failing (.reported "no") else {}

def lab : Platform :=
  { House.inn.platform with
    channels := [{ device := {
      limits := { computeUnits := 1 }
      threadName := "queue"
      kernels := [("increment", Kernel.increment), ("fussy", fussy)] } }] }

def trying (name kernel : String) (o : HostObject) : Plan where
  name
  config := {}
  steps := [.streamIn o, .task { House.calling kernel o with exceptions := true }, .streamOut o]

-- Two schedules in passes of one element; the second pass of the second one is to fail.
def trials : Neighbourhood :=
  (settle lab 0 [trying "one" "increment" House.first, trying "two" "fussy" House.second]).proceed
    [(0, .turn (.compile (some 1))), (1, .turn (.compile (some 1)))]

-- The first one leaves nothing that failed. The second launch of the second one fails: what was streamed in before is
-- complete, nothing was streamed out.
theorem trials_candid :
    House.Fresh ⟨lab, []⟩ ∧ 0 < lab.channels.length ∧ ∃ x y,
      trials.neighbours[0]? = some x ∧ trials.neighbours[1]? = some y ∧
      (∀ step ∈ x.schedule.steps ++ y.schedule.steps, step.Regular lab.registry) ∧
      (∀ t, .task t ∈ x.schedule.steps ++ y.schedule.steps → t.exceptions) ∧
      (∃ e s, Schedule.execute ⟨trials.platform, x.schedule⟩ = (.ok e, s) ∧
        (Execution.wait ⟨s.platform, e⟩).1 = .ok ⟨⟩) ∧
      ∃ m s e t, Schedule.execute ⟨trials.platform, y.schedule⟩ = (.error e, t) ∧
        e = .instruction 9 .launch (.device 0 5 (.task "count" (.kernel (.reported "no")))) ∧
          t.part.machine = some m ∧
            m.Caught 0 9 ⟨5⟩ ⟨trials.platform, s⟩ ⟨t.platform, t.part.context⟩ e := by
  have hfresh : House.Fresh ⟨lab, []⟩ := ⟨rfl, by simp [lab], by simp [lab], by decide⟩
  have hplace : 0 < lab.channels.length := by decide
  have hone : (trials.neighbours[0]?.map fun x => (x.schedule.steps,
      (Schedule.execute ⟨trials.platform, x.schedule⟩).1.isOk)) =
      some ([.streamIn House.first, .task { House.calling "increment" House.first with exceptions := true },
        .streamOut House.first], true) := by
    decide +kernel
  have htwo : (trials.neighbours[1]?.map fun y : Neighbour => (y.schedule.steps,
      (Schedule.execute ⟨trials.platform, y.schedule⟩).1,
      decide (∃ call ∈ ((Schedule.execute ⟨trials.platform, y.schedule⟩).2.platform.channel 0).journal,
        call.Launches ⟨5⟩),
      ((Schedule.execute ⟨trials.platform, y.schedule⟩).2.platform.channel 0).device.status? ⟨5⟩)) =
      some ([.streamIn House.second, .task { House.calling "fussy" House.second with exceptions := true },
        .streamOut House.second],
        .error (.instruction 9 .launch (.device 0 5 (.task "count" (.kernel (.reported "no"))))), true,
        some (.failed (.kernel (.reported "no")))) := by
    decide +kernel
  have hjournal : (trials.platform.channel 0).journal = [] := by decide +kernel
  obtain ⟨x, hx, hx'⟩ := Option.map_eq_some_iff.mp hone
  obtain ⟨y, hy, hy'⟩ := Option.map_eq_some_iff.mp htwo
  rcases hfirst : Schedule.execute ⟨trials.platform, x.schedule⟩ with ⟨result, s⟩
  rcases hsecond : Schedule.execute ⟨trials.platform, y.schedule⟩ with ⟨result', t⟩
  simp only [hfirst, hsecond, Prod.mk.injEq, decide_eq_true_eq] at hx' hy'
  obtain ⟨hsteps, hok⟩ := hx'
  obtain ⟨hsteps', rfl, ⟨call, hcall, hlaunches⟩, hstatus⟩ := hy'
  have hwhole : House.first.Whole lab.registry := ⟨rfl, fun e he => by cases he; decide⟩
  have hwhole' : House.second.Whole lab.registry := ⟨rfl, fun e he => by cases he; decide⟩
  have hregular : ∀ step ∈ x.schedule.steps, step.Regular lab.registry := by
    rw [hsteps]
    simp only [List.forall_mem_cons]
    exact ⟨Step.regular_streamIn hwhole, Step.regular_task (by simpa [House.calling] using hwhole) (by decide),
      Step.regular_streamOut hwhole, by simp⟩
  have hregular' : ∀ step ∈ y.schedule.steps, step.Regular lab.registry := by
    rw [hsteps']
    simp only [List.forall_mem_cons]
    exact ⟨Step.regular_streamIn hwhole', Step.regular_task (by simpa [House.calling] using hwhole') (by decide),
      Step.regular_streamOut hwhole', by simp⟩
  have hexceptions : ∀ t, .task t ∈ x.schedule.steps → t.exceptions := by simp [hsteps]
  have hexceptions' : ∀ t, .task t ∈ y.schedule.steps → t.exceptions := by simp [hsteps']
  have hcandid := (proceed_candid hfresh hplace _ _ x hx hregular hexceptions).of_eq hfirst
  have hcandid' := (proceed_candid hfresh hplace _ _ y hy hregular' hexceptions').of_eq hsecond
  refine ⟨hfresh, hplace, x, y, hx, hy, List.forall_mem_append.mpr ⟨hregular, hregular'⟩, fun u hu => ?_, ?_, ?_⟩
  case refine_1 => exact (List.mem_append.mp hu).elim (hexceptions u) (hexceptions' u)
  case refine_2 =>
    cases result with
    | error => cases hok
    | ok e => exact ⟨e, s, hfirst, (hcandid.1 e rfl).2.2⟩
  case refine_3 =>
    have htook : (trials.platform.channel 0).Took ⟨5⟩ (t.platform.channel 0) :=
      ⟨_, call, by rw [hjournal, List.nil_append], hcall, hlaunches⟩
    obtain ⟨m, u, index, e, hm, -, he, hcaught⟩ := hcandid'.2 _ _ htook hstatus
    cases he
    obtain ⟨_, _, _, _, _, _, _, -, -, -, he⟩ := hcaught.told
    obtain rfl : 9 = index := (Error.instruction.inj he).1
    exact ⟨m, u, _, t, hsecond, rfl, hm, hcaught⟩

end Neighbourhood
end Offload
