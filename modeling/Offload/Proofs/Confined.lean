import Offload.Proofs.Execute
import Offload.Proofs.Failing
import Offload.Proofs.Renders

/-!
What whole executions fail for. They come to their end, or to a node whose step something is wrong with; and if an
execution does well that found nothing on the device, then so does every other, as far as its data is concerned.
-/

namespace Offload

open Compile (Made Laid Issued Site sites passSites)

-- An execution failed at one of the steps. Only the last one is waited for.
def Step.Fails (tuning : Tuning) (first : Nat) (c c' : Channel) (steps : List Step) (e : Error) : Prop :=
  ∃ before step after index opcode source, steps = before ++ step :: after ∧ e = .instruction index opcode source ∧
    step.Mishap tuning first c c' before opcode source ∧ (opcode = .streamOutBlocking → after = [])

theorem Compile.Ending.of_mem {i : Instruction} (ending : Ending) (hi : i ∈ ending.instructions) :
    (∃ list, i = .barrier list) ∨ i = .finish := by
  cases ending with
  | blockingStreamOut => exact .inr (List.mem_singleton.mp hi)
  | barrier list => exact (List.mem_pair.mp hi).imp_left fun h => ⟨some list, h⟩

namespace Machine

open Context Compile

variable {rest : Nat → List (BufferId × Nat)} {s t : Hosted Context} {m : Machine} {steps : List Step} {g : Graph}
  {l : Layout} {passes : List Pass} {k first : Nat} {is pre tail : List Instruction} {r r' : Run} {q : Registry}
  {tgt : Target}

theorem Reaches.continues (h : Reaches m k pre r s r' t) (hbooks : Books rest s)
    (hfit : Run.Fit False (pre ++ tail) r s) (place : Nat) :
    (s.platform.channel place).Continues (t.platform.channel place) := by
  induction h with
  | done => exact Channel.continues_lasting.refl _
  | @step k i pre r r₁ r' s s₁ s' hstep _ ih =>
    obtain ⟨hsustains, hfits⟩ := (step_fit hbooks hfit).of_eq hstep
    have hdeals := ((step_deals (m := m) (k := k) hbooks hfit.placed hfit.grounded.1).of_eq hstep).1
    exact Channel.continues_lasting.trans (hdeals.continues hbooks ((schooled_step k i r).of_eq hstep) place)
      (ih hsustains.books (hfits r₁ rfl).1)

-- BEGIN and CONTEXT hand nothing over, and what is there after them was there before.
structure Opens (rest : Nat → List (BufferId × Nat)) (tgt : Target) (is : List Instruction) (s : Hosted Context)
    (r : Run) (t : Hosted Context) : Prop where
  sustains : Sustains True rest s t
  schooled : Schooled s t
  fit      : Run.Fit True is r t
  target   : r.target = some tgt
  silent   : ∀ e, ¬r.Mentions e
  events   : r.events = []
  quiet    : Quiet tgt.place s t
  found    : ∀ index, t.part.Valid index → s.part.Valid index
  sure     : (s.platform.channel tgt.place).Continues (t.platform.channel tgt.place)

theorem activate_ok {device place : Nat} (hplace : s.part.place device = .ok place) :
    (activate device).Ends s fun result t => result = .ok ⟨⟩ ∧ t.part.devices = s.part.devices := by
  unfold activate
  refine Action.Ends.bind_get ?_
  rw [hplace]
  refine Action.Ends.bind_of_ok (Action.lift_apply _ s) (Action.Ends.bind_get ?_)
  cases s.part.active with
  | none => exact ⟨rfl, rfl⟩
  | some current =>
    dsimp only
    split
    case isTrue => exact ⟨rfl, rfl⟩
    case isFalse => exact ⟨rfl, rfl⟩

theorem step_context_ok {device place : Nat} (hplace : s.part.place device = .ok place) :
    ∃ r' t, m.step k (.context device) r s = (.ok r', t) := by
  have hends : (m.step k (.context device) r).Ends s fun result _ => ∃ r', result = .ok r' := by
    refine (activate_ok hplace).bind (fun _ t ⟨_, hdevices⟩ => ?_) fun _ _ ⟨hok, _⟩ => by cases hok
    refine Action.Ends.bind_get ?_
    rw [place_ok.mpr (hdevices ▸ place_ok.mp hplace)]
    refine Action.Ends.bind_of_ok (Action.lift_apply _ t) ?_
    exact (count_ends m _ 0 t).bind (fun _ _ _ => ⟨_, rfl⟩) fun _ _ ⟨hok, _⟩ => by cases hok
  obtain ⟨r', hr'⟩ := hends
  exact ⟨r', _, Prod.ext hr' rfl⟩

theorem exists_opens (nodes lists : Nat) {device place tasks : Nat} (hbooks : Books rest s) (htrust : Trusted s)
    (hplace : s.part.place device = .ok place) (htasks : tasks ≤ s.part.tasks.length)
    (his : ∀ i ∈ is, i.opcode ≠ .context ∧ i.WorksOn (some device) ∧ s.part.Admits s.platform.registry i) :
    ∃ r t, Reaches m 0 [.begin nodes tasks lists, .context device] (Run.start m) s r t ∧
      Opens rest ⟨device, place⟩ is s r t ∧ r.lists = (Run.start m).lists := by
  obtain ⟨counters, hbegin⟩ := begin_eq (m := m) (k := 0) (r := Run.start m) (s := s) nodes lists htasks
  generalize hs₁ : { s with platform := { s.platform with counters } } = s₁ at hbegin
  have hpart : s₁.part = s.part := by rw [← hs₁]
  have hupholds : (m.step 0 (.begin nodes tasks lists) (Run.start m)).Ends s fun _ t => Upholds True rest s t :=
    step_upholds hbooks nofun trivial nofun fun _ => ⟨nofun, trivial⟩
  have hfirst := hupholds.of_eq hbegin
  have hplace₁ : s₁.part.place device = .ok place := hpart ▸ hplace
  obtain ⟨r₂, s₂, hcontext⟩ := step_context_ok (m := m) (k := 1) (r := (Run.start m).record 0 none) hplace₁
  obtain ⟨hsecond, hok⟩ := (step_context_sustains (P := True) hfirst.books device).of_eq hcontext
  obtain ⟨hplaced, hcurrent, hlists, hlast⟩ := hok r₂ rfl
  obtain ⟨hquiet, place', hplace', hr₂⟩ := step_context hcontext
  cases (hpart ▸ hplace').symm.trans hplace
  have hreach : Reaches m 0 [.begin nodes tasks lists, .context device] (Run.start m) s r₂ s₂ :=
    .step hbegin (.step hcontext .done)
  have hboth := hfirst.toSustains.trans hsecond
  have hsilent : ∀ e, ¬r₂.Mentions e := not_mentions_start (m := m) hlists hlast
  have htarget : r₂.target = some ⟨device, place⟩ := by rw [hr₂, (record_apply _ 1 none).2.1]
  refine ⟨r₂, s₂, hreach, ⟨hboth, hreach.schooled, ⟨hplaced, ?_, fun _ => ⟨fun tgt _ => ⟨?_, fun e he => ?_⟩, ?_⟩⟩,
    htarget, hsilent, ?_, ?_, fun index hvalid => ?_, ?_⟩, hlists⟩
  case refine_1 =>
    rw [hcurrent]
    exact grounded_of_worksOn fun i hi => ⟨(his i hi).1, (his i hi).2.1⟩
  case refine_2 => exact ((hboth.trust trivial htrust).honest _).past
  case refine_3 => exact absurd he (hsilent e)
  case refine_4 => exact fun i hi => ⟨(his i hi).1, hboth.stable.admits (his i hi).2.2⟩
  case refine_5 => rw [hr₂, (record_apply _ 1 none).2.2.2.2, (record_apply _ 0 none).2.2.2.2]; rfl
  case refine_6 => exact (quiet_lasting place).trans ((step_begin hbegin).1 place) (hquiet place)
  case refine_7 => exact hpart ▸ ((step_context_valid hfirst.books hcontext).mp hvalid).2
  case refine_8 =>
    have hfit : Run.Fit False ([.begin nodes tasks lists, .context device] ++ []) (Run.start m) s :=
      ⟨nofun, ⟨trivial, trivial, trivial⟩, False.elim⟩
    exact hreach.continues hbooks hfit place

theorem barrier_answers {list : Option Nat} (htgt : r.target = some tgt)
    (hlt : tgt.place < s.platform.channels.length) (hawaits : (s.device tgt.place).Awaits first (r.waiting list)) :
    (m.step k (.barrier list) r).Ends s fun result t => (t.device tgt.place).Accountable first ∧
      ∃ r', result = .ok r' ∧ r'.target = some tgt := by
  have hbarrier : (Channel.barrier (r.waiting list)).Ends (s.platform.channel tgt.place) fun result c =>
      c.device.Accountable first ∧ ∃ e, result = .ok e := by
    obtain ⟨_, _, hcall, _⟩ := Channel.queue_barrier (r.waiting list) (s.platform.channel tgt.place)
    exact ⟨Device.barrier_accountable hawaits, _, congrArg Prod.fst hcall⟩
  change (m.synchronize r k Channel.barrier list).Ends s _
  unfold synchronize
  refine Action.Ends.bind_of_ok (a := tgt) (t := s) (by rw [Run.device_ok.mpr htgt]; rfl) ?_
  have htarget : (onTarget tgt (Channel.barrier (r.waiting list))).Ends s fun result t =>
      (t.device tgt.place).Accountable first ∧ ∃ e, result = .ok e := Platform.onChannel_ends hlt hbarrier
  refine htarget.bind (fun event t ⟨ht, _⟩ => ?_) fun _ _ ⟨_, _, hok⟩ => by cases hok
  refine (count_ends m _ tgt.place t).bind (fun _ u ⟨_, hu⟩ => ?_) fun _ _ ⟨hok, _⟩ => by cases hok
  refine (count_ends m _ tgt.place u).bind (fun _ v ⟨_, hv⟩ => ?_) fun _ _ ⟨hok, _⟩ => by cases hok
  exact ⟨hv.accountable (hu.accountable ht), _, rfl,
    (record_apply _ k _).2.1.trans ((r.target_consume list).trans htgt)⟩

theorem finish_answers (htgt : r.target = some tgt) (haccountable : (s.device tgt.place).Accountable first) :
    (m.step k .finish r).Ends s fun result t => (t.device tgt.place).Accountable first ∧
      ∃ r', result = .ok r' ∧ r'.target = some tgt :=
  (count_ends m _ tgt.place s).bind (fun _ _ ⟨_, ht⟩ => ⟨ht.accountable haccountable, _, rfl, htgt⟩)
    fun _ _ ⟨hok, _⟩ => by cases hok

-- An execution that gets to its ending fails no more.
theorem ending_answers (htgt : r.target = some tgt) (hlt : tgt.place < s.platform.channels.length)
    (hawaits : ∀ list, (s.device tgt.place).Awaits first (r.waiting list)) (ending : Ending) :
    ∃ r' t, Reaches m k ending.instructions r s r' t ∧ r'.target = some tgt ∧
      (t.device tgt.place).Accountable first := by
  have hfinish {k : Nat} {r : Run} {s : Hosted Context} (htgt : r.target = some tgt)
      (haccountable : (s.device tgt.place).Accountable first) :
      ∃ r' t, Reaches m k [.finish] r s r' t ∧ r'.target = some tgt ∧ (t.device tgt.place).Accountable first := by
    obtain ⟨ht, r', hr', htgt'⟩ := finish_answers (m := m) (k := k) htgt haccountable
    exact ⟨r', _, .step (Prod.ext hr' rfl) .done, htgt', ht⟩
  cases ending with
  | blockingStreamOut => exact hfinish htgt (hawaits none).accountable
  | barrier list =>
    obtain ⟨ht, r₁, hr₁, htgt₁⟩ := barrier_answers (m := m) (k := k) htgt hlt (hawaits (some list))
    obtain ⟨r', t, hreach, htgt', ht'⟩ := hfinish (k := k + 1) htgt₁ ht
    exact ⟨r', t, .step (Prod.ext hr₁ rfl) hreach, htgt', ht'⟩

theorem Opens.past (h : Opens rest tgt is s r t) (htrust : Trusted s) : (t.device tgt.place).Past :=
  ((h.sustains.trust trivial htrust).honest tgt.place).past

theorem Opens.next (h : Opens rest tgt is s r t) :
    (t.device tgt.place).nextEvent = (s.device tgt.place).nextEvent :=
  congrArg Queue.next h.quiet.platform.1

-- To begin with there is nothing to wait for, and nothing to blame anyone for.
theorem Opens.answerable (h : Opens rest tgt is s r t) (htrust : Trusted s) :
    r.Answerable (s.device tgt.place).nextEvent tgt.place t :=
  ⟨fun e he => absurd he (h.silent e), Nat.le_of_eq h.next.symm, h.next ▸ (h.past htrust).accountable⟩

-- A machine for some steps, on its device and before the first of its blocks.
structure Renders.Ready (m : Machine) (steps : List Step) (g : Graph) (l : Layout) (passes : List Pass)
    (rest : Nat → List (BufferId × Nat)) (tgt : Target) (front blocks : List Instruction) (s : Hosted Context)
    (r : Run) (t : Hosted Context) : Prop where
  device       : s.part.devices[tgt.index]? = some tgt.place
  instructions : m.instructions = front ++ (blocks ++ l.ending.instructions)
  laid         : Laid g l passes (sites l.order passes.length) blocks
  passes       : 0 < passes.length
  reaches      : Reaches m 0 front (Run.start m) s r t
  opens        : Opens rest tgt (blocks ++ l.ending.instructions) s r t
  lists        : r.lists.length = l.lists.lists.length

theorem Renders.ready (h : m.Renders steps g l passes s) (hbooks : Books rest s) (htrust : Trusted s)
    (hsuits : m.Suits s.platform.registry s.part) :
    ∃ tgt front blocks r t, Ready m steps g l passes rest tgt front blocks s r t := by
  obtain ⟨_, place, _, hmade⟩ := h.made
  obtain ⟨nodes, blocks, his, hlaid⟩ := hmade.instructions
  obtain ⟨_, _, _, _, is, his', hall⟩ := hsuits
  cases his.symm.trans his'
  obtain ⟨r, t, hreach, hopens, hlists⟩ := exists_opens (m := m) nodes l.lists.lists.length
    hbooks htrust hmade.place (Nat.le_refl _) hall
  refine ⟨⟨l.device, place⟩, _, blocks, r, t, place_ok.mp hmade.place, his, hlaid, ?_, hreach, hopens, ?_⟩
  case refine_1 => exact List.length_pos_of_ne_nil (Pass.plan_inside hmade.plan).1
  case refine_2 => rw [hlists, Run.start, List.length_map, hmade.lists]

namespace Renders.Ready

variable {front blocks before : List Instruction} {done : List Site} {site : Site} {i : Instruction} {e : Error}
  {s' u : Hosted Context}

theorem fit (h : Ready m steps g l passes rest tgt front blocks s r t) :
    Run.Fit False (blocks ++ l.ending.instructions) r t :=
  ⟨h.opens.fit.placed, h.opens.fit.grounded, False.elim⟩

theorem execute_eq (h : Ready m steps g l passes rest tgt front blocks s r t)
    (hbreaks : Breaks m g l passes front.length (sites l.order passes.length) blocks r t done site before i r' s' e
      u) : m.execute s = (.error (.instruction (front.length + before.length) i.opcode e), (invalidate u).2) := by
  have hplain : e.Plain := plain_step _ i r' s' e (congrArg Prod.fst hbreaks.fails)
  refine execute_of_error ?_
  rw [h.instructions, steps_append h.reaches, Nat.zero_add, hbreaks.steps_eq, hplain.atInstruction]

theorem reaches_end {r₂ : Run} {s₂ : Hosted Context} (h : Ready m steps g l passes rest tgt front blocks s r t)
    (hreach : Reaches m front.length blocks r t r' s')
    (hending : Reaches m (front.length + blocks.length) l.ending.instructions r' s' r₂ s₂) :
    Reaches m 0 m.instructions (Run.start m) s r₂ s₂ := by
  rw [h.instructions]
  refine h.reaches.append ?_
  rw [Nat.zero_add]
  exact hreach.append hending

end Renders.Ready

-- An execution that finds nothing on the device and does well brings in or writes what it brings out.
theorem Renders.execute_sates (h : m.Renders steps g l passes s) (hbooks : Books rest s) (htrust : Trusted s)
    (hsuits : m.Suits s.platform.registry s.part) (hnone : ∀ index, ¬s.part.Valid index) :
    m.execute.Ends s fun result _ => ∀ x, result = .ok x → Step.Sated steps := by
  obtain ⟨tgt, front, blocks, r, t, hready⟩ := h.ready hbooks htrust hsuits
  have hstable := hready.opens.sustains.stable
  rcases reaches_or_breaks (m := m) (k := front.length) (s := t) hready.laid hready.lists with
    ⟨r', s', hreach⟩ | ⟨done, site, before, i, r', s', e, u, hbreaks⟩
  case inl =>
    exact fun _ _ => (h.of_stable hstable).sated_of_sites hready.laid hready.passes hreach hready.opens.sustains.books
      hready.fit fun index hvalid => hnone index (hready.opens.found index hvalid)
  case inr =>
    rw [Action.Ends, hready.execute_eq hbreaks]
    intro x hx
    cases hx

-- A run in order, that goes on with `is`.
structure Arrives (rest : Nat → List (BufferId × Nat)) (tgt : Target) (is : List Instruction) (first : Nat)
    (t : Hosted Context) (r : Run) (s : Hosted Context) : Prop where
  sustains : Sustains True rest t s
  fit      : Run.Fit True is r s
  target   : r.target = some tgt
  answers  : r.Answerable first tgt.place s
  learned  : Learned s

theorem invalidate_continues (hbooks : Books rest s) (place : Nat) :
    (s.platform.channel place).Continues ((invalidate s).2.platform.channel place) :=
  (Deals.of_does (A := fun _ _ => True) .clear trivial).continues hbooks (schooled_invalidate s) place

-- Only at the last step something blocks.
theorem Renders.last (h : m.Renders steps g l passes s) {front blocks before : List Instruction} {done : List Site}
    {site : Site} {i : Instruction} {e : Error} {s' u : Hosted Context}
    (hready : Ready m steps g l passes rest tgt front blocks s r t)
    (hbreaks : Breaks m g l passes front.length (sites l.order passes.length) blocks r t done site before i r' s' e u)
    (hi : i.opcode = .streamOutBlocking) {seen post : List Nat} (horder : l.order = seen ++ site.node :: post)
    (hdone : done = sites l.order site.pass ++ passSites seen site.pass) (hpass : site.pass < passes.length) :
    post = [] := by
  obtain ⟨later, hsites⟩ := hbreaks.sites
  obtain ⟨after, hblocks⟩ := hbreaks.blocks
  obtain ⟨_, _, hissued⟩ := hbreaks.issued
  have hafter : after = [] := by
    have hend := h.blocking (front ++ before) i (after ++ l.ending.instructions)
      (by rw [hready.instructions, hblocks, List.append_assoc, List.append_assoc, List.cons_append]) hi
    have hlength := congrArg List.length hend
    rw [List.length_append] at hlength
    cases hending : l.ending <;> rw [hending] at hlength <;> simp [Ending.instructions] at hlength
    exact hlength
  -- with this node all are issued
  have hcount := hready.laid.countP_isNode
  rw [hblocks, hafter, List.countP_append, hbreaks.laid.countP_isNode, List.countP_singleton, if_pos hissued.isNode,
    hdone, length_sites, List.length_append, length_sites, passSites, List.length_map, horder, List.length_append,
    List.length_cons] at hcount
  have hmany := Nat.mul_le_mul_right (seen.length + (post.length + 1)) (Nat.succ_le_of_lt hpass)
  rw [Nat.succ_mul] at hmany
  exact List.eq_nil_of_length_eq_zero (by omega)

namespace Regular

variable {front blocks before : List Instruction} {done : List Site} {site : Site} {i : Instruction} {e : Error}
  {s' u : Hosted Context}

-- Some of the blocks are about nothing but nodes, and ask for what is there.
theorem modest_of_laid (h : m.Regular q steps g l passes s)
    (hready : Renders.Ready m steps g l passes rest tgt front blocks s r t) {ss : List Site}
    (hlaid : Laid g l passes ss pre) (hss : ss ⊆ sites l.order passes.length)
    (hpre : pre ++ tail = blocks ++ l.ending.instructions) :
    ∀ i ∈ pre, (i.opcode.isNode ∨ i.opcode = .addDep) ∧ i.Modest t := by
  intro i hi
  rcases hlaid.origin hi with ⟨_, rfl⟩ | ⟨site, hsite, pass, hpass, hissued⟩
  case inl => exact ⟨.inr rfl, trivial⟩
  case inr =>
    have hmem : i ∈ m.instructions := by
      rw [hready.instructions, ← hpre]
      exact List.mem_append_right _ (List.mem_append_left _ hi)
    have hnode : site.node ∈ l.order := by
      obtain ⟨_, _, hsite⟩ := List.mem_flatMap.mp (hss hsite)
      obtain ⟨id, hid, rfl⟩ := List.mem_map.mp hsite
      exact hid
    exact ⟨.inl hissued.isNode, (h.of_stable hready.opens.sustains.stable).modest hmem hnode
      (List.mem_of_getElem? hpass) hissued⟩

-- A run over some of the blocks waits for its own events only.
theorem answerable (h : m.Regular q steps g l passes s)
    (hready : Renders.Ready m steps g l passes rest tgt front blocks s r t) (htrust : Trusted s)
    (hlearned : Learned s) {ss : List Site} (hlaid : Laid g l passes ss pre) (hss : ss ⊆ sites l.order passes.length)
    (hpre : pre ++ tail = blocks ++ l.ending.instructions) (hreach : Reaches m front.length pre r t r' s') :
    r'.target = some tgt ∧ r'.Answerable (s.device tgt.place).nextEvent tgt.place s' := by
  have hopens := hready.opens
  exact hreach.answerable (h.modest_of_laid hready hlaid hss hpre) hopens.sustains.books (hpre ▸ hopens.fit)
    hopens.target (hopens.answerable htrust) (hopens.schooled.learned hlearned)

-- A run that breaks off was in order until it came to the node.
theorem arrives (h : m.Regular q steps g l passes s)
    (hready : Renders.Ready m steps g l passes rest tgt front blocks s r t) (htrust : Trusted s)
    (hlearned : Learned s)
    (hbreaks : Breaks m g l passes front.length (sites l.order passes.length) blocks r t done site before i r' s' e
      u) : ∃ after, before ++ (i :: after) = blocks ++ l.ending.instructions ∧
        Arrives rest tgt (i :: after) (s.device tgt.place).nextEvent t r' s' ∧ i.Modest s' := by
  have hopens := hready.opens
  obtain ⟨later, hsites⟩ := hbreaks.sites
  obtain ⟨after, hblocks⟩ := hbreaks.blocks
  obtain ⟨pass, hpass, hissued⟩ := hbreaks.issued
  have hrest : before ++ (i :: after ++ l.ending.instructions) = blocks ++ l.ending.instructions := by
    rw [hblocks, List.append_assoc]
  obtain ⟨htgt, hanswers⟩ := h.answerable hready htrust hlearned hbreaks.laid
    (hsites ▸ List.subset_append_left _ _) hrest hbreaks.reaches
  obtain ⟨hsustains, hfit⟩ := hbreaks.reaches.fit hopens.sustains.books (hrest ▸ hopens.fit)
  refine ⟨_, hrest, ⟨hsustains, hfit, htgt, hanswers,
    hbreaks.reaches.schooled.learned (hopens.schooled.learned hlearned)⟩, ?_⟩
  refine modest_of_stable hsustains.stable
    ((h.of_stable hopens.sustains.stable).modest ?_ ?_ (List.mem_of_getElem? hpass) hissued)
  case refine_1 => simp [hready.instructions, hblocks]
  case refine_2 =>
    obtain ⟨-, seen, post, horder, -⟩ := sites_split hsites
    simp [horder]

-- Where a run breaks off, something is wrong with the step.
theorem fails (h : m.Regular q steps g l passes s)
    (hready : Renders.Ready m steps g l passes rest tgt front blocks s r t) (htrust : Trusted s)
    (hlearned : Learned s) (hsated : Step.Sated steps ∨ ∀ index, ¬s.part.Valid index)
    (hbreaks : Breaks m g l passes front.length (sites l.order passes.length) blocks r t done site before i r' s' e
      u) : ((invalidate u).2.device tgt.place).Accountable (s.device tgt.place).nextEvent ∧
      Step.Fails m.config.tuning (s.device tgt.place).nextEvent (s.platform.channel tgt.place)
        ((invalidate u).2.platform.channel tgt.place) steps
        (.instruction (front.length + before.length) i.opcode e) := by
  have hopens := hready.opens
  have hreg := h.of_stable hopens.sustains.stable
  obtain ⟨later, hsites⟩ := hbreaks.sites
  obtain ⟨pass, hpass, hissued⟩ := hbreaks.issued
  obtain ⟨hlt, seen, post, horder, hdone⟩ := sites_split hsites
  obtain ⟨first, from', hsteps, hfirst, hfrom⟩ := split_of_forall₂ (horder ▸ hreg.follows)
  obtain ⟨step, last, ⟨kind, hkind, hdoes⟩, hlast, rfl⟩ := List.forall₂_cons_left_iff.mp hfrom
  have hmeans := hissued.means hkind hdoes
  obtain ⟨after, hrest, hs', hmodest⟩ := h.arrives hready htrust hlearned hbreaks
  have hstable := hs'.sustains.stable
  have hbooks := hs'.sustains.books
  have hheeds := hreg.heeds hpass (hdone ▸ hbreaks.laid) hbreaks.reaches hopens.sustains.books
    (hrest ▸ hready.fit) hfirst hsteps hissued hmeans
    (hsated.imp_right fun hnone index hvalid => hnone index (hopens.found index hvalid))
  have hmeans' : i.Means s'.part step := hissued.means hkind
    (hdoes.mono (hstable.objects ▸ List.prefix_rfl) (hstable.tasks ▸ List.prefix_rfl))
  obtain ⟨haccountable, hmishap⟩ := (step_mishap hissued.isNode hbooks hs'.fit.placed hs'.fit.grounded.1 hs'.target
    (hs'.fit.sure trivial).1 hs'.answers hs'.learned hmodest).of_eq hbreaks.fails
  -- what the context gives back makes no difference to that
  have hfailed := ((step_fit hbooks hs'.fit).of_eq hbreaks.fails).1
  have hbefore : (s.platform.channel tgt.place).Continues (s'.platform.channel tgt.place) :=
    Channel.continues_lasting.trans hopens.sure
      (hbreaks.reaches.continues hopens.sustains.books (hrest ▸ hready.fit) tgt.place)
  have htrusted := hfailed.trust trivial (hs'.sustains.trust trivial (hopens.sustains.trust trivial htrust))
  have hquiet : Quiet tgt.place u (invalidate u).2 := quiet_invalidate u
  refine ⟨hquiet.accountable haccountable, first, step, last, _, _, e, hsteps, rfl,
    (hmishap e rfl step first hmeans' hheeds).mono hbefore (invalidate_continues hfailed.books tgt.place)
      (htrusted.honest tgt.place).past, fun hi => ?_⟩
  cases h.last hready hbreaks hi horder hdone hlt
  cases hlast
  rfl

-- An execution gets to its end, or to a step that something is wrong with; and what failed on the device by then,
-- failed because a kernel did.
theorem execute_fails (h : m.Regular q steps g l passes s) (hbooks : Books rest s) (htrust : Trusted s)
    (hlearned : Learned s) (hsuits : m.Suits s.platform.registry s.part)
    (hsated : Step.Sated steps ∨ ∀ index, ¬s.part.Valid index) : ∃ place ∈ s.part.devices,
      m.execute.Ends s fun result t => (t.device place).Accountable (s.device place).nextEvent ∧
        ∀ e, result = .error e → Step.Fails m.config.tuning (s.device place).nextEvent (s.platform.channel place)
          (t.platform.channel place) steps e := by
  obtain ⟨tgt, front, blocks, r, t, hready⟩ := h.ready hbooks htrust hsuits
  refine ⟨tgt.place, List.mem_of_getElem? hready.device, ?_⟩
  have hopens := hready.opens
  rcases reaches_or_breaks (m := m) (k := front.length) (s := t) hready.laid hready.lists with
    ⟨r', s', hreach⟩ | ⟨done, site, before, i, r', s', e, u, hbreaks⟩
  case inr =>
    rw [Action.Ends, hready.execute_eq hbreaks]
    obtain ⟨haccountable, hfails⟩ := h.fails hready htrust hlearned hsated hbreaks
    exact ⟨haccountable, fun e he => by cases he; exact hfails⟩
  case inl =>
    obtain ⟨htgt, hanswers⟩ := h.answerable hready htrust hlearned hready.laid (List.Subset.refl _) rfl hreach
    obtain ⟨hsustains, hfit⟩ := hreach.fit hopens.sustains.books hopens.fit
    have hlt := hsustains.books.attached _ (List.mem_of_getElem? (hfit.placed tgt htgt).2)
    obtain ⟨r₂, s₂, hending, htgt₂, haccountable⟩ := ending_answers (m := m) (k := front.length + blocks.length) htgt
      hlt (awaits_of_answerable (hfit.sure trivial).1 htgt hanswers) l.ending
    obtain ⟨counters, hexecute⟩ := Machine.execute_eq (hready.reaches_end hreach hending) htgt₂
    rw [Action.Ends, hexecute]
    exact ⟨haccountable, fun e he => by cases he⟩

end Regular

end Machine
end Offload
