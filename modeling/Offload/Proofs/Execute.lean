import Offload.Proofs.Abreast

/-!
Executions end as the steps do, unless the device refuses an allocation: the instructions other than
those of nodes never fail, and the first node whose step cannot be taken costs the context its buffers.
-/

namespace Offload

open Compile (Site Log Layout Laid Issued Faithful Made sites passSites)

namespace Context

variable {b : Bench} {s : Hosted Context}

-- Giving a buffer up leaves what a context relies on besides its buffers.
structure Relieved (place : Nat) (p p' : Platform) : Prop where
  bytes    : p'.registry.bytes = p.registry.bytes
  channels : p'.channels.length = p.channels.length
  kernels  : (p'.channel place).device.kernels = (p.channel place).device.kernels
  limits   : (p'.channel place).device.limits = (p.channel place).device.limits
  sound    : (p.channel place).device.memory.Sound → (p'.channel place).device.memory.Sound

namespace Relieved

variable {place : Nat} {p p' p'' : Platform}

theorem refl (p : Platform) : Relieved place p p :=
  ⟨rfl, rfl, rfl, rfl, id⟩

theorem trans (h : Relieved place p p') (h' : Relieved place p' p'') : Relieved place p p'' where
  bytes := h'.bytes.trans h.bytes
  channels := h'.channels.trans h.channels
  kernels := h'.kernels.trans h.kernels
  limits := h'.limits.trans h.limits
  sound := h'.sound ∘ h.sound

theorem release (hplace : place < p.channels.length) (buffer : BufferId) :
    Relieved place p (Platform.onChannel place (Channel.release buffer) p).2 := by
  have hchannel : (Platform.onChannel place (Channel.release buffer) p).2.channel place =
      (Channel.release buffer (p.channel place)).2 := Platform.channel_setChannel hplace _
  constructor
  case bytes => rfl
  case channels => exact Platform.length_setChannel p _
  case kernels => rw [hchannel]; rfl
  case limits => rw [hchannel]; rfl
  case sound =>
    rw [hchannel]
    exact (Memory.release_frame _ buffer).1

theorem clearOwner (p : Platform) (h : Handle) :
    Relieved place p { p with registry := p.registry.clearOwner h } where
  bytes := funext fun k => Registry.bytes_clearOwner p.registry h k
  channels := rfl
  kernels := rfl
  limits := rfl
  sound := id

end Relieved

theorem relieved_giveUp {c : Context} {place : Nat} {p : Platform} (hplace : place < p.channels.length)
    (hactive : ∀ active, c.active = some active → c.devices[active]? = some place) (x : Binding) :
    Relieved place p (c.giveUp p x) := by
  have hclear (active : Nat) (p' : Platform) (h : Relieved place p p') : Relieved place p
      (if (p'.registry.record? x.object.handle).bind Ownership.owner = some active then
        { p' with registry := p'.registry.clearOwner x.object.handle }
      else p') := by
    split
    case isTrue => exact h.trans (.clearOwner _ _)
    case isFalse => exact h
  unfold giveUp
  cases hdevice : c.active with
  | none => exact .refl p
  | some active =>
    apply hclear
    rw [hactive active hdevice]
    cases x.state.buffer with
    | none => exact .refl p
    | some buffer => exact .release hplace buffer

theorem relieved_giveUpAll {c : Context} {place : Nat} {p : Platform} (hplace : place < p.channels.length)
    (hactive : ∀ active, c.active = some active → c.devices[active]? = some place) (xs : List Binding) :
    Relieved place p (xs.foldl c.giveUp p) := by
  induction xs generalizing p with
  | nil => exact .refl p
  | cons x xs ih =>
    have hfirst := relieved_giveUp hplace hactive x
    exact hfirst.trans (ih (hfirst.channels ▸ hplace))

theorem state?_detachAll (c : Context) (h : Handle) :
    c.detachAll.state? h = (c.state? h).map ObjectState.detach := by
  simp [state?, detachAll, List.find?_map, Function.comp_def]

-- A context that has given its buffers up holds no copy, and is as good as before otherwise.
theorem invalidate_intact (hi : Intact b s) : Intact b (invalidate s).2 ∧
    (invalidate s).2.world b.place = { s.world b.place with copies := fun _ => none } := by
  have hactive : ∀ active, s.part.active = some active → s.part.devices[active]? = some b.place :=
    fun active h => hi.active active h ▸ hi.devices
  have hrelieved := relieved_giveUpAll hi.attached hactive s.part.bindings
  have hbuffer {h : Handle} {st : ObjectState} (hst : s.part.detachAll.state? h = some st) :
      st.buffer = none := by
    rw [state?_detachAll] at hst
    obtain ⟨_, _, rfl⟩ := Option.map_eq_some_iff.mp hst
    rfl
  have hnone (h : Handle) : s.part.detachAll.buffer? h = none := by
    cases hst : s.part.detachAll.state? h with
    | none => rw [buffer?, hst]; rfl
    | some st => rw [buffer?, hst]; exact hbuffer hst
  refine ⟨hi.of_frame ?_ ?_ ?_, World.ext hrelieved.bytes (funext fun h => Intact.copies_of_none (hnone h))⟩
  case refine_1 =>
    have hobjects : s.part.detachAll.objects = s.part.objects := by
      simp [detachAll, objects, Function.comp_def]
    exact ⟨rfl, hrelieved.channels, hrelieved.kernels, hrelieved.limits, hobjects, rfl, rfl, rfl,
      hrelieved.sound⟩
  case refine_2 =>
    intro h st id hst hid
    cases (hbuffer hst).symm.trans hid
  case refine_3 =>
    intro h h' id hid
    cases (hnone h).symm.trans hid

-- The one device that a context uses is activated without giving anything up.
theorem activate_eq (hi : Intact b s) : activate b.index s =
    (.ok ⟨⟩, { s with part := { s.part with active := some b.index } }) := by
  unfold activate
  rw [Action.bind_of_ok (Action.get_apply s), place_ok.mpr hi.devices]
  rw [Action.bind_of_ok (Action.lift_apply _ s), Action.bind_of_ok (Action.get_apply s)]
  cases hactive : s.part.active with
  | none => rfl
  | some current =>
    cases hi.active current hactive
    simp only [ne_eq, not_true_eq_false, if_false]
    rfl

end Context

namespace Machine

open Context (Granted granted_ok)

variable {b : Bench} {m : Machine} {g : Graph} {d : Graph.Dependencies} {l : Layout}
  {passes : List Pass} {r r' : Run} {s s' t : Hosted Context} {k : Nat} {i : Instruction}
  {is : List Instruction} {ss : List Site}

theorem reaches_appends {places : List Nat} (hlt : ∀ j ∈ places, j < r.lists.length) (k : Nat)
    (s : Hosted Context) :
    ∃ r', Reaches m k (places.map .addDep) r s r' s ∧ r'.lists.length = r.lists.length := by
  induction places generalizing k r with
  | nil => exact ⟨r, .done, rfl⟩
  | cons place places ih =>
    have hstep := step_addDep (m := m) (k := k) (s := s) (hlt place (by simp))
    obtain ⟨r', hreach, hlength⟩ := ih (r := { r with
      lists := r.lists.modify place (·.append r.last)
      states := r.states.set k .completed }) (fun j hj => by simpa using hlt j (by simp [hj])) (k + 1)
    exact ⟨r', .step hstep hreach, hlength.trans (by simp)⟩

-- A run over blocks that breaks off at the instruction of a site.
structure Breaks (m : Machine) (g : Graph) (l : Layout) (passes : List Pass) (k : Nat) (ss : List Site)
    (is : List Instruction) (r : Run) (s : Hosted Context) (done : List Site) (site : Site)
    (before : List Instruction) (i : Instruction) (r' : Run) (s' : Hosted Context) (e : Error)
    (u : Hosted Context) : Prop where
  sites   : ∃ rest, ss = done ++ site :: rest
  blocks  : ∃ after, is = before ++ i :: after
  laid    : Laid g l passes done before
  issued  : ∃ p, passes[site.pass]? = some p ∧ Issued g l p site.node i
  reaches : Reaches m k before r s r' s'
  fails   : m.step (k + before.length) i r' s' = (.error e, u)

-- If anything fails among the blocks, it is the instruction of a node.
theorem reaches_or_breaks (h : Laid g l passes ss is)
    (hlength : r.lists.length = l.lists.lists.length) :
    (∃ r' s', Reaches m k is r s r' s') ∨
      ∃ done site before i r' s' e u, Breaks m g l passes k ss is r s done site before i r' s' e u := by
  induction h generalizing k r s with
  | nil => exact .inl ⟨r, s, .done⟩
  | @cons site p i ss is hpass hi _ ih =>
    rcases hstep : m.step k i r s with ⟨e | r₁, s₁⟩
    case error =>
      exact .inr ⟨[], site, [], i, r, s, e, s₁, ⟨ss, rfl⟩, ⟨_, rfl⟩, .nil, ⟨p, hpass, hi⟩, .done, hstep⟩
    case ok =>
      have hlength₁ : r₁.lists.length = r.lists.length := by
        rw [((step_gives hi.isNode).of_eq hstep).1.lists]
        cases i.wait? <;> simp [Run.consume]
      have hlt : ∀ j ∈ l.appends site.node, j < r₁.lists.length := fun j hj => by
        rw [hlength₁, hlength]
        exact Compile.lt_of_mem_appends hj
      obtain ⟨r₂, happends, hlength₂⟩ := reaches_appends (m := m) hlt (k + 1) s₁
      have hblock := Reaches.step hstep happends
      rcases ih (k := k + (i :: (l.appends site.node).map Instruction.addDep).length) (r := r₂) (s := s₁)
          (by rw [hlength₂, hlength₁, hlength]) with
        ⟨r', s', hreach⟩ | ⟨done, site', before, j, r', s', e, u, hbreaks⟩
      case inl => exact .inl ⟨r', s', hblock.append hreach⟩
      case inr =>
        obtain ⟨rest, rfl⟩ := hbreaks.sites
        obtain ⟨after, rfl⟩ := hbreaks.blocks
        refine .inr ⟨site :: done, site', _, j, r', s', e, u, ⟨rest, rfl⟩, ⟨after, ?_⟩,
          .cons hpass hi hbreaks.laid, hbreaks.issued, hblock.append hbreaks.reaches, ?_⟩
        case refine_1 => rw [List.append_assoc]
        case refine_2 =>
          rw [List.length_append, ← Nat.add_assoc]
          exact hbreaks.fails

theorem Breaks.steps_eq {done : List Site} {site : Site} {before : List Instruction} {e : Error}
    {u : Hosted Context} (h : Breaks m g l passes k ss is r s done site before i r' s' e u)
    (tail : List Instruction) : m.steps k (is ++ tail) r s =
      (.error (e.atInstruction (k + before.length) i.opcode), (Context.invalidate u).2) := by
  obtain ⟨after, rfl⟩ := h.blocks
  rw [List.append_assoc, steps_append h.reaches, List.cons_append, steps_of_error h.fails]

theorem begin_eq (nodes lists : Nat) {tasks : Nat} (h : tasks ≤ s.part.tasks.length) :
    ∃ counters, m.step k (.begin nodes tasks lists) r s =
      (.ok (r.record k none), { s with platform := { s.platform with counters } }) := by
  obtain ⟨counters, hrecord⟩ := record_eq m r k none s
  refine ⟨counters, ?_⟩
  simp only [step]
  rw [Action.bind_of_ok (Action.get_apply s)]
  simp only [if_neg (Nat.not_lt_of_le h)]
  exact hrecord

theorem context_eq (hi : Intact b s) : ∃ counters, m.step k (.context b.index) r s =
    (.ok ({ r with target := some { index := b.index, place := b.place } }.record k none),
      { platform := { s.platform with counters }, part := { s.part with active := some b.index } }) := by
  have hplace : ({ s.part with active := some b.index } : Context).place b.index = .ok b.place :=
    Context.place_ok.mpr hi.devices
  obtain ⟨counters, hrecord⟩ := record_eq m
    { r with target := some { index := b.index, place := b.place } } k none
    { s with part := { s.part with active := some b.index } }
  refine ⟨counters, ?_⟩
  simp only [step]
  rw [Action.bind_of_ok (Context.activate_eq hi), Action.bind_of_ok (Action.get_apply _), hplace,
    Action.bind_of_ok (Action.lift_apply _ _)]
  exact hrecord

-- BEGIN and CONTEXT are accepted, and leave what there is as it was.
theorem reaches_header (hi : Intact b s) (nodes lists : Nat) {tasks : Nat} (htasks : tasks ≤ b.tasks.length) :
    ∃ r' s', Reaches m 0 [.begin nodes tasks lists, .context b.index] (Run.start m) s r' s' ∧
      Intact b s' ∧ s'.world b.place = s.world b.place := by
  obtain ⟨counters, hbegin⟩ := begin_eq (m := m) (k := 0) (r := Run.start m) (s := s)
    nodes lists (hi.tasks ▸ htasks)
  obtain ⟨counters', hcontext⟩ := context_eq (m := m) (k := 1) (r := (Run.start m).record 0 none)
    (hi.counters counters)
  have hactivated : Intact b { s with part := { s.part with active := some b.index } } :=
    { hi with active := fun device h => (Option.some.inj h).symm }
  exact ⟨_, _, .step hbegin (.step hcontext .done), hactivated.counters counters', rfl⟩

theorem barrier_eq (hplace : b.place < s.platform.channels.length)
    (ht : r.target = some { index := b.index, place := b.place }) (list : Option Nat) :
    ∃ r' t status, m.step k (.barrier list) r s = (.ok r', t) ∧ r'.target = r.target ∧
      r'.events = r.events ++ [(k, (s.queue b.place).nextEvent)] ∧
      (Intact b s → Intact b t ∧ t.world b.place = s.world b.place) ∧
      t.queue b.place = (s.queue b.place).issue (r.waiting list) status ∧
      (status = .complete ↔ (s.queue b.place).Ready (r.waiting list)) := by
  obtain ⟨status, c, hbarrier, _, hready, hqueue, fault, hran⟩ :=
    Channel.queue_barrier (r.waiting list) (s.platform.channel b.place)
  have hcommand := onTarget_eq (t := ⟨b.index, b.place⟩) (Channel.barrier (r.waiting list)) s
  rw [hbarrier] at hcommand
  obtain ⟨counters, hcount⟩ := count_apply m Counters.countBarrier (s.setChannel b.place c)
  obtain ⟨counters', hrecord⟩ := record_eq m
    { r.consume list with final := some (s.queue b.place).nextEvent } k
    (some (s.queue b.place).nextEvent) { s.setChannel b.place c with
      platform := { (s.setChannel b.place c).platform with counters } }
  have hstep : m.step k (.barrier list) r s = m.record
      { r.consume list with final := some (s.queue b.place).nextEvent } k
      (some (s.queue b.place).nextEvent) { s.setChannel b.place c with
        platform := { (s.setChannel b.place c).platform with counters } } := by
    simp only [step, synchronize]
    rw [device_eq ht, Action.bind_of_ok (Action.lift_apply _ s), Action.bind_of_ok hcommand,
      Action.bind_of_ok hcount]
    rfl
  rw [hrecord] at hstep
  have hconsume : (r.consume list).target = r.target ∧ (r.consume list).events = r.events := by
    cases list <;> exact ⟨rfl, rfl⟩
  obtain ⟨_, htarget, _, _, hevents⟩ := record_apply
    { r.consume list with final := some (s.queue b.place).nextEvent } k
    (some (s.queue b.place).nextEvent)
  refine ⟨_, _, status, hstep, htarget.trans hconsume.1, ?_, fun hi => ?_, ?_, hready⟩
  case refine_1 =>
    rw [hevents]
    exact congrArg (· ++ _) hconsume.2
  case refine_2 =>
    obtain ⟨hintact, hworld⟩ := hi.ran hran
    exact ⟨(hintact.counters _).counters _, hworld⟩
  case refine_3 =>
    have hchannel : (s.setChannel b.place c).platform.channel b.place = c :=
      Platform.channel_setChannel hplace c
    exact (congrArg Channel.queue hchannel).trans hqueue

-- What the ending adds to a run: at most a barrier, which is complete if all was that it waited for.
theorem reaches_ending (hplace : b.place < s.platform.channels.length)
    (ht : r.target = some { index := b.index, place := b.place }) (ending : Compile.Ending) (k : Nat) :
    ∃ r' t, Reaches m k ending.instructions r s r' t ∧ r'.target = r.target ∧
      (Intact b s → Intact b t ∧ t.world b.place = s.world b.place) ∧
      (∀ e : EventId, e.number < (s.queue b.place).next →
        (t.queue b.place).status? e = (s.queue b.place).status? e) ∧
      r.events ⊆ r'.events ∧
      ∀ x ∈ r'.events, x ∈ r.events ∨ ∃ list, ending = .barrier list ∧
        ((s.queue b.place).Ready (r.waiting (some list)) →
          (t.queue b.place).status? x.2 = some .complete) := by
  have hfinish (k : Nat) (r : Run) (s : Hosted Context) : ∃ counters, m.step k .finish r s =
      (.ok (r.record k none), { s with platform := { s.platform with counters } }) :=
    record_eq m r k none s
  cases ending with
  | blockingStreamOut =>
    obtain ⟨counters, hstep⟩ := hfinish k r s
    obtain ⟨_, htarget, _, _, hevents⟩ := record_apply r k none
    have hevents : (r.record k none).events = r.events := by simpa using hevents
    refine ⟨_, _, .step hstep .done, htarget, fun hi => ⟨hi.counters counters, rfl⟩, fun _ _ => rfl, ?_,
      fun x hx => .inl (hevents ▸ hx)⟩
    rw [hevents]
    exact List.Subset.refl _
  | barrier list =>
    obtain ⟨r₁, s₁, status, hbarrier, htarget₁, hevents₁, hintact, hqueue, hready⟩ :=
      barrier_eq (m := m) (k := k) hplace ht (some list)
    obtain ⟨counters, hstep⟩ := hfinish (k + 1) r₁ s₁
    obtain ⟨_, htarget, _, _, hevents⟩ := record_apply r₁ (k + 1) none
    have hevents : (r₁.record (k + 1) none).events =
        r.events ++ [(k, (s.queue b.place).nextEvent)] := by simpa [hevents₁] using hevents
    refine ⟨_, _, .step hbarrier (.step hstep .done), htarget.trans htarget₁, fun hi => ?_,
      fun e he => ?_, ?_, fun x hx => ?_⟩
    case refine_1 =>
      have ⟨hi', hworld⟩ := hintact hi
      exact ⟨hi'.counters counters, hworld⟩
    case refine_2 =>
      change (s₁.queue b.place).status? e = _
      rw [hqueue]
      exact Queue.status?_issue he _ _
    case refine_3 =>
      rw [hevents]
      exact List.subset_append_left _ _
    case refine_4 =>
      rw [hevents] at hx
      refine (List.mem_append.mp hx).imp_right fun hlast => ⟨list, rfl, fun hall => ?_⟩
      cases List.mem_singleton.mp hlast
      change (s₁.queue b.place).status? _ = _
      rw [hqueue, hready.mpr hall]
      exact Queue.status?_nextEvent _ _ _

theorem execute_eq {target : Target} (h : Reaches m 0 m.instructions (Run.start m) s r t)
    (ht : r.target = some target) : ∃ counters, m.execute s =
      (.ok { target, final := r.final, states := r.states, events := r.events, pending := r.pending },
        { t with platform := { t.platform with counters } }) := by
  obtain ⟨counters, hcount⟩ := count_apply m Counters.countExecution t
  refine ⟨counters, ?_⟩
  unfold execute
  rw [Action.bind_of_ok (steps_ok.mpr h), device_eq ht, Action.bind_of_ok (Action.lift_apply _ t),
    Action.bind_of_ok hcount]
  rfl

-- How an execution is to end, given how the steps do.
def Performed (b : Bench) (outcome : Except Stop Unit × World) (result : Except Error Execution)
    (t : Hosted Context) : Prop :=
  match outcome with
  | (.ok _, w) => Intact b t ∧ t.world b.place = w ∧
    ∃ e, result = .ok e ∧ e.target = { index := b.index, place := b.place } ∧
      ∀ x ∈ e.events, (t.queue b.place).status? x.2 = some .complete
  | (.error (.nothingToRead h), w) => Intact b t ∧ t.world b.place = w ∧
    ∃ e, result = .error e ∧ e.root = .config (.nothingToRead h)
  | (.error .failed, _) => ∀ e, result = .ok e →
    e.target = { index := b.index, place := b.place } ∧
      ∃ x ∈ e.events, ∃ fault, (t.queue b.place).status? x.2 = some (.failed fault)

-- Once all blocks were issued, what the events on record tell is not changed by the ending.
theorem performed_of_blocks {log : Log} {w : World} {u : Setup} {init : List Instruction}
    (his : m.instructions = init ++ l.ending.instructions)
    (hinit : Reaches m 0 init (Run.start m) t r s)
    (hledger : Ledger m l b.place init.length passes.length [] log r s) (hdevice : l.device = b.index)
    (hf : Faithful g d l) (h : Abreast b g l passes u w passes.length [] log s) :
    m.execute.Ends t fun result v =>
      Performed b (w.windows u ((sites l.order passes.length).filterMap (b.work? g passes))) result v := by
  have ht : r.target = some { index := b.index, place := b.place } := hdevice ▸ hledger.target
  obtain ⟨r', v, hending, htarget, hintact, hstatus, hsubset, hevents⟩ :=
    reaches_ending (m := m) hledger.attached ht l.ending init.length
  have hreach : Reaches m 0 m.instructions (Run.start m) t r' v := by
    rw [his]
    refine hinit.append ?_
    rwa [Nat.zero_add]
  obtain ⟨counters, hexecute⟩ := execute_eq hreach (htarget.trans ht)
  rw [Action.Ends, hexecute]
  have hmem {event : EventId} : (∃ x ∈ r.events, x.2 = event) ↔ ∃ y ∈ log, y.2 = event := by
    have hmap := hledger.map_snd_events
    rw [← List.mem_map, hmap, List.mem_map]
  have hpassed : passSites [] passes.length = [] := rfl
  unfold Abreast at h
  rw [hpassed, List.append_nil] at h
  generalize w.windows u _ = outcome at h ⊢
  rcases outcome with ⟨(_ | _) | _, _⟩
  case nothingToRead => exact False.elim h
  case ok =>
    obtain ⟨hi, rfl, hcomplete⟩ := h
    obtain ⟨hi', hworld⟩ := hintact hi
    refine ⟨hi'.counters counters, hworld, _, rfl, rfl, fun x hx => ?_⟩
    rcases hevents x hx with hbefore | ⟨list, hlist, hready⟩
    case inl =>
      obtain ⟨y, hy, heq⟩ := hmem.mp ⟨x, hbefore, rfl⟩
      rw [← heq]
      exact (hstatus y.2 (hledger.past y hy)).trans (hcomplete y hy)
    case inr =>
      refine hready ?_
      rw [hledger.waiting_final hf hlist]
      intro e he _
      obtain ⟨y, hy, rfl⟩ := List.mem_map.mp he
      exact hcomplete y (List.mem_of_mem_filter hy)
  case failed =>
    obtain ⟨y, hy, fault, hfailed⟩ := h
    intro e he
    cases he
    obtain ⟨x, hx, heq⟩ := hmem.mpr ⟨y, hy, rfl⟩
    refine ⟨rfl, x, hsubset hx, fault, ?_⟩
    rw [heq]
    exact (hstatus y.2 (hledger.past y hy)).trans hfailed

theorem execute_of_error {e : Error} (h : m.steps 0 m.instructions (Run.start m) s = (.error e, t)) :
    m.execute s = (.error e, t) := by
  unfold execute
  exact Action.bind_of_error h

-- Where a run breaks off, either the step of the node cannot be taken or an allocation was refused.
theorem performed_of_breaks (hhosts : b.Hosts g l passes m) (hf : Faithful g d l) {w : World}
    {done rest : List Site} {site : Site} {seen post : List Nat} {log : Log} {p : Pass} {e : Error}
    {u : Hosted Context} (hsites : sites l.order passes.length = done ++ site :: rest)
    (hdone : done = sites l.order site.pass ++ passSites seen site.pass)
    (horder : l.order = seen ++ site.node :: post) (hpass : passes[site.pass]? = some p)
    (hi : Issued g l p site.node i) {k' : Nat}
    (hledger : Ledger m l b.place k' site.pass seen log r s)
    (h : Abreast b g l passes (b.setup m.config.tuning) w site.pass seen log s)
    (hfails : m.step k i r s = (.error e, u))
    (hexecute : m.execute t = (.error (e.atInstruction k i.opcode), (Context.invalidate u).2)) :
    m.execute.Ends t fun result v => Granted result → Performed b
      (w.windows (b.setup m.config.tuning)
        ((sites l.order passes.length).filterMap (b.work? g passes))) result v := by
  obtain ⟨step, hstep⟩ := hhosts.steps site.node (by simp [horder])
  have hwork : (site :: rest).filterMap (b.work? g passes) =
      (p.wrapped, step) :: rest.filterMap (b.work? g passes) := by
    simp [Bench.work?, hpass, hstep]
  rw [Action.Ends, hexecute, hsites, List.filterMap_append, hwork, World.windows_append]
  intro hgranted
  have hgranted' : Granted (.error e : Except Error Run) := by
    intro e' he' device cause hroot
    cases he'
    exact hgranted _ rfl device cause ((Error.root_atInstruction e k i.opcode).trans hroot)
  unfold Abreast at h
  rw [← hdone] at h
  generalize w.windows _ (done.filterMap _) = outcome at h ⊢
  rcases outcome with ⟨(_ | _) | _, _⟩
  case nothingToRead => exact False.elim h
  case failed =>
    intro e' he
    cases he
  case ok =>
    obtain ⟨hintact, rfl, hcomplete⟩ := h
    have hfollows := (step_follows hintact hi hstep hhosts.tasks
      (hhosts.scalars p (List.mem_of_getElem? hpass)) (hhosts.device ▸ hledger.target) hhosts.device
      (Abreast.ready hf hledger horder hcomplete)).of_eq hfails hgranted'
    change Follows b _ s (.error e) u at hfollows
    simp only [World.windows]
    generalize (s.world b.place).windowStep _ _ _ = after at hfollows
    rcases after with (_ | _) | _
    case ok =>
      obtain ⟨_, _, _, herror, _⟩ := hfollows
      cases herror
    case failed =>
      intro e' he
      cases he
    case nothingToRead =>
      obtain ⟨hsame, herror⟩ := hfollows
      subst hsame
      cases herror
      obtain ⟨hinvalid, hworld⟩ := Context.invalidate_intact hintact
      exact ⟨hinvalid, hworld, _, rfl, Error.root_atInstruction _ k i.opcode⟩

-- Once BEGIN and CONTEXT are behind it, an execution ends as the steps do from there, unless it is refused an
-- allocation.
theorem performs_of_header {r₀ : Registry} {c : Context} {batch : Option Nat} {q nodes tasks lists : Nat}
    {blocks : List Instruction} {r₁ : Run} {s₁ : Hosted Context} (hm : Made r₀ c g batch q d l passes m)
    (hhosts : b.Hosts g l passes m)
    (his : m.instructions = .begin nodes tasks lists :: .context l.device :: (blocks ++ l.ending.instructions))
    (hlaid : Laid g l passes (sites l.order passes.length) blocks) (hplace : s.part.place l.device = .ok b.place)
    (hattached : b.place < s.platform.channels.length)
    (hheader : Reaches m 0 [.begin nodes tasks lists, .context l.device] (Run.start m) s r₁ s₁)
    (hi₁ : Intact b s₁) : m.execute.Ends s fun result t => Granted result → Performed b
      ((s₁.world b.place).windows (b.setup m.config.tuning)
        ((sites l.order passes.length).filterMap (b.work? g passes))) result t := by
  have hf := hm.faithful
  obtain ⟨place, hstart, _, hledger⟩ := Ledger.start hm his
    (fun place h => by cases hplace.symm.trans h; exact hattached) hheader
  cases hplace.symm.trans hstart
  have habreast : Abreast b g l passes (b.setup m.config.tuning) (s₁.world b.place) 0 [] [] s₁ :=
    Abreast.start hi₁ g l passes _
  have hcarried := Abreast.carried (w := s₁.world b.place) hhosts hf
  have hsplit : m.instructions = [.begin nodes tasks lists, .context l.device] ++
      (blocks ++ l.ending.instructions) := his
  have hfront : blocks <+: m.instructions.drop 2 := by
    rw [his]
    exact List.prefix_append _ _
  rcases reaches_or_breaks (m := m) (k := 2) (s := s₁) hlaid hledger.gathers.length with
    ⟨r₂, s₂, hblocks⟩ | ⟨done, site, before, i, r₂, s₂, e, u, hbreaks⟩
  case inl =>
    obtain ⟨log, hledger₂, habreast₂⟩ :=
      Ledger.run_passes hcarried hf hledger habreast hlaid hfront hblocks
    refine (performed_of_blocks ?_ (hheader.append hblocks) ?_ hhosts.device hf habreast₂).mono
      fun _ _ h _ => h
    case refine_1 => rw [hsplit, List.append_assoc]
    case refine_2 =>
      rw [List.length_append]
      exact hledger₂
  case inr =>
    obtain ⟨rest, hsites⟩ := hbreaks.sites
    obtain ⟨p, hpass, hissued⟩ := hbreaks.issued
    obtain ⟨_, seen, post, horder, hdone⟩ := Compile.sites_split hsites
    obtain ⟨after, hafter⟩ := hbreaks.blocks
    have hfront' : before <+: m.instructions.drop 2 := (hafter ▸ List.prefix_append _ _ :
      before <+: blocks).trans hfront
    obtain ⟨log, hledger₂, habreast₂⟩ := Ledger.run hcarried hf hledger habreast horder
      (hdone ▸ hbreaks.laid) hfront' hbreaks.reaches
    refine performed_of_breaks hhosts hf hsites hdone horder hpass hissued hledger₂ habreast₂
      hbreaks.fails (execute_of_error ?_)
    rw [hsplit, steps_append hheader]
    exact hbreaks.steps_eq _

-- An execution ends as the steps do, unless it is refused an allocation.
theorem execute_performs {r₀ : Registry} {c : Context} {batch : Option Nat} {q : Nat}
    (hm : Made r₀ c g batch q d l passes m) (hhosts : b.Hosts g l passes m) (hi : Intact b s)
    (htasks : c.tasks.length ≤ b.tasks.length) :
    m.execute.Ends s fun result t => Granted result → Performed b
      ((s.world b.place).windows (b.setup m.config.tuning)
        ((sites l.order passes.length).filterMap (b.work? g passes))) result t := by
  obtain ⟨nodes, blocks, his, hlaid⟩ := hm.instructions
  have hplace : s.part.place l.device = .ok b.place := by
    rw [hhosts.device, Context.place_ok]
    exact hi.devices
  obtain ⟨r₁, s₁, hheader, hi₁, hworld₁⟩ := reaches_header (m := m) hi nodes
    l.lists.lists.length htasks
  rw [← hhosts.device] at hheader
  rw [← hworld₁]
  exact performs_of_header hm hhosts his hlaid hplace hi.attached hheader hi₁

end Machine
end Offload
