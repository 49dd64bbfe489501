import Offload.Proofs.Waits
import Offload.Proofs.Wiring

/-!
What the end of an execution tells: the last barrier waits for the nodes that nothing depends on, from
all passes, and since a failure spreads to everything that depends on it, the barrier ends as well as
all commands before it.
-/

namespace Offload

open Compile (Site Log Layout Issued Faithful sites passSites)

-- A node that no other node takes anything from.
def Graph.IsSink (g : Graph) (id : Nat) : Prop :=
  id ∈ g.instructionNodes ∧ ∀ k, ¬g.Feeds id k

theorem Graph.mem_sinks_iff_isSink {g : Graph} {d : Graph.Dependencies}
    (hd : g.dependencies = .ok d) {id : Nat} : id ∈ g.sinks d ↔ g.IsSink id := by
  simp only [Dependencies.mem_sinks_iff, Dependencies.mem_of_iff hd, IsSink]

theorem Compile.Issued.answers {g : Graph} {l : Layout} {pass : Pass} {id : Nat} {i : Instruction}
    (h : Issued g l pass id i) (hending : l.ending ≠ .blockingStreamOut) :
    i.opcode ≠ .streamOutBlocking ∧ ((∃ object, g.kind? id = some (.streamIn object)) ∨
      i.opcode = .launch ∨ i.opcode = .streamOut) := by
  obtain ⟨j, hj, hi⟩ := h
  have hwrapped : i = j.wrapped := hi.resolve_right fun ⟨hblocks, _⟩ => hending hblocks
  rw [hwrapped, Instruction.opcode_wrapped]
  unfold nodeInstruction? at hj
  split at hj <;> cases hj
  case h_1 => exact ⟨nofun, .inr (.inl rfl)⟩
  case h_2 =>
    rename_i hkind
    exact ⟨nofun, .inl ⟨_, hkind⟩⟩
  case h_3 => exact ⟨nofun, .inr (.inr rfl)⟩

-- How the events of a run ended so far, on a device whose queue was `q` before the run.
structure Settled (g : Graph) (d : Graph.Dependencies) (l : Layout) (place : Nat) (q : Queue)
    (pass : Nat) (seen : List Nat) (log : Log) (s : Hosted Context) : Prop where
  answered : ∀ site ∈ sites l.order pass ++ passSites seen pass,
    (∃ object, g.kind? site.node = some (.streamIn object)) ∨ ∃ e, (site, e) ∈ log
  ended    : ∀ x ∈ log, ∃ status, (s.queue place).status? x.2 = some status ∧ status.isFinished ∧
    (status = .complete → ∀ y ∈ log, y.1.pass = x.1.pass → y.1.node ∈ d.of x.1.node →
      (s.queue place).status? y.2 = some .complete)
  issued   : ∃ new, (s.queue place).events = new ++ q.events ∧
    new.map Prod.fst = (log.map Prod.snd).reverse

namespace Settled

open Machine (Reaches Block)

variable {m : Machine} {g : Graph} {d : Graph.Dependencies} {l : Layout} {passes : List Pass}
  {place k pass id : Nat} {q : Queue} {seen post : List Nat} {log : Log} {r r' : Run}
  {s s' : Hosted Context}

theorem start (g : Graph) (d : Graph.Dependencies) (l : Layout) {place : Nat} {s : Hosted Context} :
    Settled g d l place (s.queue place) 0 [] [] s where
  answered := nofun
  ended := nofun
  issued := ⟨[], rfl, rfl⟩

theorem next (h : Settled g d l place q pass l.order log s) :
    Settled g d l place q (pass + 1) [] log s where
  answered := by simpa [Compile.sites_succ, passSites] using h.answered
  ended := h.ended
  issued := h.issued

-- What is issued next is no dependency of anything in the log of its pass.
theorem not_dep_of_mem (hledger : Ledger m l place k pass seen log r s) (hf : Faithful g d l)
    (horder : l.order = seen ++ id :: post) {x : Site × EventId} (hx : x ∈ log)
    (hpass : x.1.pass = pass) : id ∉ d.of x.1.node := by
  have hseen : x.1.node ∈ seen := by
    rcases List.mem_append.mp (hledger.site_mem hx) with hbefore | hhere
    case inl =>
      have := (Ledger.mem_sites.mp hbefore).1
      omega
    case inr =>
      obtain ⟨_, hid, hsite⟩ := List.mem_map.mp hhere
      exact hsite ▸ hid
  exact hf.ordered.not_dep horder (List.mem_append_left _ hseen)

theorem block (h : Settled g d l place q pass seen log s) (hf : Faithful g d l)
    (hending : l.ending ≠ .blockingStreamOut) (hledger : Ledger m l place k pass seen log r s)
    (horder : l.order = seen ++ id :: post) {p : Pass} {i : Instruction} (hi : Issued g l p id i)
    {event : Option EventId} (hb : Block m l place id k i r r' s s' event)
    (hanswered : i.opcode = .launch ∨ i.opcode = .streamOut → event.isSome) :
    Settled g d l place q pass (seen ++ [id]) (log.enter ⟨pass, id⟩ event) s' := by
  have ⟨hblocking, hkind⟩ := hi.answers hending
  have hold : ∀ x ∈ log, (s'.queue place).status? x.2 = (s.queue place).status? x.2 :=
    fun x hx => hb.outcome.status?_eq (hledger.past x hx)
  constructor
  case answered =>
    intro site hsite
    rw [passSites, List.map_append, ← passSites, ← List.append_assoc] at hsite
    rcases List.mem_append.mp hsite with hbefore | hhere
    case inl =>
      exact (h.answered site hbefore).imp_right (Exists.imp fun _ => List.mem_append_left _)
    case inr =>
      cases List.mem_singleton.mp hhere
      refine hkind.imp_right fun hlaunch => ?_
      obtain ⟨e, rfl⟩ := Option.isSome_iff_exists.mp (hanswered hlaunch)
      exact ⟨e, by simp [Log.enter]⟩
  case issued =>
    obtain ⟨new, hevents, hnew⟩ := h.issued
    cases event with
    | none =>
      have hquiet := Context.Outcome.of_none (by simpa [hblocking] using hb.outcome)
      refine ⟨new, ?_, by simpa [Log.enter] using hnew⟩
      rw [← hevents]
      exact congrArg Queue.events hquiet.platform.1
    | some e =>
      obtain ⟨status, _, _, he, hqueue⟩ := hb.outcome.of_some
      refine ⟨(e, status) :: new, ?_, by simp [Log.enter, hnew]⟩
      rw [hqueue, Queue.issue, hevents, he]
      rfl
  case ended =>
    intro x hx
    rcases List.mem_append.mp hx with hbefore | hhere
    case inl =>
      obtain ⟨status, hstatus, hdone, hdeps⟩ := h.ended x hbefore
      refine ⟨status, (hold x hbefore).trans hstatus, hdone, fun hcomplete y hy hpass hdep => ?_⟩
      rcases List.mem_append.mp hy with hybefore | hyhere
      case inl => exact (hold y hybefore).trans (hdeps hcomplete y hybefore hpass hdep)
      case inr =>
        obtain ⟨e, -, rfl⟩ : ∃ e, event = some e ∧ (⟨pass, id⟩, e) = y := by simpa using hyhere
        exact absurd hdep (not_dep_of_mem hledger hf horder hbefore hpass.symm)
    case inr =>
      obtain ⟨e, rfl, rfl⟩ : ∃ e, event = some e ∧ (⟨pass, id⟩, e) = x := by simpa using hhere
      obtain ⟨status, hdone, hready, he, hqueue⟩ := hb.outcome.of_some
      refine ⟨status, ?_, hdone, fun hcomplete y hy hpass hdep => ?_⟩
      case refine_1 =>
        rw [hqueue, he]
        exact Queue.status?_nextEvent _ _ _
      rcases List.mem_append.mp hy with hybefore | hyhere
      case inr =>
        cases (by simpa using hyhere : y = (⟨pass, id⟩, e))
        exact absurd hdep (hf.ordered.not_dep horder (by simp))
      case inl =>
        -- the command waited for this event
        have hwait : y.2 ∈ r.waiting (l.waits.lookup id) := by
          rw [hledger.waiting_eq hf horder]
          exact List.mem_map_of_mem (List.mem_filter.mpr ⟨hybefore, by simpa using ⟨hpass, hdep⟩⟩)
        have hne : y.2 ≠ (s.queue place).nextEvent := fun heq => by
          have hpast := hledger.past y hybefore
          rw [heq] at hpast
          exact Nat.lt_irrefl _ hpast
        rw [hold y hybefore]
        exact hready hcomplete y.2 hwait hne

theorem carried (hf : Faithful g d l) (hending : l.ending ≠ .blockingStreamOut) :
    Ledger.Carried m g l passes place fun pass seen log _ s => Settled g d l place q pass seen log s where
  block hledger h horder _ hi hb hanswered := h.block hf hending hledger horder hi hb hanswered
  next _ h := h.next

-- Once all passes are over, events of sinks that ended well tell that all did: each other node has
-- another one that depends on it, later in the same pass, and did not run if the node had failed.
theorem all_complete (h : Settled g d l place q pass [] log s) (hwired : g.Wired)
    (hd : g.dependencies = .ok d) (hf : Faithful g d l)
    (hsites : ∀ x ∈ log, x.1 ∈ sites l.order pass)
    (hsinks : ∀ x ∈ log, x.1.node ∈ g.sinks d → (s.queue place).status? x.2 = some .complete) :
    ∀ x ∈ log, (s.queue place).status? x.2 = some .complete := by
  have hpost (post : List Nat) (seen : List Nat) (horder : l.order = seen ++ post) :
      ∀ x ∈ log, x.1.node ∈ post → (s.queue place).status? x.2 = some .complete := by
    induction post generalizing seen with
    | nil => exact fun _ _ hnode => nomatch hnode
    | cons id post ih =>
      have hrest := ih (seen ++ [id]) (by rw [horder]; simp)
      intro x hx hnode
      rcases List.mem_cons.mp hnode with rfl | hlater
      case inr => exact hrest x hx hlater
      case inl =>
        by_cases hsink : x.1.node ∈ g.sinks d
        case pos => exact hsinks x hx hsink
        case neg =>
          obtain ⟨k, hk⟩ : ∃ k, x.1.node ∈ d.of k := by
            have hid := hf.ordered.mem_iff.mp (by simp [horder] : x.1.node ∈ l.order)
            simpa [Graph.Dependencies.mem_sinks_iff, hid] using hsink
          have hkmem : k ∈ l.order := hf.ordered.mem_iff.mpr (Classical.byContradiction fun hnot => by
            rw [Graph.Dependencies.of_eq_nil hd hnot] at hk
            cases hk)
          have hkpost : k ∈ post := by
            rw [horder, List.append_cons] at hkmem
            refine (List.mem_append.mp hkmem).resolve_left fun hbefore => ?_
            exact hf.ordered.not_dep horder hbefore hk
          have hsite : (⟨x.1.pass, k⟩ : Site) ∈ sites l.order pass ++ passSites [] pass := by
            refine List.mem_append_left _ (Ledger.mem_sites.mpr ⟨?_, ?_⟩)
            · exact (Ledger.mem_sites.mp (hsites x hx)).1
            · simp [horder, hkpost]
          rcases h.answered _ hsite with ⟨object, hkind⟩ | ⟨e, he⟩
          case inl =>
            exact absurd ((Graph.Dependencies.mem_of_iff hd).mp hk) (hwired.not_feeds_streamIn hkind _)
          case inr =>
            obtain ⟨status, hstatus, _, hdeps⟩ := h.ended _ he
            have hcomplete := hrest _ he hkpost
            cases hstatus.symm.trans hcomplete
            exact hdeps rfl x hx rfl hk
  intro x hx
  exact hpost l.order [] rfl x hx (Ledger.mem_sites.mp (hsites x hx)).2

theorem ready_iff (h : Settled g d l place q pass [] log s) (hwired : g.Wired)
    (hd : g.dependencies = .ok d) (hledger : Ledger m l place k pass [] log r s) (hf : Faithful g d l)
    {list : Nat} (hlist : l.ending = .barrier list) :
    (s.queue place).Ready (r.waiting (some list)) ↔
      ∀ x ∈ log, (s.queue place).status? x.2 = some .complete := by
  have hne : ∀ x ∈ log, x.2 ≠ (s.queue place).nextEvent := fun x hx heq => by
    have hpast := hledger.past x hx
    rw [heq] at hpast
    exact Nat.lt_irrefl _ hpast
  rw [hledger.waiting_final hf hlist]
  constructor
  case mp =>
    intro hready
    refine h.all_complete hwired hd hf (fun x hx => ?_) fun x hx hsink => ?_
    case refine_1 => simpa [passSites] using hledger.site_mem hx
    case refine_2 =>
      refine hready x.2 (List.mem_map_of_mem (List.mem_filter.mpr ⟨hx, ?_⟩)) (hne x hx)
      exact decide_eq_true hsink
  case mpr =>
    intro hall event hevent _
    obtain ⟨x, hx, rfl⟩ := List.mem_map.mp hevent
    exact hall x (List.mem_of_mem_filter hx)

end Settled

namespace Compile

theorem nodup_sites {order : List Nat} (h : order.Nodup) (n : Nat) : (sites order n).Nodup := by
  induction n with
  | zero => exact List.nodup_nil
  | succ n ih =>
    rw [sites_succ]
    refine List.nodup_append.mpr ⟨ih, ?_, ?_⟩
    case refine_1 => exact List.Pairwise.map _ (fun _ _ hne heq => hne (Site.mk.inj heq).2) h
    case refine_2 =>
      intro site hbefore other hhere rfl
      obtain ⟨_, _, rfl⟩ := List.mem_map.mp hhere
      exact Nat.lt_irrefl _ (Ledger.mem_sites.mp hbefore).1

end Compile

namespace Machine

open Compile

variable {m : Machine} {g : Graph} {d : Graph.Dependencies} {l : Layout} {passes : List Pass}
  {r : Registry} {c : Context} {batch : Option Nat} {e : Execution} {s t : Hosted Context}

-- The events on record, each with the site that issued it; a barrier has no site.
def log (m : Machine) (order : List Nat) (events : List (Nat × EventId)) : Log :=
  events.filterMap fun x => (m.site? order x.1).map (·, x.2)

theorem log_eq {order : List Nat} {events : List (Nat × EventId)} {log : Log}
    (h : List.Forall₂ (fun x y => m.site? order x.1 = some y.1 ∧ x.2 = y.2) events log) :
    m.log order events = log := by
  induction h with
  | nil => rfl
  | cons hxy _ ih =>
    rw [Machine.log, List.filterMap_cons, hxy.1, hxy.2, ← Machine.log, ih]
    rfl

-- What the end of a program adds to a run: nothing, or the event of a barrier.
theorem Reaches.ending {ending : Ending} {k : Nat} {target : Target} {r r' : Run} {s s' : Hosted Context}
    (h : Reaches m k ending.instructions r s r' s') (ht : r.target = some target)
    (hplace : target.place < s.platform.channels.length) :
    r'.target = some target ∧ s'.platform.channels.length = s.platform.channels.length ∧
      (ending = .blockingStreamOut ∧ r'.events = r.events ∧ s'.queue target.place = s.queue target.place ∨
        ∃ list status, ending = .barrier list ∧ EventStatus.isFinished status ∧
          (status = .complete ↔ (s.queue target.place).Ready (r.waiting (some list))) ∧
          s'.queue target.place = (s.queue target.place).issue (r.waiting (some list)) status ∧
          r'.final = some (s.queue target.place).nextEvent ∧
          r'.events = r.events ++ [(k, (s.queue target.place).nextEvent)]) := by
  have hfinish {k : Nat} {r₁ r₂ : Run} {s₁ s₂ : Hosted Context} (h : Reaches m k [.finish] r₁ s₁ r₂ s₂) :
      r₂ = r₁.record k none ∧ ∀ place, Context.Quiet place s₁ s₂ := by
    cases h with
    | step hfinish hnone =>
      cases hnone
      exact (step_finish hfinish).symm
  cases ending with
  | blockingStreamOut =>
    obtain ⟨rfl, hquiet⟩ := hfinish h
    obtain ⟨_, htarget, _, _, hevents⟩ := record_apply r k none
    exact ⟨htarget.trans ht, (hquiet target.place).platform.2,
      .inl ⟨rfl, hevents.trans (List.append_nil _), (hquiet target.place).platform.1⟩⟩
  | barrier list =>
    cases h with
    | @step _ _ _ _ r₁ _ _ s₁ _ hbarrier hrest =>
      obtain ⟨status, hdone, hready, hqueue, htarget, hfinal, hevents, hchannels⟩ := step_barrier ht hplace hbarrier
      obtain ⟨rfl, hquiet⟩ := hfinish hrest
      obtain ⟨_, htarget', hfinal', _, hevents'⟩ := record_apply r₁ (k + 1) none
      refine ⟨htarget'.trans htarget, (hquiet target.place).platform.2.trans hchannels,
        .inr ⟨list, status, rfl, hdone, hready, (hquiet target.place).platform.1.trans hqueue,
          hfinal'.trans hfinal, ?_⟩⟩
      rw [hevents', hevents]
      exact List.append_nil _

-- Where the books of an execution stand after the blocks of all passes, and where it ends from there.
theorem execute_blocks {q : Nat} {P : Nat → (pass : Nat) → (seen : List Nat) → Log → Run → Hosted Context → Prop}
    (hm : Made r c g batch q d l passes m) (hP : ∀ place, Ledger.Carried m g l passes place (P place))
    (hp : ∀ place r u, Context.Quiet place s u → P place 0 [] [] r u)
    (hattached : ∀ place ∈ s.part.devices, place < s.platform.channels.length) (hrun : m.execute s = (.ok e, t)) :
    ∃ k log r u r' u', Ledger m l e.target.place k passes.length [] log r u ∧
      P e.target.place passes.length [] log r u ∧ l.ending.instructions <+: m.instructions.drop k ∧
      Reaches m k l.ending.instructions r u r' u' ∧ r.target = some e.target ∧
      (∀ place, Context.Quiet place u' t) ∧ e.final = r'.final ∧ e.events = r'.events := by
  obtain ⟨nodes, blocks, his, hlaid⟩ := hm.instructions
  obtain ⟨r', u', hreach, hquiet, htarget, hfinal, hevents, _⟩ := execute_ok hrun
  have hsplit : m.instructions = [.begin nodes c.tasks.length l.lists.lists.length,
      .context l.device] ++ (blocks ++ l.ending.instructions) := his
  rw [hsplit] at hreach
  obtain ⟨r₁, u₁, hheader, hrest⟩ := hreach.split
  obtain ⟨place, _, hquiet₁, hstart⟩ := Ledger.start hm his (attached_of_mem hattached) hheader
  obtain ⟨r₂, u₂, hblocks, htail⟩ := hrest.split
  have hfront : blocks <+: m.instructions.drop 2 := by
    rw [his]
    exact List.prefix_append _ _
  obtain ⟨log, hledger, hlast⟩ := Ledger.run_passes (hP place) hm.faithful hstart (hp place r₁ u₁ hquiet₁) hlaid
    hfront hblocks
  have hend := htail.ending hledger.target hledger.attached
  have heq : e.target = { index := l.device, place } := Option.some.inj (htarget.symm.trans hend.1)
  have hplace : e.target.place = place := congrArg Target.place heq
  refine ⟨2 + blocks.length, log, r₂, u₂, r', u', hplace ▸ hledger, hplace ▸ hlast, ?_, htail, heq ▸ hledger.target,
    hquiet, hfinal, hevents⟩
  have hdrop : m.instructions.drop (2 + blocks.length) = l.ending.instructions := by
    rw [his, ← List.drop_drop]
    simp
  exact hdrop ▸ List.prefix_rfl

-- An execution that ends with a barrier: where its books stand before that, and what is added.
theorem execute_barrier {q list : Nat} (hm : Made r c g batch q d l passes m)
    (hlist : l.ending = .barrier list)
    (hattached : ∀ place ∈ s.part.devices, place < s.platform.channels.length)
    (hrun : m.execute s = (.ok e, t)) :
    ∃ k log r' u status,
      m.instructions[k]? = some (.barrier (some list)) ∧
      Ledger m l e.target.place k passes.length [] log r' u ∧
      Settled g d l e.target.place (s.queue e.target.place) passes.length [] log u ∧
      EventStatus.isFinished status ∧
      (status = .complete ↔ (u.queue e.target.place).Ready (r'.waiting (some list))) ∧
      t.queue e.target.place = (u.queue e.target.place).issue (r'.waiting (some list)) status ∧
      e.final = some (u.queue e.target.place).nextEvent ∧
      e.events = r'.events ++ [(k, (u.queue e.target.place).nextEvent)] := by
  have hending : l.ending ≠ .blockingStreamOut := by simp [hlist]
  obtain ⟨k, log, r₂, u₂, r', u', hledger, hsettled, hfront, htail, htarget, hquiet, hfinal, hevents⟩ :=
    execute_blocks (P := fun place pass seen log _ u => Settled g d l place (s.queue place) pass seen log u) hm
      (fun place => Settled.carried hm.faithful hending)
      (fun place _ u hquiet => hquiet.queue_eq ▸ Settled.start g d l) hattached hrun
  obtain ⟨_, _, ⟨hblocking, _⟩ | ⟨list', status, hlist', hdone, hready, hqueue, hfinal', hevents'⟩⟩ :=
    htail.ending htarget hledger.attached
  case inl => exact absurd hblocking hending
  case inr =>
    cases hlist.symm.trans hlist'
    refine ⟨k, log, r₂, u₂, status, ?_, hledger, hsettled, hdone, hready,
      (hquiet e.target.place).platform.1.trans hqueue, hfinal.trans hfinal', hevents.trans hevents'⟩
    obtain ⟨rest, hdrop⟩ := hfront
    rw [← Nat.add_zero k, ← List.getElem?_drop, ← hdrop, hlist]
    rfl

-- What an execution leaves behind whose last command is a barrier. The barrier waits for the events of
-- the sinks, of which each has at most one in each pass, and its own event ends well if and only if all
-- that were issued did; otherwise it fails.
structure Joined (m : Machine) (g : Graph) (d : Graph.Dependencies) (order : List Nat) (e : Execution)
    (s t : Hosted Context) (barrier : EventId) (wait : List EventId) : Prop where
  final    : e.final = some barrier
  last     : ∃ k list, m.instructions[k]? = some (.barrier list) ∧ e.events.getLast? = some (k, barrier)
  handed   : (t.queue e.target.place).handed.getLast? = some wait
  waits    : wait = ((m.log order e.events).filter fun x => x.1.node ∈ g.sinks d).map Prod.snd
  sinks    : ∀ id, id ∈ g.sinks d ↔ g.IsSink id
  sites    : ((m.log order e.events).map Prod.fst).Nodup
  recorded : e.events.map Prod.snd = (m.log order e.events).map Prod.snd ++ [barrier]
  rising   : (e.events.map Prod.snd).Pairwise fun event event' => event.number < event'.number
  issued   : ∃ new, (t.queue e.target.place).events = new ++ (s.queue e.target.place).events ∧
    new.map Prod.fst = (e.events.map Prod.snd).reverse
  ended    : ∀ x ∈ e.events, ∃ status, (t.queue e.target.place).status? x.2 = some status ∧
    status.isFinished
  complete : (t.queue e.target.place).status? barrier = some .complete ↔
    ∀ x ∈ e.events, (t.queue e.target.place).status? x.2 = some .complete
  failed   : ∀ x ∈ e.events, ∀ fault, (t.queue e.target.place).status? x.2 = some (.failed fault) →
    ∃ fault', (t.queue e.target.place).status? barrier = some (.failed fault')

-- So it is with every graph that steps are wired into, unless a stream-out comes last.
theorem barrier_joins {c₀ c : Context} {device : Nat} {steps : List Step} {w : Wiring}
    {config config' : Config} {program : Program} {order : List Nat}
    (hbuild : Wiring.build c₀ device steps = .ok w)
    (hcompile : compile r c w.graph batch config = .ok program)
    (hcreate : Machine.create program config' = .ok m)
    (hd : w.graph.dependencies = .ok d) (horder : w.graph.order d = .ok order)
    (hlast : ¬order.getLast?.any (isStreamOut w.graph))
    (hattached : ∀ place ∈ s.part.devices, place < s.platform.channels.length)
    (hrun : m.execute s = (.ok e, t)) :
    ∃ barrier wait, Joined m w.graph d order e s t barrier wait := by
  have hwired := Wiring.wired_of_build hbuild
  obtain ⟨q, d', l, passes, hm⟩ := made_of_compile hcompile hcreate
  cases hd.symm.trans hm.dependencies
  cases horder.symm.trans hm.order
  have hf := hm.faithful
  obtain ⟨list, hlist⟩ : ∃ list, l.ending = .barrier list := by
    cases hending : l.ending with
    | blockingStreamOut => exact absurd (hm.ending.mp hending) hlast
    | barrier list => exact ⟨list, rfl⟩
  obtain ⟨k, log, r', u, status, hget, hledger, hsettled, hdone, hready, hqueue, hfinal, hevents⟩ :=
    execute_barrier hm hlist hattached hrun
  generalize hbarrier : (u.queue e.target.place).nextEvent = barrier at *
  have hwait := hledger.waiting_final hf hlist
  have hnone : m.site? l.order k = none := by simp [site?, hget, Instruction.opcode, Opcode.isNode]
  have hlog : m.log l.order e.events = log := by
    have hr' := log_eq hledger.events
    rw [Machine.log] at hr' ⊢
    simp [hevents, hr', hnone]
  have hrecorded : e.events.map Prod.snd = log.map Prod.snd ++ [barrier] := by
    have hsame : r'.events.map Prod.snd = log.map Prod.snd := hledger.map_snd_events
    simp [hevents, hsame]
  have hforall (P : EventId → Prop) : (∀ x ∈ e.events, P x.2) ↔ (∀ x ∈ log, P x.2) ∧ P barrier := by
    rw [← List.forall_mem_map, hrecorded, List.forall_mem_append, List.forall_mem_map]
    simp
  have hold : ∀ x ∈ log, (t.queue e.target.place).status? x.2 = (u.queue e.target.place).status? x.2 :=
    fun x hx => by rw [hqueue, Queue.status?_issue (hledger.past x hx)]
  have hown : (t.queue e.target.place).status? barrier = some status := by
    rw [hqueue, ← hbarrier, Queue.status?_nextEvent]
  have hall := hready.trans (hsettled.ready_iff hwired hd hledger hf hlist)
  have hcomplete : (t.queue e.target.place).status? barrier = some .complete ↔
      ∀ x ∈ e.events, (t.queue e.target.place).status? x.2 = some .complete := by
    refine Iff.trans ?_ (hforall fun event =>
      (t.queue e.target.place).status? event = some .complete).symm
    rw [hown, Option.some.injEq, hall]
    constructor
    case mp => exact fun h => ⟨fun x hx => (hold x hx).trans (h x hx), h⟩
    case mpr => exact fun h x hx => (hold x hx).symm.trans (h.1 x hx)
  refine ⟨barrier, r'.waiting (some list), ?_⟩
  constructor
  case final => exact hfinal
  case last => exact ⟨k, some list, hget, by simp [hevents]⟩
  case handed => simp [hqueue, Queue.issue]
  case waits => rw [hlog, hwait]
  case sinks => exact fun id => Graph.mem_sinks_iff_isSink hd
  case sites =>
    rw [hlog]
    have hissued := hledger.issued
    rw [passSites, List.map_nil, List.append_nil] at hissued
    exact hissued.nodup (nodup_sites hf.ordered.nodup _)
  case recorded => rw [hlog, hrecorded]
  case rising =>
    rw [hrecorded]
    refine List.pairwise_append.mpr ⟨hledger.rising.map _ fun _ _ h => h, by simp, ?_⟩
    intro event hevent event' hevent'
    obtain ⟨x, hx, rfl⟩ := List.mem_map.mp hevent
    rw [List.mem_singleton.mp hevent', ← hbarrier]
    exact hledger.past x hx
  case issued =>
    obtain ⟨new, hnew, hids⟩ := hsettled.issued
    refine ⟨(barrier, status) :: new, ?_, ?_⟩
    · rw [hqueue, Queue.issue, hnew, hbarrier]
      rfl
    · rw [hrecorded, List.map_cons, hids]
      simp
  case ended =>
    refine (hforall fun event => ∃ status, (t.queue e.target.place).status? event = some status ∧
      status.isFinished).mpr ⟨fun x hx => ?_, status, hown, hdone⟩
    obtain ⟨status', hstatus', hdone', _⟩ := hsettled.ended x hx
    exact ⟨status', (hold x hx).trans hstatus', hdone'⟩
  case complete => exact hcomplete
  case failed =>
    intro x hx fault hfault
    cases status with
    | failed fault' => exact ⟨fault', hown⟩
    | complete =>
      cases hfault.symm.trans (hcomplete.mp hown x hx)
    | queued => cases hdone
    | running => cases hdone

-- Two objects of two bytes each, of which one byte is copied to a device in each of two passes.
def loadSteps : List Step :=
  [.streamIn ⟨⟨1⟩, .array .byte⟩, .streamIn ⟨⟨2⟩, .array .byte⟩]

def loadWiring : Wiring where
  context := {
    name := "load", devices := [0]
    bindings := [{ object := ⟨⟨1⟩, .array .byte⟩, state := { streamIn := true } },
      { object := ⟨⟨2⟩, .array .byte⟩, state := { streamIn := true } }] }
  graph := { nodes := [⟨0, [], .context 0⟩, ⟨1, [0], .streamIn 0⟩, ⟨2, [0], .streamIn 1⟩] }
  streamIns := [(1, 2), (0, 1)]

def loadStart : Hosted Context where
  platform := {
    registry := ((({} : Registry).register (.array .byte) [1, 2]).2.register (.array .byte) [3, 4]).2
    channels := [{ device := { limits := { computeUnits := 1 }, threadName := "queue" } }] }
  part := loadWiring.context

def loadInstructions : List Instruction :=
  [.begin 2 0 1, .context 0, .streamIn 0 0 1 none, .addDep 0, .streamIn 1 0 1 none, .addDep 0,
    .streamIn 0 1 1 none, .addDep 0, .streamIn 1 1 1 none, .addDep 0, .barrier (some 0), .finish]

def loadMachine : Machine where
  program := { code := loadInstructions.flatMap Instruction.encoding, lists := [[0, 1]] }
  instructions := loadInstructions
  config := {}

-- Nothing depends on either stream-in, so that the barrier waits for four events.
theorem load_joins :
    Wiring.build { name := "load", devices := [0] } 0 loadSteps = .ok loadWiring ∧
      compile loadStart.platform.registry loadStart.part loadWiring.graph (some 1) {} =
        .ok loadMachine.program ∧
      Machine.create loadMachine.program {} = .ok loadMachine ∧
      loadWiring.graph.dependencies = .ok ⟨[[], [], []]⟩ ∧
      loadWiring.graph.order ⟨[[], [], []]⟩ = .ok [1, 2] ∧
      ∃ e t barrier wait, loadMachine.execute loadStart = (.ok e, t) ∧
        Joined loadMachine loadWiring.graph ⟨[[], [], []]⟩ [1, 2] e loadStart t barrier wait := by
  have hbuild : Wiring.build { name := "load", devices := [0] } 0 loadSteps = .ok loadWiring := by
    decide
  have hcompile : compile loadStart.platform.registry loadStart.part loadWiring.graph (some 1) {} =
      .ok loadMachine.program := by decide +kernel
  have hcreate : Machine.create loadMachine.program {} = .ok loadMachine := by decide +kernel
  have hd : loadWiring.graph.dependencies = .ok ⟨[[], [], []]⟩ := by decide
  have horder : loadWiring.graph.order ⟨[[], [], []]⟩ = .ok [1, 2] := by decide
  have hok : (loadMachine.execute loadStart).1.toOption.isSome := by decide +kernel
  rcases hrun : loadMachine.execute loadStart with ⟨result, t⟩
  rw [hrun] at hok
  cases result with
  | error => cases hok
  | ok e =>
    obtain ⟨barrier, wait, hjoined⟩ :=
      barrier_joins hbuild hcompile hcreate hd horder (by decide) (by decide) hrun
    exact ⟨hbuild, hcompile, hcreate, hd, horder, e, t, barrier, wait, rfl, hjoined⟩

end Machine
end Offload
