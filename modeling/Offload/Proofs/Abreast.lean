import Offload.Proofs.Launch
import Offload.Proofs.Ledger

/-!
A run keeps abreast of the steps that its nodes stand for: as long as every step can be taken, the
context and its device amount to what the steps have come to.
-/

namespace Offload

open Compile (Site Log Layout Issued Faithful sites passSites)

-- The pass as instructions carry it, whose operands are words.
def Pass.wrapped (p : Pass) : Pass where
  offset := p.offset % wordLimit
  length := p.length % wordLimit
  threads := p.threads % wordLimit

-- The step that a node stands for.
def Bench.step? (b : Bench) (g : Graph) (id : Nat) : Option Step :=
  match g.kind? id with
  | some (.task task) => b.tasks[task]?.map .task
  | some (.streamIn object) => b.objects[object]?.map .streamIn
  | some (.streamOut object) => b.objects[object]?.map .streamOut
  | _ => none

-- What is asked of a task: its arguments are bound, each of them once.
def Bench.Takes (b : Bench) (t : Task) : Prop :=
  (∀ a ∈ t.arguments, a.object.handle ∈ b.objects.map HostObject.handle) ∧ t.Apart

theorem Intact.binding_of_object {b : Bench} {s : Hosted Context} (hi : Intact b s) {object : Nat}
    {o : HostObject} (ho : b.objects[object]? = some o) :
    ∃ x : Binding, s.part.bindings[object]? = some x ∧ x.object = o := by
  rw [← hi.objects] at ho
  exact Context.getElem?_objects_iff.mp ho

theorem Compile.Issued.forms {g : Graph} {l : Layout} {pass : Pass} {id : Nat} {i : Instruction}
    (h : Issued g l pass id i) :
    let p := pass.wrapped
    let wait := l.waits.lookup id
    (∃ task, g.kind? id = some (.task task) ∧ i = .launch task l.device wait p.offset p.threads) ∨
      (∃ object, g.kind? id = some (.streamIn object) ∧
        i = .streamIn object p.offset p.length wait) ∨
      ∃ object, g.kind? id = some (.streamOut object) ∧
        (i = .streamOut object p.offset p.length wait ∨
          i = .streamOutBlocking object p.offset p.length wait) := by
  obtain ⟨j, hj, hi⟩ := h
  unfold nodeInstruction? at hj
  split at hj <;> cases hj
  case h_1 task hkind =>
    refine .inl ⟨task, hkind, ?_⟩
    rcases hi with rfl | ⟨_, hopcode, _⟩
    case inl => rfl
    case inr => cases hopcode
  case h_2 object hkind =>
    refine .inr (.inl ⟨object, hkind, ?_⟩)
    rcases hi with rfl | ⟨_, hopcode, _⟩
    case inl => rfl
    case inr => cases hopcode
  case h_3 object hkind =>
    refine .inr (.inr ⟨object, hkind, ?_⟩)
    rcases hi with rfl | ⟨_, _, rfl⟩
    case inl => exact .inl rfl
    case inr => exact .inr rfl

namespace Machine

open Context (On Granted granted_ok)

variable {b : Bench} {m : Machine} {g : Graph} {l : Layout} {r : Run} {s : Hosted Context} {pass : Pass}
  {id k : Nat} {i : Instruction} {step : Step}

theorem record_eq (m : Machine) (r : Run) (index : Nat) (event : Option EventId) (s : Hosted Context) :
    ∃ counters, m.record r index event s =
      (.ok (r.record index event), { s with platform := { s.platform with counters } }) := by
  obtain ⟨counters, hcount⟩ := count_apply m Counters.countInstruction s
  exact ⟨counters, by rw [record, Action.bind_of_ok hcount]; rfl⟩

-- What a command comes to is on record.
theorem follows_record {α : Type} {act : On α} (event? : α → Option EventId) {f : α → On Run}
    {w : Except Stop World}
    (hact : act.Ends s fun result v => Granted result → Follows b w s (result.map event?) v)
    (hf : ∀ a, ∃ r', f a = m.record r' k (event? a)) :
    (act >>= f).Ends s fun result v => Granted result → Follows b w s (result.map Run.last) v := by
  refine hact.bind (fun a v h => ?_) fun e v h hgranted => ?_
  case refine_2 => exact h hgranted.of_error
  case refine_1 =>
    obtain ⟨r', hr'⟩ := hf a
    obtain ⟨counters, hrecord⟩ := record_eq m r' k (event? a) v
    have hfollows := h (granted_ok a)
    rw [hr', Action.Ends, hrecord]
    intro _
    have hlast : (r'.record k (event? a)).last = event? a := (record_apply r' k (event? a)).2.2.2.1
    change Follows b w s (.ok _) _
    rw [hlast]
    rcases w with (_ | _) | w
    case nothingToRead =>
      obtain ⟨_, herror⟩ := hfollows
      cases herror
    case failed => exact hfollows
    case ok =>
      obtain ⟨hintact, hworld, hevent⟩ := hfollows
      exact ⟨hintact.counters counters, hworld, hevent⟩

-- The instruction of a node follows the step that the node stands for.
theorem step_follows (hi : Intact b s) (hissued : Issued g l pass id i)
    (hstep : b.step? g id = some step) (htasks : ∀ t ∈ b.tasks, b.Takes t)
    (hscalar : ∀ o ∈ b.objects, o.isScalar → m.config.benchmarkingMode ∧ pass.offset = 0)
    (ht : r.target = some { index := b.index, place := b.place }) (hdevice : l.device = b.index)
    (hready : (s.queue b.place).Ready (r.waiting (l.waits.lookup id))) :
    (m.step k i r).Ends s fun result v => Granted result →
      Follows b ((s.world b.place).windowStep (b.setup m.config.tuning) pass.wrapped step) s
        (result.map Run.last) v := by
  have hconsume (list : Option Nat) : (r.consume list).target = r.target := by
    cases list <;> rfl
  unfold Bench.step? at hstep
  rcases hissued.forms with ⟨task, hkind, rfl⟩ | ⟨object, hkind, rfl⟩ | ⟨object, hkind, hform⟩ <;>
    simp only [hkind, Option.map_eq_some_iff] at hstep
  case inl =>
    obtain ⟨t, htask, rfl⟩ := hstep
    have ⟨hbound, hnodup⟩ := htasks t (List.mem_of_getElem? htask)
    rw [hdevice]
    exact follows_record some (launch_follows hi htask hbound hnodup hready) fun a => ⟨_, rfl⟩
  case inr.inl =>
    obtain ⟨o, ho, rfl⟩ := hstep
    obtain ⟨x, hx, rfl⟩ := hi.binding_of_object ho
    have hoffset : x.object.isScalar → m.config.benchmarkingMode ∧ pass.wrapped.offset = 0 := fun h => by
      have ⟨hmode, hzero⟩ := hscalar _ (List.mem_of_getElem? ho) h
      exact ⟨hmode, by simp [Pass.wrapped, hzero]⟩
    refine follows_record (fun e => e) ?_ fun a => ⟨_, rfl⟩
    have hfollows := streamIn_follows (u := b.setup m.config.tuning) hi ht hx rfl hoffset hready
    refine hfollows.mono fun result v h hgranted => ?_
    cases result <;> exact h hgranted
  case inr.inr =>
    obtain ⟨o, ho, rfl⟩ := hstep
    obtain ⟨x, hx, rfl⟩ := hi.binding_of_object ho
    have hfollows := streamOut_follows (m := m) (p := pass.wrapped) (u := b.setup m.config.tuning) hi
      ((hconsume (l.waits.lookup id)).trans ht) hx rfl hready
    rcases hform with rfl | rfl
    case inl =>
      exact follows_record Prod.fst ((hfollows false).mono fun _ _ h _ => h) fun a => ⟨_, rfl⟩
    case inr =>
      exact follows_record Prod.fst ((hfollows true).mono fun _ _ h _ => h) fun a => ⟨_, rfl⟩

end Machine

-- What a site does, if it is the site of a pass and a node that there are.
def Bench.work? (b : Bench) (g : Graph) (passes : List Pass) (site : Site) : Option (Pass × Step) := do
  let pass ← passes[site.pass]?
  return (pass.wrapped, ← b.step? g site.node)

-- The nodes stand for steps that the device can be asked to take.
structure Bench.Hosts (b : Bench) (g : Graph) (l : Layout) (passes : List Pass) (m : Machine) : Prop where
  device  : l.device = b.index
  steps   : ∀ id ∈ l.order, ∃ step, b.step? g id = some step
  tasks   : ∀ t ∈ b.tasks, b.Takes t
  scalars : ∀ p ∈ passes, ∀ o ∈ b.objects, o.isScalar → m.config.benchmarkingMode ∧ p.offset = 0

-- Either everything was as the steps say, or one of the events on record tells that it was not.
def Abreast (b : Bench) (g : Graph) (l : Layout) (passes : List Pass) (u : Setup) (w : World)
    (pass : Nat) (seen : List Nat) (log : Log) (s : Hosted Context) : Prop :=
  match w.windows u ((sites l.order pass ++ passSites seen pass).filterMap (b.work? g passes)) with
  | (.ok _, w) => Intact b s ∧ s.world b.place = w ∧
    ∀ x ∈ log, (s.queue b.place).status? x.2 = some .complete
  | (.error .failed, _) => ∃ x ∈ log, ∃ fault, (s.queue b.place).status? x.2 = some (.failed fault)
  | (.error (.nothingToRead _), _) => False

namespace Abreast

open Machine (Block)

variable {b : Bench} {m : Machine} {g : Graph} {d : Graph.Dependencies} {l : Layout}
  {passes : List Pass} {w : World} {pass k id : Nat} {seen post : List Nat} {log : Log} {r r' : Run}
  {s s' : Hosted Context} {p : Pass} {i : Instruction}

theorem start (hi : Intact b s) (g : Graph) (l : Layout) (passes : List Pass) (u : Setup) :
    Abreast b g l passes u (s.world b.place) 0 [] [] s :=
  ⟨hi, rfl, nofun⟩

theorem next {u : Setup} (h : Abreast b g l passes u w pass l.order log s) :
    Abreast b g l passes u w (pass + 1) [] log s := by
  simpa [Abreast, Compile.sites_succ, passSites] using h

-- What a node waits for is complete as long as everything is.
theorem ready (hf : Faithful g d l) (hledger : Ledger m l b.place k pass seen log r s)
    (horder : l.order = seen ++ id :: post)
    (hcomplete : ∀ x ∈ log, (s.queue b.place).status? x.2 = some .complete) :
    (s.queue b.place).Ready (r.waiting (l.waits.lookup id)) := by
  rw [hledger.waiting_eq hf horder]
  intro e he _
  obtain ⟨x, hx, rfl⟩ := List.mem_map.mp he
  exact hcomplete x (List.mem_of_mem_filter hx)

theorem block (h : Abreast b g l passes (b.setup m.config.tuning) w pass seen log s)
    (hhosts : b.Hosts g l passes m) (hf : Faithful g d l)
    (hledger : Ledger m l b.place k pass seen log r s) (horder : l.order = seen ++ id :: post)
    (hpass : passes[pass]? = some p) (hi : Issued g l p id i) {event : Option EventId}
    (hb : Block m l b.place id k i r r' s s' event) :
    Abreast b g l passes (b.setup m.config.tuning) w pass (seen ++ [id])
      (log.enter ⟨pass, id⟩ event) s' := by
  have hold : ∀ x ∈ log, (s'.queue b.place).status? x.2 = (s.queue b.place).status? x.2 :=
    fun x hx => hb.outcome.status?_eq (hledger.past x hx)
  obtain ⟨step, hstep⟩ := hhosts.steps id (by simp [horder])
  have hsites : passSites (seen ++ [id]) pass = passSites seen pass ++ [⟨pass, id⟩] := by
    simp [passSites]
  have hwork : [(⟨pass, id⟩ : Site)].filterMap (b.work? g passes) = [(p.wrapped, step)] := by
    simp [Bench.work?, hpass, hstep]
  unfold Abreast at h ⊢
  rw [hsites, ← List.append_assoc, List.filterMap_append, hwork, World.windows_append]
  generalize w.windows _ _ = before at h
  rcases before with ⟨(_ | _) | _, _⟩
  case nothingToRead => exact False.elim h
  case failed =>
    obtain ⟨x, hx, fault, hstatus⟩ := h
    refine ⟨x, List.mem_append_left _ hx, fault, ?_⟩
    rwa [hold x hx]
  case ok =>
    obtain ⟨hintact, rfl, hcomplete⟩ := h
    obtain ⟨r₁, hissued, hlast⟩ := hb.issued
    have hfollows := (Machine.step_follows hintact hi hstep hhosts.tasks
      (hhosts.scalars p (List.mem_of_getElem? hpass)) (hhosts.device ▸ hledger.target) hhosts.device
      (ready hf hledger horder hcomplete)).of_eq hissued (Context.granted_ok r₁)
    change Follows b _ s (.ok r₁.last) s' at hfollows
    rw [hlast] at hfollows
    simp only [World.windows]
    generalize (s.world b.place).windowStep _ _ _ = after at hfollows
    rcases after with (_ | _) | w
    case nothingToRead =>
      obtain ⟨_, herror⟩ := hfollows
      cases herror
    case failed =>
      obtain ⟨e, rfl, hstatus⟩ := hfollows event rfl
      exact ⟨(⟨pass, id⟩, e), by simp [Log.enter], hstatus⟩
    case ok =>
      obtain ⟨hintact', hworld, event', he, hevent⟩ := hfollows
      cases he
      refine ⟨hintact', hworld, fun x hx => ?_⟩
      rcases List.mem_append.mp hx with hbefore | hhere
      case inl => rw [hold x hbefore, hcomplete x hbefore]
      case inr =>
        obtain ⟨e, he, rfl⟩ : ∃ e, event = some e ∧ (⟨pass, id⟩, e) = x := by simpa using hhere
        exact hevent e he

theorem carried (hhosts : b.Hosts g l passes m) (hf : Faithful g d l) :
    Ledger.Carried m g l passes b.place fun pass seen log _ s =>
      Abreast b g l passes (b.setup m.config.tuning) w pass seen log s where
  block hledger h horder hpass hi hb _ := h.block hhosts hf hledger horder hpass hi hb
  next _ h := h.next

end Abreast
end Offload
