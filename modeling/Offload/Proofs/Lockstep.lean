import Offload.Machine.Execution
import Offload.Proofs.Earning
import Offload.Proofs.Parallel

/-!
One machine on two contexts that work alongside each other. Step by step its two runs stay together, and so do
those who wait for what is left of them.
-/

namespace Offload

theorem Geometry.nameless_launch (domain : List Nat) (threads : Nat) (limits : Limits) (t : Tuning) :
    Namelessly (Geometry.launch domain threads limits t) := by
  refine (config_launch domain threads limits t).mono fun e he => ?_
  obtain ⟨cause, rfl, -⟩ := he
  trivial

structure EventList.Twin (ν : Numbering) (l l' : EventList) : Prop where
  events   : List.Forall₂ ν.Event l.events l'.events
  consumed : l.consumed = l'.consumed

structure Run.Twin (g : Stage) (ν : Numbering) (r r' : Run) : Prop where
  lists   : List.Forall₂ (EventList.Twin ν) r.lists r'.lists
  target  : r.target = r'.target
  site    : ∀ t, r.target = some t → t.place = g.place ∧ g.At t.index
  last    : Option.Rel ν.Event r.last r'.last
  final   : Option.Rel ν.Event r.final r'.final
  states  : r.states = r'.states
  events  : List.Forall₂ (fun x y => x.1 = y.1 ∧ ν.Event x.2 y.2) r.events r'.events
  pending : r.pending = r'.pending
  own     : ∀ h ∈ r.pending, g.own h

namespace Run.Twin

variable {g : Stage} {ν ν' : Numbering} {r r' : Run}

theorem mono (h : r.Twin g ν r') (hν : ν.Within ν') : r.Twin g ν' r' :=
  { h with
    lists := h.lists.imp fun _ _ hl => ⟨hν.forall_events hl.events, hl.consumed⟩
    last := hν.option_event h.last
    final := hν.option_event h.final
    events := h.events.imp fun _ _ hx => ⟨hx.1, hν.events hx.2⟩ }

theorem start (g : Stage) (ν : Numbering) (m : Machine) : (Run.start m).Twin g ν (Run.start m) where
  lists := List.forall₂_same.mpr fun _ hl => by
    obtain ⟨_, _, rfl⟩ := List.mem_map.mp hl
    exact ⟨.nil, rfl⟩
  target := rfl
  site := nofun
  last := .none
  final := .none
  states := rfl
  events := .nil
  pending := rfl
  own := nofun

theorem waiting (h : r.Twin g ν r') (list : Option Nat) :
    List.Forall₂ ν.Event (r.waiting list) (r'.waiting list) := by
  unfold Run.waiting
  cases list with
  | none => exact .nil
  | some list =>
    dsimp only
    have hfound := forall₂_getElem? h.lists list
    generalize r.lists[list]? = l at hfound ⊢
    generalize r'.lists[list]? = l' at hfound ⊢
    cases hfound with
    | none => exact .nil
    | some hl => exact hl.events

theorem consume (h : r.Twin g ν r') (list : Option Nat) : (r.consume list).Twin g ν (r'.consume list) := by
  cases list with
  | none => exact h
  | some list => exact { h with lists := forall₂_modify h.lists list fun _ _ hl => ⟨hl.events, rfl⟩ }

theorem record (h : r.Twin g ν r') (index : Nat) {e e' : Option EventId} (he : Option.Rel ν.Event e e') :
    (r.record index e).Twin g ν (r'.record index e') := by
  cases he with
  | none => exact { h with last := .none, states := congrArg (·.set index .completed) h.states }
  | some hpair =>
    exact { h with
      last := .some hpair
      states := congrArg (·.set index .issued) h.states
      events := List.rel_append h.events (.cons ⟨rfl, hpair⟩ .nil) }

theorem append (h : r.Twin g ν r') (index list : Nat) :
    Run.Twin g ν { r with lists := r.lists.modify list (·.append r.last), states := r.states.set index .completed }
      { r' with
        lists := r'.lists.modify list (·.append r'.last)
        states := r'.states.set index .completed } := by
  refine { h with
    lists := forall₂_modify h.lists list fun l l' hl => ?_
    states := congrArg (·.set index .completed) h.states }
  have hlast : List.Forall₂ ν.Event r.last.toList r'.last.toList := by
    have hpair := h.last
    generalize r.last = e at hpair ⊢
    generalize r'.last = e' at hpair ⊢
    cases hpair with
    | none => exact .nil
    | some hpair => exact .cons hpair .nil
  unfold EventList.append
  rw [← hl.consumed]
  refine ⟨List.rel_append ?_ hlast, rfl⟩
  split
  case isTrue => exact .nil
  case isFalse => exact hl.events

theorem device (h : r.Twin g ν r') : Answers (fun _ t t' => t = t' ∧ t.place = g.place ∧ g.At t.index) ν r.device
    r'.device := by
  unfold Run.device
  rw [← h.target]
  cases ht : r.target with
  | none => exact .error (.config _)
  | some t => exact .ok ⟨rfl, h.site t ht⟩

end Run.Twin

-- An instruction for the device of the stage.
def Instruction.At (g : Stage) : Instruction → Prop
  | .context device | .launch _ device _ _ _ => g.At device
  | _ => True

namespace Machine

open Offload.Action (Echoes)
open Context (Beside Crowded)

variable {g : Stage} {ν ν' : Numbering} {r r' : Run} {s t : Hosted Context} {m : Machine} {device index : Nat}
  {wait wait' : List EventId}

theorem nameless_window (registry : Registry) (o : HostObject) (offset length : Nat) :
    Namelessly (registry.window o offset length) := by
  unfold Registry.window
  dsimp only
  split
  case isTrue => exact .pure _
  case isFalse => exact .throw trivial

theorem window_eq {p q : Platform} (hp : p.Twin g ν q) {o : HostObject} (hown : g.own o.handle) (offset length : Nat) :
    p.registry.window o offset length = q.registry.window o offset length := by
  unfold Registry.window
  rw [hp.bytes _ hown]

-- Counters are not looked at.
theorem count_echoes (h : Beside g ν s t) (f : Counters → Counters) :
    Echoes (Beside g) (Crowded g) Numbering.Same ν (m.count f) (m.count f) s t := by
  unfold count
  split
  case isFalse => exact .pure h rfl
  case isTrue =>
    exact .modify ⟨⟨h.platform.here, h.platform.there, h.platform.channel, h.platform.bytes, h.platform.records⟩,
      h.context, h.active, h.site⟩

theorem onTarget_echoes {α β : Type} {V : Numbering → α → β → Prop} {act : Action Channel α} {act' : Action Channel β}
    (h : Beside g ν s t) {tgt : Target} (hplace : tgt.place = g.place)
    (hact : Echoes (Channel.Twin g.kind g.extra) (Channel.Crowded g.extra) V ν act act'
      (s.platform.channel g.place) (t.platform.channel g.place)) :
    Echoes (Beside g) (Crowded g) V ν (onTarget tgt act) (onTarget tgt act') s t := by
  unfold onTarget
  rw [hplace]
  exact Context.onPlatform_echoes h (Platform.onChannel_echoes h.platform hact)

theorem record_echoes (h : Beside g ν s t) (hr : r.Twin g ν r') (index : Nat) {e e' : Option EventId}
    (he : Option.Rel ν.Event e e') :
    Echoes (Beside g) (Crowded g) (Run.Twin g) ν (m.record r index e) (m.record r' index e') s t :=
  (count_echoes h _).bind fun _ _ _ _ _ hν hS _ => .pure hS ((hr.record index he).mono hν)

theorem streamIn_echoes (h : Beside g ν s t) (hr : r.Twin g ν r') (object offset length : Nat)
    (hwait : List.Forall₂ ν.Event wait wait') :
    Echoes (Beside g) (Crowded g) (fun ν e e' => Option.Rel ν.Event e e') ν
      (m.streamIn r object offset length wait) (m.streamIn r' object offset length wait') s t := by
  unfold streamIn
  refine Echoes.bind_lift h hr.device fun tgt _ _ _ ⟨hsame, hplace, hsite⟩ => ?_
  cases hsame
  refine Echoes.bind_get (Echoes.bind_lift h (h.context.binding object) fun b b' _ _ ⟨hb, hown⟩ => ?_)
  have hsize : transferSize s.platform.registry b.object length =
      transferSize t.platform.registry b.object length := by
    rw [transferSize, transferSize, h.platform.byteLength_eq hown]
  rw [← hb.object]
  dsimp only
  rw [← hsize]
  refine (Context.ensureBuffer_echoes h hsite object _).bind fun ν₁ id id' s₁ t₁ hν₁ hS₁ hid => ?_
  refine Echoes.bind_get (Echoes.bind_lift hS₁ (hS₁.context.binding object) fun x x' _ _ ⟨hx, _⟩ => ?_)
  rw [← hx.state.written, ← window_eq h.platform hown]
  split
  case isTrue => exact .pure hS₁ .none
  case isFalse =>
    refine Echoes.bind_lift hS₁ (nameless_window _ _ _ _).answers fun data _ _ _ hdata => ?_
    cases hdata
    refine (onTarget_echoes hS₁ hplace (Channel.noting_echoes
      (Device.write_echoes hS₁.platform.channel hid data (hν₁.forall_events hwait) _))).bind
        fun ν₂ e e' s₂ t₂ _ hS₂ he => ?_
    refine (Context.modifyContext_echoes hS₂ (hS₂.context.modifyState object fun _ _ hst => hst.markWritten _) rfl
      rfl).bind fun ν₃ _ _ s₃ t₃ hν₃ hS₃ _ => ?_
    exact (count_echoes hS₃ _).bind fun _ _ _ _ _ hν₄ hS₄ _ =>
      .pure hS₄ (.some ((hν₃.trans hν₄).events he))

theorem argumentBuffer_echoes (h : Beside g ν s t) (hdevice : g.At device) (threads : Nat) (a : Argument) :
    Echoes (Beside g) (Crowded g) Numbering.Buffer ν (argumentBuffer device threads a)
      (argumentBuffer device threads a) s t := by
  unfold argumentBuffer
  refine Echoes.bind_get (Echoes.bind_lift h (h.context.objectIndex _) fun index _ hindex _ hsame => ?_)
  cases hsame
  refine Echoes.bind_lift h (h.context.binding index) fun b b' hb _ ⟨htwin, hown⟩ => ?_
  rw [Context.handle_of_objectIndex? (Context.objectIndex_ok.mp hindex) (Context.binding_ok.mp hb)] at hown
  have hsize : argumentSize s.platform.registry a.object threads =
      argumentSize t.platform.registry a.object threads := by
    rw [argumentSize, argumentSize, h.platform.byteLength_eq hown]
  have hbuffer := htwin.state.buffer
  rw [← hsize]
  generalize b.state.buffer = buffer at hbuffer ⊢
  generalize b'.state.buffer = buffer' at hbuffer ⊢
  cases hbuffer with
  | none => exact Context.ensureBuffer_echoes h hdevice index _
  | some hid =>
    dsimp only
    split
    case isTrue => exact .pure h hid
    case isFalse => exact Context.ensureBuffer_echoes h hdevice index _

theorem checkLaunch_echoes (h : Beside g ν s t) (hdevice : g.At device) (task : Task) {e e' : EventId}
    (he : ν.Event e e') :
    Echoes (Beside g) (Crowded g) Numbering.Same ν (checkLaunch device task e) (checkLaunch device task e') s t := by
  unfold checkLaunch
  refine (Context.onDevice_echoes h hdevice (Channel.noting_echoes
    (Device.wait_echoes h.platform.channel (.cons he .nil)))).bind fun ν₁ _ _ s₁ t₁ hν₁ hS₁ _ => ?_
  refine (Context.onDevice_echoes hS₁ hdevice (Channel.noting_echoes
    (Device.resolve_echoes hS₁.platform.channel (hν₁.events he)))).bind fun ν₂ i i' s₂ t₂ hν₂ hS₂ hi => ?_
  generalize i.status = status at hi ⊢
  generalize i'.status = status' at hi ⊢
  cases hi with
  | failed hfault => exact .throw hS₂ (.device device ((hν₁.trans hν₂).events he) (.task _ hfault))
  | queued => exact .pure hS₂ rfl
  | running => exact .pure hS₂ rfl
  | complete => exact .pure hS₂ rfl

theorem active_markWritten (c : Context) (task : Task) (offset : Nat) :
    (c.markWritten task offset).active = c.active := by
  rw [Context.markWritten_part]

theorem launch_echoes (h : Beside g ν s t) (hdevice : g.At device) (task offset threads : Nat)
    (hwait : List.Forall₂ ν.Event wait wait') :
    Echoes (Beside g) (Crowded g) Numbering.Event ν (m.launch task device offset threads wait)
      (m.launch task device offset threads wait') s t := by
  unfold launch
  refine (Context.kernel_echoes h hdevice task).bind fun ν₁ kernel _ s₁ t₁ hν₁ hS₁ hkernel => ?_
  cases hkernel
  refine Echoes.bind_get (Echoes.bind_lift hS₁ (hS₁.context.place device) fun place _ hplace _ hsame => ?_)
  cases hsame
  obtain rfl := hdevice place (hS₁.context.devices ▸ Context.place_ok.mp hplace)
  refine Echoes.bind_get (Echoes.bind_lift hS₁ (hS₁.context.task task) fun x _ _ _ hsame => ?_)
  cases hsame
  refine (Echoes.mapM (S := Beside g) (W := Numbering.Buffer) (fun hpair hν => hν.buffers hpair)
    (fun a _ _ _ _ hS => argumentBuffer_echoes hS hdevice threads a) hS₁).bind
      fun ν₂ ids ids' s₂ t₂ hν₂ hS₂ hids => Echoes.bind_get ?_
  have hlimits : (s₂.platform.channel g.place).device.limits = (t₂.platform.channel g.place).device.limits :=
    congrArg Make.limits (hS₂.platform.channel.make.trans hS₂.platform.channel.make'.symm)
  rw [← hlimits]
  refine Echoes.bind_lift hS₂ (Geometry.nameless_launch _ _ _ _).answers fun geometry _ _ _ hsame => ?_
  cases hsame
  refine (Context.onDevice_echoes hS₂ hdevice (Channel.noting_echoes (Device.launch_echoes hS₂.platform.channel
    kernel hids geometry ((hν₁.trans hν₂).forall_events hwait)))).bind fun ν₃ e e' s₃ t₃ _ hS₃ he => ?_
  refine (count_echoes hS₃ _).bind fun ν₄ _ _ s₄ t₄ hν₄ hS₄ _ => ?_
  have hmark {ν₅ : Numbering} {s₅ t₅ : Hosted Context} (hν₅ : ν₃.Within ν₅) (hS₅ : Beside g ν₅ s₅ t₅) :
      Echoes (Beside g) (Crowded g) Numbering.Event ν₅
        (do Context.modifyContext (·.markWritten x offset); return e : Context.On EventId)
        (do Context.modifyContext (·.markWritten x offset); return e' : Context.On EventId) s₅ t₅ :=
    (Context.modifyContext_echoes hS₅ (hS₅.context.markWritten x offset) (active_markWritten _ _ _)
      (active_markWritten _ _ _)).bind fun _ _ _ _ _ hν₆ hS₆ _ =>
        .pure hS₆ ((hν₅.trans hν₆).events he)
  dsimp only
  split
  case isTrue =>
    exact (checkLaunch_echoes hS₄ hdevice x (hν₄.events he)).bind fun _ _ _ _ _ hν₅ hS₅ _ =>
      hmark (hν₄.trans hν₅) hS₅
  case isFalse => exact hmark hν₄ hS₄

theorem streamOut_echoes (h : Beside g ν s t) (hr : r.Twin g ν r') (object offset length : Nat)
    (hwait : List.Forall₂ ν.Event wait wait') (blocking : Bool) :
    Echoes (Beside g) (Crowded g) (fun ν x y => Option.Rel ν.Event x.1 y.1 ∧ x.2.Twin g ν y.2) ν
      (m.streamOut r object offset length wait blocking) (m.streamOut r' object offset length wait' blocking)
      s t := by
  unfold streamOut
  refine Echoes.bind_lift h hr.device fun tgt _ _ _ ⟨hsame, hplace, _⟩ => ?_
  cases hsame
  refine Echoes.bind_get (Echoes.bind_lift h (h.context.binding object) fun b b' _ _ ⟨hb, hown⟩ => ?_)
  have hsize : transferSize s.platform.registry b.object length =
      transferSize t.platform.registry b.object length := by
    rw [transferSize, transferSize, h.platform.byteLength_eq hown]
  have hbuffer := hb.state.validBuffer?
  rw [← hb.object, ← hsize, ← hb.state.size]
  generalize b.state.validBuffer? = buffer at hbuffer ⊢
  generalize b'.state.validBuffer? = buffer' at hbuffer ⊢
  cases hbuffer with
  | none => exact .throw h (.config _)
  | some hid =>
    dsimp only
    split
    case isTrue => exact .throw h (.config _)
    case isFalse =>
      rw [hplace]
      refine (Context.onPlatform_echoes h (Platform.readBack_echoes h.platform hid hown offset _ hwait blocking)).bind
        fun ν₁ e e' s₁ t₁ hν₁ hS₁ he => ?_
      refine (count_echoes hS₁ _).bind fun ν₂ _ _ s₂ t₂ hν₂ hS₂ _ => ?_
      have hr₂ := hr.mono (hν₁.trans hν₂)
      split
      case isTrue =>
        exact (Echoes.modify (hS₂.setOwner b.object.handle tgt.index)).bind fun _ _ _ _ _ hν₃ hS₃ _ =>
          .pure hS₃ ⟨.none, hr₂.mono hν₃⟩
      case isFalse =>
        refine .pure hS₂ ⟨.some (hν₂.events he), { hr₂ with pending := congrArg (· ++ _) hr.pending, own := ?_ }⟩
        exact fun k hk => (List.mem_append.mp hk).elim (hr.own k) fun hk => List.mem_singleton.mp hk ▸ hown

theorem synchronize_echoes (h : Beside g ν s t) (hr : r.Twin g ν r') (index : Nat)
    {call : List EventId → Action Channel EventId} {wait : Option Nat}
    (hcall : Echoes (Channel.Twin g.kind g.extra) (Channel.Crowded g.extra) Numbering.Event ν
      (call (r.waiting wait)) (call (r'.waiting wait)) (s.platform.channel g.place) (t.platform.channel g.place)) :
    Echoes (Beside g) (Crowded g) (Run.Twin g) ν (m.synchronize r index call wait)
      (m.synchronize r' index call wait) s t := by
  unfold synchronize
  refine Echoes.bind_lift h hr.device fun tgt _ _ _ ⟨hsame, hplace, _⟩ => ?_
  cases hsame
  refine (onTarget_echoes h hplace hcall).bind fun ν₁ e e' s₁ t₁ hν₁ hS₁ he => ?_
  refine (count_echoes hS₁ _).bind fun ν₂ _ _ s₂ t₂ hν₂ hS₂ _ => ?_
  have hr₂ := (hr.consume wait).mono (hν₁.trans hν₂)
  have hfinal : Run.Twin g ν₂ { r.consume wait with final := some e } { r'.consume wait with final := some e' } :=
    { hr₂ with final := .some (hν₂.events he) }
  exact record_echoes hS₂ hfinal index (.some (hν₂.events he))

-- The device that a context went on to is the one to work on.
theorem aim_echoes (h : Beside g ν s t) (hr : r.Twin g ν r') (index : Nat) (hdevice : g.At device) :
    Echoes (Beside g) (Crowded g) (Run.Twin g) ν
      (do
        let place ← (← get).part.place device
        m.record { r with target := some { index := device, place } } index none)
      (do
        let place ← (← get).part.place device
        m.record { r' with target := some { index := device, place } } index none) s t := by
  refine Echoes.bind_get (Echoes.bind_lift h (h.context.place device) fun place _ hplace _ hsame => ?_)
  cases hsame
  have hsite : place = g.place := hdevice place (h.context.devices ▸ Context.place_ok.mp hplace)
  have htarget : Run.Twin g ν { r with target := some { index := device, place } }
      { r' with target := some { index := device, place } } :=
    { hr with target := rfl, site := fun tgt htgt => Option.some.inj htgt ▸ ⟨hsite, hdevice⟩ }
  exact record_echoes h htarget index .none

theorem step_echoes (h : Beside g ν s t) (hr : r.Twin g ν r') (index : Nat) {i : Instruction} (hi : i.At g) :
    Echoes (Beside g) (Crowded g) (Run.Twin g) ν (m.step index i r) (m.step index i r') s t := by
  cases i with
  | begin slots tasks lists =>
    unfold step
    refine Echoes.bind_get ?_
    dsimp only
    rw [← h.context.tasks, ← h.context.name]
    split
    case isTrue => exact .throw h (.config _)
    case isFalse => exact record_echoes h hr index .none
  | context device =>
    exact (Context.activate_echoes h hi).bind fun _ _ _ _ _ hν hS _ => aim_echoes hS (hr.mono hν) index hi
  | streamIn object offset length wait =>
    exact (streamIn_echoes h hr object offset length (hr.waiting wait)).bind fun _ _ _ _ _ hν hS he =>
      record_echoes hS ((hr.consume wait).mono hν) index he
  | launch task device wait offset threads =>
    exact (launch_echoes h hi task offset threads (hr.waiting wait)).bind fun _ _ _ _ _ hν hS he =>
      record_echoes hS ((hr.consume wait).mono hν) index (.some he)
  | streamOut object offset length wait =>
    exact (streamOut_echoes h (hr.consume wait) object offset length (hr.waiting wait) false).bind
      fun _ _ _ _ _ _ hS ⟨he, hr⟩ => record_echoes hS hr index he
  | streamOutBlocking object offset length wait =>
    exact (streamOut_echoes h (hr.consume wait) object offset length (hr.waiting wait) true).bind
      fun _ _ _ _ _ _ hS ⟨he, hr⟩ => record_echoes hS hr index he
  | addDep list =>
    unfold step
    rw [← hr.lists.length_eq]
    dsimp only
    split
    case isTrue => exact .pure h (hr.append index list)
    case isFalse => exact .throw h (.config _)
  | barrier wait =>
    exact synchronize_echoes h hr index (Channel.noting_echoes
      (Device.barrier_echoes h.platform.channel (hr.waiting wait)))
  | marker wait =>
    exact synchronize_echoes h hr index (Channel.noting_echoes
      (Device.barrier_echoes h.platform.channel (hr.waiting wait)))
  | finish => exact record_echoes h hr index .none

-- To give the buffers up makes no room where there was none before.
theorem crowded_invalidate (h : Crowded g s) : Crowded g (Context.invalidate s).2 := by
  obtain ⟨hextra, hrefused⟩ := h
  obtain ⟨calls, hjournal, _⟩ := (Context.giveUpAll_adds (c := s.part) s.part.bindings g.place).journal
  exact ⟨hextra, hrefused.append hjournal⟩

-- Whoever fails gives up first, in both runs.
theorem caught_echoes {S : Numbering → Hosted Context → Hosted Context → Prop} {i : Instruction}
    (hgive : ∀ ν s t, S ν s t → Echoes S (Crowded g) Numbering.Same ν Context.invalidate Context.invalidate s t)
    (hstep : Echoes S (Crowded g) (Run.Twin g) ν (m.step index i r) (m.step index i r') s t) :
    Echoes S (Crowded g) (Run.Twin g) ν
      (tryCatch (m.step index i r) fun e => do
        Context.invalidate
        throw (e.atInstruction index i.opcode))
      (tryCatch (m.step index i r') fun e => do
        Context.invalidate
        throw (e.atInstruction index i.opcode)) s t := by
  refine hstep.tryCatch (fun ν' _ _ _ _ _ hS he => ?_) fun e s' hR => ⟨_, rfl, crowded_invalidate hR⟩
  exact (hgive ν' _ _ hS).bind fun _ _ _ _ _ hν hS _ => .throw hS ((he.mono hν).atInstruction index i.opcode)

theorem steps_echoes {is : List Instruction} (his : ∀ i ∈ is, i.At g) (h : Beside g ν s t) (hr : r.Twin g ν r')
    (index : Nat) :
    Echoes (Beside g) (Crowded g) (Run.Twin g) ν (m.steps index is r) (m.steps index is r') s t := by
  induction is generalizing ν r r' s t index with
  | nil => exact .pure h hr
  | cons i is ih =>
    obtain ⟨hi, hlater⟩ := List.forall_mem_cons.mp his
    exact (caught_echoes (fun _ _ _ hS => Context.invalidate_echoes hS) (step_echoes h hr index hi)).bind
      fun _ _ _ _ _ _ hS hr => ih hlater hS hr (index + 1)

end Machine

-- What is left of two executions is the same but for the events.
structure Execution.Matches (ν : Numbering) (e e' : Execution) : Prop where
  target  : e.target = e'.target
  final   : Option.Rel ν.Event e.final e'.final
  states  : e.states = e'.states
  events  : List.Forall₂ (fun x y => x.1 = y.1 ∧ ν.Event x.2 y.2) e.events e'.events
  pending : e.pending = e'.pending

structure Execution.Twin (g : Stage) (ν : Numbering) (e e' : Execution) : Prop extends Execution.Matches ν e e' where
  site : e.target.place = g.place
  own  : ∀ h ∈ e.pending, g.own h

namespace Machine

open Offload.Action (Echoes)
open Context (Beside Crowded)

variable {g : Stage} {ν : Numbering} {s t : Hosted Context} {m : Machine}

theorem conclude_echoes {r r' : Run} (h : Beside g ν s t) (hr : r.Twin g ν r') :
    Echoes (Beside g) (Crowded g) (Execution.Twin g) ν
      (do
        let target ← r.device
        m.count Counters.countExecution
        return { target, final := r.final, states := r.states, events := r.events, pending := r.pending })
      (do
        let target ← r'.device
        m.count Counters.countExecution
        return { target, final := r'.final, states := r'.states, events := r'.events, pending := r'.pending })
      s t := by
  refine Echoes.bind_lift h hr.device fun tgt _ _ _ ⟨hsame, hplace, _⟩ => ?_
  cases hsame
  refine (count_echoes h _).bind fun _ _ _ _ _ hν hS _ => ?_
  have hr := hr.mono hν
  exact .pure hS ⟨⟨rfl, hr.final, hr.states, hr.events, hr.pending⟩, hplace, hr.own⟩

theorem execute_echoes (hm : ∀ i ∈ m.instructions, i.At g) (h : Beside g ν s t) :
    Echoes (Beside g) (Crowded g) (Execution.Twin g) ν m.execute m.execute s t :=
  (steps_echoes hm h (.start g ν m) 0).bind fun _ _ _ _ _ _ hS hr => conclude_echoes hS hr

end Machine

namespace Execution

open Offload.Action (Echoes)

variable {g : Stage} {ν ν' : Numbering} {e e' : Execution} {s t : Hosted Execution}

theorem Matches.mono (h : e.Matches ν e') (hν : ν.Within ν') : e.Matches ν' e' :=
  { h with
    final := hν.option_event h.final
    events := h.events.imp fun _ _ hx => ⟨hx.1, hν.events hx.2⟩ }

theorem Twin.mono (h : e.Twin g ν e') (hν : ν.Within ν') : e.Twin g ν' e' :=
  ⟨h.toMatches.mono hν, h.site, h.own⟩

-- What is waited for, in both runs.
structure Beside (g : Stage) (ν : Numbering) (s t : Hosted Execution) : Prop where
  platform  : s.platform.Twin g ν t.platform
  execution : s.part.Twin g ν t.part

def Crowded (g : Stage) (s : Hosted Execution) : Prop :=
  s.platform.Crowded g

theorem onTarget_echoes {α β : Type} {V : Numbering → α → β → Prop} {act : Action Channel α} {act' : Action Channel β}
    (h : Beside g ν s t)
    (hact : Echoes (Channel.Twin g.kind g.extra) (Channel.Crowded g.extra) V ν act act'
      (s.platform.channel g.place) (t.platform.channel g.place)) :
    Echoes (Beside g) (Crowded g) V ν (onTarget act) (onTarget act') s t := by
  unfold onTarget
  refine Echoes.bind_get ?_
  rw [← h.execution.target, h.execution.site]
  exact Or.imp (fun hR => hR) (fun ⟨ν', hν, hp, hr⟩ => ⟨ν', hν, ⟨hp, h.execution.mono hν⟩, hr⟩)
    (Platform.onChannel_echoes h.platform hact)

theorem settle_echoes {events events' : List (Nat × EventId)} {failure failure' : Option Error}
    (hevents : List.Forall₂ (fun x y => x.1 = y.1 ∧ ν.Event x.2 y.2) events events')
    (hfailure : Option.Rel (Error.Matches ν) failure failure') (h : Beside g ν s t) :
    Echoes (Beside g) (Crowded g) (fun ν e e' => Option.Rel (Error.Matches ν) e e') ν (settle events failure)
      (settle events' failure') s t := by
  induction events generalizing events' failure failure' ν s t with
  | nil =>
    cases hevents
    exact .pure h hfailure
  | cons x events ih =>
    cases hevents with
    | @cons _ y _ events' hx hrest =>
      obtain ⟨index, event⟩ := x
      obtain ⟨index', event'⟩ := y
      obtain ⟨rfl, hevent⟩ := hx
      have hfailures {ν' : Numbering} (hν : ν.Within ν') : Option.Rel (Error.Matches ν') failure failure' := by
        cases hfailure with
        | none => exact .none
        | some he => exact .some (he.mono hν)
      have hrests {ν' : Numbering} (hν : ν.Within ν') :
          List.Forall₂ (fun x y => x.1 = y.1 ∧ ν'.Event x.2 y.2) events events' :=
        hrest.imp fun _ _ hx => ⟨hx.1, hν.events hx.2⟩
      unfold settle resolve
      refine (onTarget_echoes h (Channel.noting_echoes (Device.resolve_echoes h.platform.channel hevent))).bind
        fun ν₁ i i' s₁ t₁ hν₁ hS₁ hi => ?_
      generalize i.status = status at hi ⊢
      generalize i'.status = status' at hi ⊢
      cases hi with
      | queued => exact ih (hrests hν₁) (hfailures hν₁) hS₁
      | running => exact ih (hrests hν₁) (hfailures hν₁) hS₁
      | complete =>
        refine (Echoes.modify ⟨hS₁.platform, { hS₁.execution with
          states := congrArg (·.set index .completed) hS₁.execution.states }⟩).bind
            fun ν₂ _ _ s₂ t₂ hν₂ hS₂ _ => ih (hrests (hν₁.trans hν₂)) (hfailures (hν₁.trans hν₂)) hS₂
      | @failed fault fault' hfault =>
        refine Echoes.bind_get (ih (hrests hν₁) (.some ?_) hS₁)
        rw [← hS₁.execution.target]
        cases hfailure with
        | none => exact .device _ (hν₁.events hevent) hfault
        | some he => exact he.mono hν₁

theorem publish_twin {p q : Platform} (device : Nat) (handles : List Handle) (hp : p.Twin g ν q) :
    (handles.foldl (publish device) p).Twin g ν (handles.foldl (publish device) q) := by
  induction handles generalizing p q with
  | nil => exact hp
  | cons k handles ih => exact ih (hp.setOwner k device)

theorem wait_echoes (h : Beside g ν s t) :
    Echoes (Beside g) (Crowded g) Numbering.Same ν wait wait s t := by
  unfold wait
  refine Echoes.bind_get ?_
  have hevents : List.Forall₂ ν.Event (s.part.events.map Prod.snd) (t.part.events.map Prod.snd) :=
    List.forall₂_map_left_iff.mpr (List.forall₂_map_right_iff.mpr (h.execution.events.imp fun _ _ hx => hx.2))
  refine (onTarget_echoes h (Channel.noting_echoes (Device.wait_echoes h.platform.channel hevents))).bind
    fun ν₁ _ _ s₁ t₁ hν₁ hS₁ _ => ?_
  refine (settle_echoes (h.execution.mono hν₁).events .none hS₁).bind fun ν₂ e e' s₂ t₂ hν₂ hS₂ he => ?_
  cases he with
  | some he => exact .throw hS₂ he
  | none =>
    refine .modify ⟨?_, { hS₂.execution with pending := rfl, own := nofun }⟩
    rw [← hS₂.execution.target, ← hS₂.execution.pending]
    exact publish_twin _ _ hS₂.platform

end Execution
end Offload
