import Offload.Proofs.Lockstep
import Offload.Proofs.Neighbours

/-!
Neighbours do not notice each other. What a schedule does among others it does in the same way alone, but for the
numbers of its buffers and events; and what the others do makes no difference to it.
-/

namespace Offload

open Offload.Action (Echoes)

variable {α β : Type} {g : Stage} {ν ν' : Numbering} {V : Numbering → α → β → Prop}

theorem Stage.at_of_devices (h : g.devices = [g.place]) (device : Nat) : g.At device := by
  intro place hplace
  rw [h] at hplace
  exact List.mem_singleton.mp (List.mem_of_getElem? hplace)

namespace Schedule

variable {s t : Hosted Schedule}

-- The same schedule twice, with contexts that work alongside each other.
structure Beside (g : Stage) (ν : Numbering) (s t : Hosted Schedule) : Prop where
  contexts : Context.Beside g ν ⟨s.platform, s.part.context⟩ ⟨t.platform, t.part.context⟩
  same     : t.part = { s.part with context := t.part.context }

def Crowded (g : Stage) (s : Hosted Schedule) : Prop :=
  s.platform.Crowded g

theorem onContext_echoes (h : Beside g ν s t) {act : Context.On α} {act' : Context.On β}
    (hact : Echoes (Context.Beside g) (Context.Crowded g) V ν act act' ⟨s.platform, s.part.context⟩
      ⟨t.platform, t.part.context⟩) :
    Echoes (Beside g) (Crowded g) V ν (onContext act) (onContext act') s t := by
  refine Or.imp (fun hR => hR) (fun ⟨ν', hν, hS, hr⟩ => ⟨ν', hν, ⟨hS, ?_⟩, hr⟩) hact
  exact congrArg (fun x : Schedule => { x with context := (act' ⟨t.platform, t.part.context⟩).2.part }) h.same

theorem Beside.devices_eq (h : Beside g ν s t) (hs : s.part.Proper g.place g.own) : g.devices = [g.place] :=
  h.contexts.context.devices.symm.trans hs.devices

theorem Beside.machine_eq (h : Beside g ν s t) : t.part.machine = s.part.machine := by
  rw [h.same]

-- Before the steps are wired the contexts are equal, and what they are wired into is, too.
theorem builtGraph_echoes (h : Beside g ν s t) (hs : s.part.Proper g.place g.own)
    (ht : t.part.Proper g.place g.own) :
    Echoes (Beside g) (Crowded g) Numbering.Same ν builtGraph builtGraph s t := by
  have hgraph : t.part.graph = s.part.graph := by rw [h.same]
  have hdevice : t.part.device = s.part.device := by rw [h.same]
  have hsteps : t.part.steps = s.part.steps := by rw [h.same]
  unfold builtGraph
  refine Echoes.bind_get ?_
  dsimp only
  rw [hgraph]
  cases hnone : s.part.graph with
  | some graph => exact .pure h rfl
  | none =>
    have hcontext := (hs.blank hnone).2
    have hcontext' : t.part.context = s.part.context := by
      rw [(ht.blank (hgraph.trans hnone)).2, hcontext, h.contexts.context.name]
    dsimp only
    rw [hdevice, hsteps, hcontext']
    refine Echoes.bind_lift h (Wiring.nameless_build _ _ _).answers fun w _ hw _ hsame => ?_
    cases hsame
    obtain ⟨htraced, hown⟩ := hs.traced hnone hw
    have hkernels : w.context.kernels = [] := by rw [htraced.kernels, hcontext]
    have hactive : w.context.active = none := by rw [htraced.active, hcontext]
    have hdevices : w.context.devices = g.devices := htraced.devices.trans h.contexts.context.devices
    have hright : w.context.Right g := by rw [Context.Right, hkernels]; exact nofun
    have hbindings : List.Forall₂ (Binding.Twin ν) w.context.bindings w.context.bindings := by
      refine List.forall₂_same.mpr fun b hb => ⟨rfl, ?_, rfl, rfl, rfl, rfl⟩
      rw [htraced.empty b hb]
      exact .none
    refine Echoes.bind_modify (.pure ⟨⟨h.contexts.platform, ⟨rfl, hdevices, hdevices, rfl, hbindings, hown, hright,
      hright⟩, rfl, ?_⟩, ?_⟩ rfl)
    case refine_1 =>
      intro device hdevice
      cases hactive.symm.trans hdevice
    case refine_2 => exact congrArg (fun x : Schedule => { x with context := w.context, graph := some w.graph }) h.same

theorem compile_echoes (h : Beside g ν s t) (hs : s.part.Proper g.place g.own)
    (ht : t.part.Proper g.place g.own) (batch : Option Nat) :
    Echoes (Beside g) (Crowded g) Numbering.Same ν (compile batch) (compile batch) s t := by
  unfold compile
  refine (builtGraph_echoes h hs ht).bind fun ν₁ graph _ s₁ t₁ _ hS₁ hsame => Echoes.bind_get ?_
  cases hsame
  have hconfig : t₁.part.config = s₁.part.config := by rw [hS₁.same]
  have hcontexts := hS₁.contexts.context
  have hbindings : List.Forall₂ (fun b b' => b.object = b'.object ∧
      s₁.platform.registry.byteLength b.object.handle = t₁.platform.registry.byteLength b.object.handle)
      s₁.part.context.bindings t₁.part.context.bindings := by
    refine List.forall₂_iff_get.mpr ⟨hcontexts.bindings.length_eq, fun i hi hi' => ?_⟩
    exact ⟨(hcontexts.bindings.get hi hi').object,
      hS₁.contexts.platform.byteLength_eq (hcontexts.own _ (List.get_mem _ _))⟩
  rw [hconfig, compile_congr hcontexts.place_eq hcontexts.tasks hbindings]
  refine Echoes.bind_lift hS₁ (nameless_compile _ _ _ _ _).answers fun program _ _ _ hsame => ?_
  cases hsame
  refine Echoes.bind_lift hS₁ (Machine.nameless_create _ _).answers fun m _ _ _ hsame => ?_
  cases hsame
  refine Echoes.bind_modify (.pure ⟨hS₁.contexts, ?_⟩ rfl)
  exact congrArg (fun x : Schedule => { x with machine := some { m with counted := true } }) hS₁.same

theorem execute_echoes (h : Beside g ν s t) (hs : s.part.Proper g.place g.own)
    (ht : t.part.Proper g.place g.own) :
    Echoes (Beside g) (Crowded g) (Execution.Twin g) ν execute execute s t := by
  have hat := Stage.at_of_devices (h.devices_eq hs)
  unfold execute
  refine Echoes.bind_get ?_
  rw [h.machine_eq]
  split
  case' isTrue => refine (compile_echoes h hs ht none).bind fun _ _ _ _ t _ h _ => ?_
  all_goals
    refine Echoes.bind_get ?_
    rw [h.machine_eq]
    split
    case h_2 => exact .throw h (.config _)
    case h_1 m _ =>
      refine onContext_echoes h (Machine.execute_echoes (fun i _ => ?_) h.contexts)
      cases i <;> first | exact hat _ | trivial

end Schedule

-- The same answer, but for what is left of an execution.
inductive Yield.Matches (ν : Numbering) : Yield → Yield → Prop
  | program (program : Program) : Matches ν (.program program) (.program program)
  | execution {e e' : Execution} (h : e.Matches ν e') : Matches ν (.execution e) (.execution e')
  | states (states : List Progress) : Matches ν (.states states) (.states states)
  | nothing : Matches ν .nothing .nothing

theorem Yield.Matches.mono {y y' : Yield} (h : y.Matches ν y') (hν : ν.Within ν') : y.Matches ν' y' := by
  cases h with
  | program program => exact .program program
  | execution h => exact .execution (h.mono hν)
  | states states => exact .states states
  | nothing => exact .nothing

namespace Neighbour

variable {s t : Hosted Neighbour}

structure Beside (g : Stage) (ν : Numbering) (s t : Hosted Neighbour) : Prop where
  schedule : Schedule.Beside g ν ⟨s.platform, s.part.schedule⟩ ⟨t.platform, t.part.schedule⟩
  handles  : List.Forall₂ (Execution.Twin g ν) s.part.handles t.part.handles
  dropped  : s.part.dropped = t.part.dropped

def Crowded (g : Stage) (s : Hosted Neighbour) : Prop :=
  s.platform.Crowded g

theorem onSchedule_echoes (h : Beside g ν s t) {act : Schedule.On α} {act' : Schedule.On β}
    (hact : Echoes (Schedule.Beside g) (Schedule.Crowded g) V ν act act' ⟨s.platform, s.part.schedule⟩
      ⟨t.platform, t.part.schedule⟩) :
    Echoes (Beside g) (Crowded g) V ν (onSchedule act) (onSchedule act') s t :=
  Or.imp (fun hR => hR) (fun ⟨ν', hν, hS, hr⟩ =>
    ⟨ν', hν, ⟨hS, h.handles.imp fun _ _ he => he.mono hν, h.dropped⟩, hr⟩) hact

theorem unlessDropped_echoes (h : Beside g ν s t) {act act' : On Yield}
    (hact : Echoes (Beside g) (Crowded g) Yield.Matches ν act act' s t) :
    Echoes (Beside g) (Crowded g) Yield.Matches ν (unlessDropped act) (unlessDropped act') s t := by
  unfold unlessDropped
  refine Echoes.bind_get ?_
  rw [← h.dropped]
  split
  case isTrue => exact .pure h .nothing
  case isFalse => exact hact

theorem wait_echoes (h : Beside g ν s t) (handle : Nat) :
    Echoes (Beside g) (Crowded g) Yield.Matches ν (wait handle) (wait handle) s t := by
  unfold wait
  refine Echoes.bind_get ?_
  have hfound := forall₂_getElem? h.handles handle
  generalize s.part.handles[handle]? = found at hfound ⊢
  generalize t.part.handles[handle]? = found' at hfound ⊢
  cases hfound with
  | none => exact .pure h .nothing
  | @some e e' he =>
    have hawait : Echoes (Execution.Beside g) (Execution.Crowded g) Yield.Matches ν await await ⟨s.platform, e⟩
        ⟨t.platform, e'⟩ :=
      (Execution.wait_echoes ⟨h.schedule.contexts.platform, he⟩).bind fun _ _ _ _ _ _ hS _ =>
        Echoes.bind_get (.pure hS (hS.execution.states ▸ .states _))
    refine Or.imp (fun hR => hR) (fun ⟨ν', hν, hS, hr⟩ => ⟨ν', hν, ?_, hr⟩) hawait
    have hhandles : List.Forall₂ (Execution.Twin g ν') (s.part.handles.set handle (await ⟨s.platform, e⟩).2.part)
        (t.part.handles.set handle (await ⟨t.platform, e'⟩).2.part) := by
      rw [List.set_eq_modify, List.set_eq_modify]
      exact forall₂_modify (h.handles.imp fun _ _ he => he.mono hν) handle fun _ _ _ => hS.execution
    have hcontexts := h.schedule.contexts
    exact ⟨⟨⟨hS.platform, hcontexts.context.mono hν, hcontexts.active, hcontexts.site⟩, h.schedule.same⟩, hhandles,
      h.dropped⟩

theorem take_echoes (h : Beside g ν s t) (hs : s.part.schedule.Proper g.place g.own)
    (ht : t.part.schedule.Proper g.place g.own) (turn : Turn) :
    Echoes (Beside g) (Crowded g) Yield.Matches ν (take turn) (take turn) s t := by
  cases turn with
  | wait handle => exact wait_echoes h handle
  | compile batch =>
    refine unlessDropped_echoes h ((onSchedule_echoes h (Schedule.compile_echoes h.schedule hs ht batch)).bind
      fun _ program _ _ _ _ hS hsame => ?_)
    cases hsame
    exact .pure hS (.program program)
  | execute =>
    refine unlessDropped_echoes h ((onSchedule_echoes h (Schedule.execute_echoes h.schedule hs ht)).bind
      fun _ e e' _ _ _ hS he => ?_)
    exact Echoes.bind_modify (.pure ⟨hS.schedule, List.rel_append hS.handles (.cons he .nil), hS.dropped⟩
      (.execution he.toMatches))
  | sync objects =>
    have hsync := Schedule.onContext_echoes h.schedule (Context.sync_echoes h.schedule.contexts objects)
    exact unlessDropped_echoes h ((onSchedule_echoes h hsync).bind fun _ _ _ _ _ _ hS _ => .pure hS .nothing)
  | drop =>
    have hdrop := Schedule.onContext_echoes h.schedule (Context.invalidate_echoes h.schedule.contexts)
    exact unlessDropped_echoes h ((onSchedule_echoes h hdrop).bind fun _ _ _ _ _ _ hS _ =>
      Echoes.bind_modify (.pure ⟨hS.schedule, hS.handles, rfl⟩ .nothing))

end Neighbour

namespace Context

variable {p q : Platform} {c c' : Context} {place : Nat}

theorem Beside.activePlace?_eq (h : Beside g ν ⟨p, c⟩ ⟨q, c'⟩) : c.activePlace? = c'.activePlace? := by
  have hactive : c.active = c'.active := h.active
  rw [activePlace?, activePlace?, hactive, h.context.devices, h.context.devices']

-- They hold as much, buffer by buffer.
theorem Beside.sizes_eq (h : Beside g ν ⟨p, c⟩ ⟨q, c'⟩) (place : Nat) :
    (c.heldAt place).map Prod.snd = (c'.heldAt place).map Prod.snd := by
  have hheld {bs bs' : List Binding} (hbs : List.Forall₂ (Binding.Twin ν) bs bs') :
      (bs.filterMap Binding.key?).map Prod.snd = (bs'.filterMap Binding.key?).map Prod.snd := by
    induction hbs with
    | nil => rfl
    | @cons b b' _ _ hb _ ih =>
      have hbuffer := hb.state.buffer
      have hsize := hb.state.size
      rw [List.filterMap_cons, List.filterMap_cons, Binding.key?, Binding.key?]
      generalize b.state.buffer = buffer at hbuffer ⊢
      generalize b'.state.buffer = buffer' at hbuffer ⊢
      cases hbuffer with
      | none => exact ih
      | some _ => exact congrArg₂ List.cons hsize ih
  rw [heldAt, heldAt, h.activePlace?_eq]
  split
  case isTrue => exact hheld h.context.bindings
  case isFalse => rfl

-- A buffer that is there, and stands for one of a context that is alone, is the context's own.
theorem Beside.held_of_live (h : Beside g ν ⟨p, c⟩ ⟨q, c'⟩)
    (halone : (q.channel g.place).device.memory.live.Perm (c'.heldAt g.place)) {id id' : BufferId}
    (hid : ν.Buffer id id') (hlive : id ∈ (p.channel g.place).device.memory.live.map Prod.fst) :
    id ∈ (c.heldAt g.place).map Prod.fst := by
  have hlive' : id' ∈ (q.channel g.place).device.memory.live.map Prod.fst := by
    by_contra hgone
    rcases h.platform.channel.memory.buffer? hid with ⟨hnone, -⟩ | ⟨_, _, -, hsome, -⟩
    case inl => exact Memory.buffer?_eq_none_iff.mp hnone hlive
    case inr => cases hsome.symm.trans (Memory.buffer?_eq_none_iff.mpr hgone)
  obtain ⟨x, hx, rfl⟩ := List.mem_map.mp hlive'
  have hx := halone.mem_iff.mp hx
  rw [heldAt, ← h.activePlace?_eq] at hx
  rw [heldAt]
  split at hx
  case isFalse => cases hx
  case isTrue hplace =>
    rw [if_pos hplace]
    obtain ⟨b', hb', hkey⟩ := List.mem_filterMap.mp hx
    obtain ⟨i, hi, rfl⟩ := List.getElem_of_mem hb'
    have hi₀ : i < c.bindings.length := h.context.bindings.length_eq ▸ hi
    have hbuffer := (h.context.bindings.get hi₀ hi).state.buffer
    obtain ⟨id₂, hid₂, rfl⟩ := Option.map_eq_some_iff.mp hkey
    simp only [List.get_eq_getElem, hid₂] at hbuffer
    generalize hfound : (c.bindings[i]).state.buffer = found at hbuffer
    cases hbuffer with
    | @some id₁ _ hpair =>
      have hsame : id = id₁ := (h.platform.channel.apart.buffers _ hid _ hpair).mpr rfl
      exact List.mem_map.mpr ⟨_, mem_held (List.getElem_mem hi₀) hfound, hsame.symm⟩

end Context

namespace Neighbour

variable {p p' q : Platform} {x y : Neighbour} {held : List BufferId} {other : Handle → Prop} {extra : Nat}

-- Others may fill the device and add events, but that is all that they change of it.
theorem Beside.bystand (h : Beside g ν ⟨p, x⟩ ⟨q, y⟩) (hleaves : p.Leaves g.place held other p')
    (hchannels : p'.channels.length = p.channels.length) (hothers : ∀ z ∈ ν.buffers, z.1 ∉ held)
    (hown : ∀ k, g.own k → ¬other k) (horderly : (p'.channel g.place).device.memory.Orderly)
    (hallocated : (p'.channel g.place).device.memory.allocated =
      (q.channel g.place).device.memory.allocated + extra) :
    Beside { g with extra } ν ⟨p', x⟩ ⟨q, y⟩ := by
  have hplatform := h.schedule.contexts.platform
  have hdevice := hplatform.channel
  have hmemory := hdevice.memory
  have hchannel : (p'.channel g.place).Twin g.kind extra ν (q.channel g.place) := by
    refine ⟨hleaves.same.trans hdevice.make, hdevice.make', ⟨hleaves.wears.capacity.trans hmemory.capacity, hallocated,
      horderly, hmemory.orderly', fun z hz => ?_, fun z hz => ?_⟩, hdevice.apart, fun z hz => ?_, fun z hz => ?_⟩
    case refine_1 => exact (hmemory.made z hz).imp_left fun hlt => Nat.lt_of_lt_of_le hlt hleaves.adds.next
    case refine_2 =>
      exact (hleaves.contents z.1 (hmemory.made z hz).1 (hothers z hz)).trans (hmemory.contents z hz)
    case refine_3 => exact (hdevice.made z hz).imp_left fun hlt => Nat.lt_of_lt_of_le hlt hleaves.adds.onward.next
    case refine_4 =>
      obtain ⟨status, status', hstatus, hstatus', hmatches⟩ := hdevice.events z hz
      exact ⟨status, status', (hleaves.adds.onward.status?_eq_of_lt (hdevice.made z hz).1).trans hstatus, hstatus',
        hmatches⟩
  have htwin : p'.Twin { g with extra } ν q :=
    ⟨hchannels ▸ hplatform.here, hplatform.there, hchannel,
      fun k hk => (hleaves.bytes k (hown k hk)).trans (hplatform.bytes k hk),
      fun htracked k hk => (hleaves.records k (hown k hk)).trans (hplatform.records htracked k hk)⟩
  have hcontexts := h.schedule.contexts
  exact ⟨⟨⟨htwin, { hcontexts.context with }, hcontexts.active, hcontexts.site⟩, h.schedule.same⟩,
    h.handles.imp fun _ _ he => { he with }, h.dropped⟩

end Neighbour

-- What is marked with a number.
def concerning (k : Nat) (xs : List (Nat × α)) : List α :=
  xs.filterMap fun x => if x.1 = k then some x.2 else none

@[simp] theorem concerning_cons_self (k : Nat) (a : α) (xs : List (Nat × α)) :
    concerning k ((k, a) :: xs) = a :: concerning k xs := by
  simp [concerning]

theorem concerning_cons_of_ne {j k : Nat} (hne : j ≠ k) (a : α) (xs : List (Nat × α)) :
    concerning k ((j, a) :: xs) = concerning k xs := by
  simp [concerning, hne]

namespace Neighbourhood

open Tenant (Lodged)

variable {h : Neighbourhood} {place j k : Nat} {own : Nat → Handle → Prop} {q : Platform} {x y w : Neighbour}

-- What one of them holds is there, and nobody else holds it.
theorem Sound.held_apart (hsound : h.Sound place own) (hx : h.neighbours[k]? = some x)
    (hw : h.neighbours[j]? = some w) (hne : j ≠ k) {id : BufferId}
    (hid : id ∈ (w.schedule.context.heldAt place).map Prod.fst) :
    id ∈ (h.platform.channel place).device.memory.live.map Prod.fst ∧
      id ∉ (x.schedule.context.heldAt place).map Prod.fst := by
  have hbalanced := (hsound.lodged hx).books.balanced place
  have hothers : id ∈ (h.others k place).map Prod.fst := by
    obtain ⟨z, hz, rfl⟩ := List.mem_map.mp hid
    refine List.mem_map_of_mem (List.mem_flatMap.mpr ⟨w.schedule.tenant, ?_, hz⟩)
    exact List.mem_eraseIdx_iff_getElem?.mpr ⟨j, hne, tenants_eq hw⟩
  have hkeys := hbalanced.map Prod.fst
  rw [List.map_append] at hkeys
  refine ⟨hkeys.mem_iff.mpr (List.mem_append_right _ hothers), fun hheld => ?_⟩
  have hnodup := hkeys.nodup_iff.mp (Memory.map_fst_live _ ▸ (hsound.house.orderly place).nodup)
  exact (List.nodup_append.mp hnodup).2.2 id hheld id hothers rfl

-- When somebody else takes a turn, the one that is watched stays what it is.
theorem Sound.bystand (hsound : h.Sound g.place own) (hx : h.neighbours[k]? = some x)
    (hw : h.neighbours[j]? = some w) (hne : j ≠ k) (hown : ∀ o, g.own o → ¬own j o)
    (hlodged : Lodged (fun _ => []) ⟨q, y.schedule.tenant⟩)
    (hbeside : Neighbour.Beside g ν ⟨h.platform, x⟩ ⟨q, y⟩) (turn : Turn) :
    ∃ extra, Neighbour.Beside { g with extra } ν ⟨(Neighbour.take turn ⟨h.platform, w⟩).2.platform, x⟩ ⟨q, y⟩ := by
  have hminds := hsound.minds hw turn
  have hnext := hsound.step hw turn
  have hx' : (h.after j (Neighbour.take turn ⟨h.platform, w⟩).2).neighbours[k]? = some x := by
    rwa [after, List.getElem?_set_ne hne]
  have hcontexts := hbeside.schedule.contexts
  have halone : (q.channel g.place).device.memory.live.Perm (y.schedule.context.heldAt g.place) := by
    have hbalanced := hlodged.books.balanced g.place
    rwa [List.append_nil] at hbalanced
  have hothers (z : BufferId × BufferId) (hz : z ∈ ν.buffers) :
      z.1 ∉ (w.schedule.context.heldAt g.place).map Prod.fst := fun hheld => by
    obtain ⟨hlive, hnot⟩ := hsound.held_apart hx hw hne hheld
    exact hnot (hcontexts.held_of_live halone hz hlive)
  have horderly := hnext.house.orderly g.place
  have hallocated : ((Neighbour.take turn ⟨h.platform, w⟩).2.platform.channel g.place).device.memory.allocated =
      (q.channel g.place).device.memory.allocated +
        (((h.after j (Neighbour.take turn ⟨h.platform, w⟩).2).others k g.place).map Prod.snd).sum := by
    have hlone : (q.channel g.place).device.memory.allocated =
        ((y.schedule.context.heldAt g.place).map Prod.snd).sum :=
      (hlodged.books.orderly g.place).allocated.trans (halone.map Prod.snd).sum_eq
    have hlive := ((hnext.lodged hx').books.balanced g.place).map Prod.snd
    rw [List.map_append] at hlive
    rw [hlone, ← hcontexts.sizes_eq]
    exact horderly.allocated.trans (hlive.sum_eq.trans List.sum_append)
  exact ⟨_, hbeside.bystand hminds.leaves hminds.stays.channels hothers hown horderly hallocated⟩

-- What comes of the turns of one of them, among others and alone.
theorem run_beside (hown : g.own = own k) (hapart : ∀ j, j ≠ k → ∀ o, own k o → ¬own j o)
    (hsound : h.Sound g.place own) (hx : h.neighbours[k]? = some x)
    (hlodged : Lodged (fun _ => []) ⟨q, y.schedule.tenant⟩) (hproper : y.Proper g.place g.own)
    (hbeside : Neighbour.Beside g ν ⟨h.platform, x⟩ ⟨q, y⟩) (moves : List (Nat × Turn))
    (hroom : ¬((h.run moves).2.platform.channel g.place).Refused) :
    ∃ ν' extra x', ν.Within ν' ∧ (h.run moves).2.neighbours[k]? = some x' ∧
      Neighbour.Beside { g with extra } ν' ⟨(h.run moves).2.platform, x'⟩
        (Neighbour.run (concerning k moves) ⟨q, y⟩).2 ∧
      List.Forall₂ (Answers Yield.Matches ν') (concerning k (h.run moves).1)
        (Neighbour.run (concerning k moves) ⟨q, y⟩).1 := by
  induction moves generalizing g ν h q x y with
  | nil => exact ⟨ν, g.extra, x, .refl ν, hx, hbeside, .nil⟩
  | cons move moves ih =>
    obtain ⟨j, turn⟩ := move
    by_cases hj : j = k
    case neg =>
      rw [concerning_cons_of_ne hj]
      cases hw : h.neighbours[j]? with
      | none =>
        rw [run_cons_of_none hw] at hroom ⊢
        exact ih hown hsound hx hlodged hproper hbeside hroom
      | some w =>
        rw [run_cons hw] at hroom ⊢
        rw [concerning_cons_of_ne hj]
        obtain ⟨extra, hnext⟩ := hsound.bystand hx hw hj (hown ▸ hapart j hj) hlodged hbeside turn
        have hx' : (h.after j (Neighbour.take turn ⟨h.platform, w⟩).2).neighbours[k]? = some x := by
          rwa [after, List.getElem?_set_ne hj]
        exact ih (g := { g with extra }) hown (hsound.step hw turn) hx' hlodged hproper hnext hroom
    case pos =>
      subst hj
      rw [run_cons hx] at hroom ⊢
      rw [concerning_cons_self, concerning_cons_self, Neighbour.run]
      have hnext := hsound.step hx turn
      have hplace (s : Neighbour) : (h.neighbours.set j s)[j]? = some s :=
        List.getElem?_set_self (List.getElem?_eq_some_iff.mp hx).1
      have hminds := Neighbour.take_minds (s := ⟨q, y⟩) hlodged hproper turn
      rcases Neighbour.take_echoes hbeside (hown ▸ hsound.proper j x hx).schedule hproper.schedule turn with
        ⟨_, _, -, hrefused⟩ | ⟨ν₁, hν₁, hbeside₁, hanswers⟩
      case inl =>
        -- what was refused now is on record for good
        obtain ⟨calls, hjournal, -⟩ := (run_adds hnext moves).journal
        exact absurd (hrefused.append hjournal) hroom
      case inr =>
        obtain ⟨ν', extra, x', hν', hx', hbeside', hlater⟩ := ih hown hnext (hplace _) hminds.stays.toLodged
          hminds.proper hbeside₁ hroom
        exact ⟨ν', extra, x', hν₁.trans hν', hx', hbeside',
          .cons (hanswers.mono (fun _ _ hm => hm.mono hν') hν') hlater⟩

end Neighbourhood

namespace Plan

-- What a plan finds on a platform of its own: a device like the one that others have, too, and its objects.
structure Alike (plan : Plan) (place : Nat) (p q : Platform) : Prop where
  here     : place < p.channels.length
  there    : place < q.channels.length
  make     : (q.channel place).device.make = (p.channel place).device.make
  capacity : (q.channel place).device.memory.capacity = (p.channel place).device.memory.capacity
  bytes    : ∀ h ∈ plan.handles, q.registry.bytes h = p.registry.bytes h
  records  : ∀ h ∈ plan.handles, q.registry.record? h = p.registry.record? h

-- What comes of the turns that a plan takes on a platform of its own.
def alone (plan : Plan) (q : Platform) (place : Nat) (turns : List Turn) :
    List (Except Error Yield) × Hosted Neighbour :=
  Neighbour.run turns ⟨q, plan.neighbour q place⟩

theorem beside_start {plan : Plan} {p q : Platform} {place : Nat} (hp : House.Fresh ⟨p, []⟩)
    (hq : House.Fresh ⟨q, []⟩) (h : plan.Alike place p q) :
    Neighbour.Beside
      { place, devices := [place], kind := (p.channel place).device.make, extra := 0
        own := (· ∈ plan.handles), tracked := True }
      {} ⟨p, plan.neighbour p place⟩ ⟨q, plan.neighbour q place⟩ := by
  have hempty {p : Platform} (hp : House.Fresh ⟨p, []⟩) : (p.channel place).device.memory.allocated = 0 :=
    (Platform.forall_channel (Q := fun c => c.device.memory.buffers = [] ∧ c.device.memory.allocated = 0) ⟨rfl, rfl⟩
      hp.empty place).2
  refine ⟨⟨⟨⟨h.here, h.there, ?_, fun k hk => (h.bytes k hk).symm, fun _ k hk => (h.records k hk).symm⟩,
    ⟨rfl, rfl, rfl, rfl, .nil, nofun, nofun, nofun⟩, rfl, nofun⟩, rfl⟩, .nil, rfl⟩
  refine ⟨rfl, h.make, ⟨h.capacity.symm, ?_, hp.sound.orderly place, hq.sound.orderly place, nofun, nofun⟩,
    ⟨nofun, nofun⟩, nofun, nofun⟩
  exact (hempty hp).trans (hempty hq).symm

end Plan

namespace Neighbourhood

-- Among others everything went as it did alone: what came of the turns, what is left of the executions, and what is
-- in the objects and on record.
structure Undisturbed (plan : Plan) (k : Nat) (ν : Numbering) (among : List (Nat × Except Error Yield) × Neighbourhood)
    (alone : List (Except Error Yield) × Hosted Neighbour) : Prop where
  outcomes : List.Forall₂ (Answers Yield.Matches ν) (concerning k among.1) alone.1
  handles  : ∃ x, among.2.neighbours[k]? = some x ∧
    List.Forall₂ (Execution.Matches ν) x.handles alone.2.part.handles
  bytes    : ∀ h ∈ plan.handles, among.2.platform.registry.bytes h = alone.2.platform.registry.bytes h
  records  : ∀ h ∈ plan.handles, among.2.platform.registry.record? h = alone.2.platform.registry.record? h

-- One counts an object up, and the other one asks for a kernel that is not there. A platform of its own has only
-- the object of the first.
def errands : List Plan :=
  [⟨"one", {}, [.streamIn House.first, .task (House.calling "increment" House.first), .streamOut House.first]⟩,
    ⟨"two", {}, [.streamIn House.second, .task (House.calling "nothing" House.second)]⟩]

def study : Platform :=
  { House.inn.platform with registry := (({} : Registry).register (.array .byte) [1, 2]).2 }

def errandMoves : List (Nat × Turn) :=
  [(0, .compile none), (1, .execute), (0, .execute), (1, .execute), (0, .wait 0), (1, .drop), (0, .sync [House.first]),
    (0, .execute), (0, .wait 1), (0, .drop)]

end Neighbourhood
end Offload
