import Offload.Proofs.Dealings
import Offload.Proofs.Failing
import Offload.Proofs.Suited

/-!
Who is on record for an object. Whatever a context does, it puts on record only data that it has, and it
takes its name off the record before it gives its data up.
-/

namespace Offload

namespace Registry

theorem record?_modifyEntry {r : Registry} {h : Handle} {f : Entry → Entry}
    {g : Option Ownership → Option Ownership} (hf : ∀ e, (f e).record = g e.record) (hg : g none = none)
    (k : Handle) : (r.modifyEntry h f).record? k = if k = h then g (r.record? k) else r.record? k := by
  obtain ⟨n⟩ := h
  obtain ⟨j⟩ := k
  cases n with
  | zero =>
    cases j with
    | zero => simp [record?, entry?, hg]
    | succ j => simp [modifyEntry]
  | succ n =>
    cases j with
    | zero => simp [record?, entry?]
    | succ j =>
      by_cases heq : j = n
      case neg => simp [modifyEntry, record?, entry?, Ne.symm heq, heq]
      case pos =>
        subst heq
        cases hentry : r.entries[j]? <;> simp [modifyEntry, record?, entry?, hentry, hf, hg]

theorem record?_setOwner (r : Registry) (h k : Handle) (device : Nat) (shared : Bool) :
    (r.setOwner h device shared).record? k =
      if k = h then (r.record? k).map fun _ => { owner := some device, shared } else r.record? k :=
  record?_modifyEntry (g := Option.map fun _ => { owner := some device, shared }) (fun _ => rfl) rfl k

theorem record?_deliver (r : Registry) (h k : Handle) (offset : Nat) (data : Bytes) :
    (r.deliver h offset data).record? k = r.record? k :=
  (record?_modifyEntry (f := fun e => { e with bytes := Bytes.overlayAt offset data e.bytes }) (g := id)
    (fun _ => rfl) rfl k).trans (ite_self _)

end Registry

theorem Platform.record?_readBack (place : Nat) (id : BufferId) (h : Handle) (offset length : Nat)
    (wait : List EventId) (blocking : Bool) (p : Platform) (k : Handle) :
    (readBack place id h offset length wait blocking p).2.registry.record? k = p.registry.record? k := by
  rcases hread : Channel.read id (p.registry.byteLength h) offset length wait blocking (p.channel place) with
    ⟨e | ⟨e, data⟩, c⟩
  case error => rw [readBack_of_error hread]; rfl
  case ok =>
    cases data with
    | none => rw [readBack_of_none hread]; rfl
    | some data =>
      rw [readBack_of_ok hread]
      exact Registry.record?_deliver _ _ _ _ _

namespace Context

variable {rest : Nat → List (BufferId × Nat)} {s t u : Hosted Context} {c c' : Context} {p : Platform}
  {device index : Nat} {h : Handle} {A : Hosted Context → Deal → Prop} {d : Deal}

-- The context has data of the object on the device.
def Backs (c : Context) (device : Nat) (h : Handle) : Prop :=
  c.active = some device ∧ c.Offers h

theorem Offers.bound (hoffers : c.Offers h) : ∃ b ∈ c.bindings, b.object.handle = h := by
  obtain ⟨b, hb, hhandle, _⟩ := hoffers
  exact ⟨b, hb, hhandle⟩

theorem Backs.of_bindings (hactive : c'.active = c.active) (hbindings : c'.bindings = c.bindings)
    (hbacks : c.Backs device h) : c'.Backs device h := by
  rw [Backs, Offers, hactive, hbindings]
  exact hbacks

-- What the context has data of stays so, if it does by the places of the objects.
theorem Offers.mono (hobjects : c'.objects = c.objects) (hvalid : ∀ index, c.Valid index → c'.Valid index)
    (hoffers : c.Offers h) : c'.Offers h := by
  obtain ⟨b, hb, rfl, hstate⟩ := hoffers
  obtain ⟨index, hindex⟩ := List.getElem?_of_mem hb
  obtain ⟨b', hb', hstate'⟩ := hvalid index ⟨b, hindex, hstate⟩
  have hobject : c.objects[index]? = some b'.object := hobjects ▸ getElem?_objects hb'
  exact ⟨b', List.mem_of_getElem? hb', congrArg HostObject.handle (exists_object hindex hobject).symm, hstate'⟩

-- Whoever is on record has the data, or was on record before without being this context.
def Vouches (s t : Hosted Context) : Prop :=
  ∀ device h, Owns t.platform device h →
    t.part.Backs device h ∨ Owns s.platform device h ∧ ¬s.part.Backs device h

theorem vouches_lasting : Action.Lasting Vouches where
  refl s device h howns := (Classical.em (s.part.Backs device h)).imp_right fun hnot => ⟨howns, hnot⟩
  trans := by
    intro s t u hst htu device h howns
    rcases htu device h howns with hbacks | ⟨howns', hnot⟩
    case inl => exact .inl hbacks
    case inr => exact .inr ((hst device h howns').resolve_left hnot)

theorem owns_setOwner {other : Nat} {k : Handle} {shared : Bool}
    (howns : Owns { p with registry := p.registry.setOwner k other shared } device h) :
    Owns p device h ∨ h = k ∧ device = other := by
  unfold Owns at howns ⊢
  rw [Registry.record?_setOwner] at howns
  by_cases heq : h = k
  case neg => exact .inl (by rwa [if_neg heq] at howns)
  case pos =>
    rw [if_pos heq] at howns
    cases hrecord : p.registry.record? h with
    | none => simp [hrecord] at howns
    | some record =>
      simp only [hrecord, Option.map_some, Option.bind_some, Option.some.injEq] at howns
      exact .inr ⟨heq, howns.symm⟩

theorem owns_of_giveUp {b : Binding} (howns : Owns (c.giveUp p b) device h) : Owns p device h := by
  have hcleared (active : Nat) (p' : Platform) (hregistry : p'.registry = p.registry)
      (howns : Owns (if (p'.registry.record? b.object.handle).bind Ownership.owner = some active then
        { p' with registry := p'.registry.clearOwner b.object.handle } else p') device h) :
      Owns p device h := by
    unfold Owns at howns ⊢
    split at howns
    case isFalse => rwa [hregistry] at howns
    case isTrue =>
      rw [Registry.record?_clearOwner, hregistry] at howns
      split at howns
      case isFalse => exact howns
      case isTrue => cases hrecord : p.registry.record? h <;> simp [hrecord] at howns
  unfold giveUp at howns
  cases hactive : c.active with
  | none => rwa [hactive] at howns
  | some active =>
    rw [hactive] at howns
    exact hcleared active _ (by split <;> rfl) howns

-- Giving buffers up puts nobody on record, and takes the context off it.
theorem owns_invalidate (howns : Owns (invalidate s).2.platform device h) : Owns s.platform device h ∧
    ¬(s.part.active = some device ∧ ∃ b ∈ s.part.bindings, b.object.handle = h) := by
  have hgiven (bs : List Binding) (p : Platform) (howns : Owns (bs.foldl s.part.giveUp p) device h) :
      Owns p device h := by
    induction bs generalizing p with
    | nil => exact howns
    | cons b bs ih => exact owns_of_giveUp (ih _ howns)
  refine ⟨hgiven _ _ howns, fun ⟨hactive, b, hb, hhandle⟩ => ?_⟩
  exact (owns_giveUpAll hactive howns).2 b hb hhandle.symm

theorem vouches_invalidate_of (hobjects : t.part.objects = s.part.objects)
    (hactive : t.part.active = s.part.active)
    (howns : ∀ device h, Owns t.platform device h → Owns s.platform device h ∨ s.part.Backs device h) :
    Vouches s (invalidate t).2 := by
  intro device h hafter
  obtain ⟨hbefore, hnot⟩ := owns_invalidate hafter
  have hbacks : ¬s.part.Backs device h := by
    rintro ⟨hdevice, b, hb, rfl, _⟩
    have hmem : b.object ∈ t.part.objects := hobjects ▸ List.mem_map_of_mem hb
    obtain ⟨b', hb', heq⟩ := List.mem_map.mp hmem
    exact hnot ⟨hactive.trans hdevice, b', hb', by rw [heq]⟩
  exact .inr ⟨(howns device h hbefore).resolve_right hbacks, hbacks⟩

theorem vouches_invalidate (s : Hosted Context) : Vouches s (invalidate s).2 :=
  vouches_invalidate_of rfl rfl fun _ _ h => .inl h

-- A deal puts somebody on record only if it is meant to.
theorem Does.owns (hdoes : Does d s t) (howns : Owns t.platform device h) :
    Owns s.platform device h ∨ ∃ index, d = .own index ∧ s.part.Backs device h := by
  cases hdoes with
  | deliver =>
    unfold Owns at howns
    rw [Platform.record?_readBack] at howns
    exact .inl howns
  | @own _ index active b hactive hb hvalid =>
    refine (owns_setOwner howns).imp_right fun ⟨heq, hdevice⟩ => ⟨index, rfl, hdevice ▸ hactive, ?_⟩
    exact ⟨b, List.mem_of_getElem? hb, heq.symm, hvalid⟩
  | clear => exact .inl (owns_invalidate howns).1
  | _ => exact .inl howns

theorem Valid.modifyState {other : Nat} (hne : other ≠ index) (hvalid : c.Valid index)
    (f : ObjectState → ObjectState) : (c.modifyState other f).Valid index := by
  obtain ⟨b, hb, hstate⟩ := hvalid
  exact ⟨b, by simp [Context.modifyState, hne, hb], hstate⟩

-- Data goes with the buffer only.
theorem Does.valid (hdoes : Does d s t) (hvalid : s.part.Valid index) :
    t.part.Valid index ∨ d = .detach index ∨ d = .clear := by
  cases hdoes with
  | @attach _ other size place b id memory hplace hb hnone =>
    by_cases heq : other = index
    case neg => exact .inl (hvalid.modifyState heq _)
    case pos =>
      obtain ⟨b', hb', hstate⟩ := hvalid
      cases hb.symm.trans (heq ▸ hb')
      simp [ObjectState.isValid, hnone] at hstate
  | @detach _ other =>
    by_cases heq : other = index
    case neg => exact .inl (hvalid.modifyState heq _)
    case pos => exact .inr (.inl (by rw [heq]))
  | @fill _ other offset place b id data wait blocking event hplace hb hid =>
    by_cases heq : other = index
    case neg => exact .inl (hvalid.modifyState heq _)
    case pos =>
      subst heq
      refine .inl ⟨_, getElem?_modify_of_some hb _, ?_⟩
      rw [ObjectState.isValid_markWritten, hid]
      rfl
  | mark => exact .inl (hvalid.markWritten _ _)
  | clear => exact .inr (.inr rfl)
  | _ => exact .inl hvalid

end Context

-- Deals that change no buffer.
def Deal.Reads : Deal → Prop
  | .deliver .. | .own _ => True
  | _ => False

theorem Context.Returns.reads {u : Hosted Context} {d : Deal} (h : Returns u d) : d.Reads := by
  cases d <;> first | exact h.elim | trivial

-- An instruction that may put the device on record does nothing but read.
theorem Instruction.reads_or (i : Instruction) : (∀ s wait u d, i.Permits s wait u d → d.Reads) ∨
    ∀ s wait u index, ¬i.Permits s wait u (.own index) := by
  cases i with
  | streamOutBlocking =>
    refine .inl fun s wait u d h => ?_
    cases d <;> first | exact h.elim | trivial
  | launch =>
    refine .inr fun s wait u index ⟨_, _, h⟩ => h
  | _ => exact .inr fun _ _ _ _ h => h

namespace Context

variable {rest : Nat → List (BufferId × Nat)} {s t u : Hosted Context} {c : Context}
  {device index : Nat} {h : Handle} {A : Hosted Context → Deal → Prop} {d : Deal}

theorem Does.part_eq (hdoes : Does d s t) (hreads : d.Reads) : t.part = s.part := by
  cases hdoes <;> first | exact hreads.elim | rfl

theorem Deals.same (hdeals : Deals A s t) (hbooks : Books rest s) (hreads : ∀ u d, A u d → d.Reads) :
    t.part.bindings = s.part.bindings ∧ t.part.active = s.part.active :=
  hdeals.keep (I := fun u => u.part.bindings = s.part.bindings ∧ u.part.active = s.part.active) hbooks
    ⟨rfl, rfl⟩ (fun _ _ hc hu => ⟨hc.bindings.trans hu.1, hc.active.trans hu.2⟩)
    fun _ u v _ hd hdoes hu => by rwa [hdoes.part_eq (hreads u _ hd)]

theorem Calm.owns (hcalm : Calm s t) : Owns t.platform device h ↔ Owns s.platform device h := by
  rw [Owns, Owns, hcalm.registry]

-- Whoever is put on record had the data to begin with.
theorem Deals.owns (hdeals : Deals A s t) (hbooks : Books rest s)
    (hA : (∀ u d, A u d → d.Reads) ∨ ∀ u index, ¬A u (.own index)) (howns : Owns t.platform device h) :
    Owns s.platform device h ∨ s.part.Backs device h := by
  rcases hA with hreads | hnone
  case inl =>
    refine (hdeals.keep (I := fun u => (u.part.bindings = s.part.bindings ∧
        u.part.active = s.part.active) ∧ (Owns u.platform device h → Owns s.platform device h ∨
          s.part.Backs device h)) hbooks ⟨⟨rfl, rfl⟩, .inl⟩
      (fun u v hc hu => ⟨⟨hc.bindings.trans hu.1.1, hc.active.trans hu.1.2⟩, hu.2 ∘ hc.owns.mp⟩)
      fun d u v _ hd hdoes ⟨hsame, hu⟩ => ⟨by rwa [hdoes.part_eq (hreads u d hd)], fun hv => ?_⟩).2 howns
    rcases hdoes.owns hv with hbefore | ⟨_, _, hbacks⟩
    case inl => exact hu hbefore
    case inr => exact .inr (hbacks.of_bindings hsame.2.symm hsame.1.symm)
  case inr =>
    refine .inl (hdeals.keep (I := fun u => Owns u.platform device h → Owns s.platform device h) hbooks id
      (fun _ _ hc hu => hu ∘ hc.owns.mp) (fun d u v _ hd hdoes hu hv => ?_) howns)
    rcases hdoes.owns hv with hbefore | ⟨index, rfl, _⟩
    case inl => exact hu hbefore
    case inr => exact absurd hd (hnone u index)

-- No data is lost.
structure Saves (s t : Hosted Context) : Prop where
  active  : t.part.active = s.part.active
  objects : t.part.objects = s.part.objects
  valid   : ∀ index, s.part.Valid index → t.part.Valid index

theorem saves_lasting : Action.Lasting Saves where
  refl _ := ⟨rfl, rfl, fun _ h => h⟩
  trans h h' := ⟨h'.active.trans h.active, h'.objects.trans h.objects,
    fun index => h'.valid index ∘ h.valid index⟩

theorem Calm.saves (hcalm : Calm s t) : Saves s t :=
  ⟨hcalm.active, by rw [objects, hcalm.bindings]; rfl, fun _ => hcalm.valid.mpr⟩

theorem Saves.offers (hsaves : Saves s t) (hoffers : s.part.Offers h) : t.part.Offers h :=
  hoffers.mono hsaves.objects hsaves.valid

theorem Saves.vouches (hsaves : Saves s t)
    (howns : ∀ device h, Owns t.platform device h → Owns s.platform device h ∨ s.part.Backs device h) :
    Vouches s t := by
  intro device h hafter
  by_cases hbacks : s.part.Backs device h
  case pos => exact .inl ⟨hsaves.active.trans hbacks.1, hsaves.offers hbacks.2⟩
  case neg => exact .inr ⟨(howns device h hafter).resolve_right hbacks, hbacks⟩

theorem Calm.vouches (hcalm : Calm s t) : Vouches s t :=
  hcalm.saves.vouches fun _ _ howns => .inl (hcalm.owns.mp howns)

theorem sync_vouches (hbooks : Books rest s) (objects : List HostObject) :
    (sync objects).Ends s fun _ t => Vouches s t ∧ Saves s t := by
  refine (sync_deals hbooks objects).mono fun _ t hdeals => ?_
  obtain ⟨hbindings, hactive⟩ := hdeals.same hbooks fun _ _ => Returns.reads
  have hsaves : Saves s t := by
    refine ⟨hactive, by rw [Context.objects, hbindings]; rfl, fun index hvalid => ?_⟩
    rwa [Valid, hbindings]
  exact ⟨hsaves.vouches fun _ _ => hdeals.owns hbooks (.inl fun _ _ => Returns.reads), hsaves⟩

-- Another device gets nothing, and the same device leaves everything in place.
theorem activate_vouches (device : Nat) : (activate device).Ends s fun result t => Vouches s t ∧
    ∀ x, result = .ok x → t.part.active = some device ∧ (t.part.active = s.part.active → Saves s t) := by
  have hrefl := vouches_lasting.refl s
  unfold activate
  refine Action.Ends.bind_get (Action.Ends.bind_lift (fun _ _ => ?_) fun _ _ => ⟨hrefl, nofun⟩)
  refine Action.Ends.bind_get ?_
  have hbegins (hactive : s.part.active = none) : ¬(some device = s.part.active) := by
    rw [hactive]
    exact nofun
  cases hactive : s.part.active with
  | none =>
    refine ⟨fun other h howns => .inr ⟨howns, fun hbacks => ?_⟩, fun _ _ => ⟨rfl, nofun⟩⟩
    cases hactive.symm.trans hbacks.1
  | some current =>
    dsimp only
    split
    case isTrue hother =>
      refine ⟨fun other h howns => .inr ?_, fun _ _ => ⟨rfl, fun hsame => ?_⟩⟩
      case refine_1 =>
        have howns : Owns (invalidate s).2.platform other h := howns
        obtain ⟨hbefore, hnot⟩ := owns_invalidate howns
        exact ⟨hbefore, fun hbacks => hnot ⟨hbacks.1, hbacks.2.bound⟩⟩
      case refine_2 => exact absurd (Option.some.inj hsame).symm hother
    case isFalse hsame =>
      have hsame : s.part.active = some device := Classical.not_not.mp hsame ▸ hactive
      have hkept : Saves s { s with part := { s.part with active := some device } } :=
        ⟨hsame.symm, rfl, fun _ h => h⟩
      exact ⟨hkept.vouches fun _ _ => .inl, fun _ _ => ⟨rfl, fun _ => hkept⟩⟩

end Context

-- The places whose data an instruction may replace.
def Instruction.Replaces (s : Hosted Context) (i : Instruction) (index : Nat) : Prop :=
  match i with
  | .streamIn object _ _ _ => index = object
  | .launch task _ _ _ _ => ∃ t, s.part.tasks[task]? = some t ∧ ∃ a ∈ t.arguments, a.access.writes ∧
      s.part.objectIndex? a.object.handle = some index
  | _ => False

namespace Machine

open Context

variable {rest : Nat → List (BufferId × Nat)} {s t u : Hosted Context} {m : Machine} {r r' : Run}
  {i : Instruction} {is : List Instruction} {k : Nat} {wait : List EventId}

theorem Replaces.valid {index : Nat} (hi : i.Replaces s index) (hachieves : i.Achieves s t) :
    t.part.Valid index := by
  cases i with
  | streamIn =>
    cases hi
    obtain ⟨b, hb, hstate, _⟩ := hachieves
    exact ⟨b, hb, hstate⟩
  | launch =>
    obtain ⟨task, htask, a, ha, hwrites, hindex⟩ := hi
    obtain ⟨task', htask', hvalid⟩ := hachieves
    cases htask.symm.trans htask'
    exact hvalid a ha hwrites index hindex
  | _ => exact hi.elim

-- Whatever an instruction may do to the data of an object, it does to replace it.
theorem replaces_of_permits (hi : i.opcode ≠ .context) (hstable : Stable s u) {index : Nat} {d : Deal}
    (hd : i.Permits s wait u d)
    (hgone : d = .detach index ∨ d = .clear ∨ ∃ offset wait', d = .fill index offset wait') : i.Replaces s index := by
  rcases hgone with rfl | rfl | ⟨offset, wait', rfl⟩
  case inl =>
    cases i with
    | streamIn => exact hd
    | launch =>
      obtain ⟨task, htask, a, ha, hwrites, b, hplaces, _⟩ := hd
      exact ⟨task, htask, a, ha, hwrites, hstable.objectIndex?_eq _ ▸ hplaces.1⟩
    | _ => exact hd.elim
  case inr.inl =>
    cases i with
    | context => exact absurd rfl hi
    | launch =>
      obtain ⟨_, _, htakes⟩ := hd
      exact htakes.elim
    | _ => exact hd.elim
  case inr.inr =>
    cases i with
    | streamIn => exact hd.1
    | launch =>
      obtain ⟨_, _, htakes⟩ := hd
      exact htakes.elim
    | _ => exact hd.elim

-- An instruction takes data away only to replace it.
theorem valid_or_replaces (hi : i.opcode ≠ .context) (hbooks : Books rest s)
    (hdeals : Deals (i.Permits s wait) s t) {index : Nat} (hvalid : s.part.Valid index) :
    t.part.Valid index ∨ i.Replaces s index := by
  refine hdeals.keep (I := fun u => u.part.Valid index ∨ i.Replaces s index) hbooks (.inl hvalid)
    (fun _ _ hc hu => hu.imp_left hc.valid.mpr) fun d u v hsustains hd hdoes hu => ?_
  refine hu.elim (fun hu => ?_) .inr
  refine (hdoes.valid hu).imp_right fun hgone => replaces_of_permits hi hsustains.stable hd ?_
  exact hgone.imp_right .inl

-- Instructions that do well lose no data. If one fails, the context gives its buffers up, and is off the
-- record.
theorem step_vouches (hi : i.opcode ≠ .context) (hbooks : Books rest s) (hplaced : r.Placed s)
    (hworks : i.WorksOn (r.target.map Target.index)) : (m.step k i r).Ends s fun result t =>
      Vouches s (invalidate t).2 ∧ ∀ r', result = .ok r' → Vouches s t ∧ Saves s t ∧
        ∀ h ∈ r'.pending, h ∈ r.pending ∨ t.part.Offers h := by
  have hupholds := step_upholds (P := False) (m := m) (k := k) hbooks hplaced hworks hi False.elim
  have hdeals := step_deals (m := m) (k := k) hbooks hplaced hworks
  rcases hstep : m.step k i r s with ⟨result, t⟩
  have hupholds := hupholds.of_eq hstep
  obtain ⟨hdeals, hok⟩ := hdeals.of_eq hstep
  rw [Action.Ends, hstep]
  have howns : ∀ device h, Owns t.platform device h → Owns s.platform device h ∨ s.part.Backs device h :=
    fun device h => hdeals.owns hbooks (i.reads_or.imp (fun h => h s _) fun h => h s _)
  refine ⟨vouches_invalidate_of hupholds.stable.objects hupholds.active howns, fun r' hr' => ?_⟩
  obtain ⟨hachieves, hpending⟩ := hok r' hr'
  have hsaves : Saves s t := ⟨hupholds.active, hupholds.stable.objects, fun index hvalid =>
    (valid_or_replaces hi hbooks hdeals hvalid).elim (fun h => h) fun h => Replaces.valid h hachieves⟩
  exact ⟨hsaves.vouches howns, hsaves, hpending⟩

theorem steps_vouches (hbooks : Books rest s) (hfit : Run.Fit False is r s)
    (his : ∀ i ∈ is, i.opcode ≠ .context) : (m.steps k is r).Ends s fun result t => Vouches s t ∧
      ∀ r', result = .ok r' → Saves s t ∧ ∀ h ∈ r'.pending, h ∈ r.pending ∨ t.part.Offers h := by
  induction is generalizing k r s with
  | nil =>
    refine ⟨vouches_lasting.refl s, fun r' hr' => ⟨saves_lasting.refl s, fun h hh => ?_⟩⟩
    cases hr'
    exact .inl hh
  | cons i is ih =>
    obtain ⟨hi, his⟩ := List.forall_mem_cons.mp his
    have hfirst := step_vouches (m := m) (k := k) hi hbooks hfit.placed hfit.grounded.1
    refine steps_cons_ends (fun r' t hstep => ?_) fun _ _ _ hstep => ⟨(hfirst.of_eq hstep).1, nofun⟩
    obtain ⟨hvouches, hsaves, hpending⟩ := (hfirst.of_eq hstep).2 r' rfl
    obtain ⟨hsustains, hfits⟩ := (step_fit hbooks hfit).of_eq hstep
    refine (ih hsustains.books (hfits r' rfl).1 his).mono fun result u ⟨hlater, hok⟩ =>
      ⟨vouches_lasting.trans hvouches hlater, fun r'' hr'' => ?_⟩
    obtain ⟨hsaves', hpending'⟩ := hok r'' hr''
    refine ⟨saves_lasting.trans hsaves hsaves', fun h hh => ?_⟩
    rcases hpending' h hh with hbefore | hoffers
    case inl => exact (hpending h hbefore).imp_right hsaves'.offers
    case inr => exact .inr hoffers

-- CONTEXT leaves the data of its own device in place.
theorem step_context_vouches (device : Nat) : (m.step k (.context device) r).Ends s fun result t =>
    Vouches s t ∧ ∀ r', result = .ok r' → t.part.active = some device ∧
      (t.part.active = s.part.active → Saves s t) ∧ r'.pending = r.pending := by
  refine (activate_vouches device).bind (fun x u ⟨hu, hok⟩ => ?_) fun _ _ ⟨hu, _⟩ => ⟨hu, nofun⟩
  obtain ⟨hactive, hsaves⟩ := hok x rfl
  refine Action.Ends.bind_get (Action.Ends.bind_lift (fun place _ => ?_) fun _ _ => ⟨hu, nofun⟩)
  refine (record_ends _ none u).mono fun result t ⟨hcalm, hpending⟩ =>
    ⟨vouches_lasting.trans hu hcalm.vouches, fun r' hr' => ⟨hcalm.active.trans hactive, fun hsame => ?_,
      hpending r' hr'⟩⟩
  exact saves_lasting.trans (hsaves (hcalm.active.symm.trans hsame)) hcalm.saves

-- After CONTEXT nothing is lost, and before it only what is on another device.
theorem steps_context_vouches {device : Nat} (hbooks : Books rest s)
    (hfit : Run.Fit False (.context device :: is) r s) (his : ∀ i ∈ is, i.opcode ≠ .context) :
    (m.steps k (.context device :: is) r).Ends s fun result t => Vouches s t ∧
      ∀ r', result = .ok r' → (t.part.active = s.part.active → Saves s t) ∧
        ∀ h ∈ r'.pending, h ∈ r.pending ∨ t.part.Offers h := by
  have hcontext := step_context_vouches (m := m) (r := r) (s := s) (k := k) device
  refine steps_cons_ends (fun r₁ s₁ hstep => ?_) fun _ _ u hstep =>
    ⟨vouches_lasting.trans (hcontext.of_eq hstep).1 (vouches_invalidate u), nofun⟩
  obtain ⟨hvouches, hok⟩ := hcontext.of_eq hstep
  obtain ⟨_, hsaves, hpending⟩ := hok r₁ rfl
  obtain ⟨hsustains, hfits⟩ := (step_fit hbooks hfit).of_eq hstep
  refine (steps_vouches hsustains.books (hfits r₁ rfl).1 his).mono fun result t ⟨hlater, hok'⟩ =>
    ⟨vouches_lasting.trans hvouches hlater, fun r' hr' => ?_⟩
  obtain ⟨hsaves', hpending'⟩ := hok' r' hr'
  rw [← hpending]
  exact ⟨fun hsame => saves_lasting.trans (hsaves (hsaves'.active.symm.trans hsame)) hsaves', hpending'⟩

-- What an execution leaves to whoever waits for it, and of what was there before.
structure Secures (s : Hosted Context) (e : Execution) (t : Hosted Context) : Prop where
  active : t.part.active = some e.target.index
  offers : ∀ h ∈ e.pending, t.part.Offers h
  saves  : t.part.active = s.part.active → Saves s t

theorem execute_vouches (hbooks : Books rest s) (hsuits : m.Suits s.platform.registry s.part) :
    m.execute.Ends s fun result t => Vouches s t ∧ ∀ e, result = .ok e → Secures s e t := by
  have hfit : Run.Fit False m.instructions (Run.start m) s := fit_start hsuits.grounded
  obtain ⟨slots, tasks, lists, device, is, his, hall⟩ := hsuits
  have hsteps : (m.steps 0 m.instructions (Run.start m)).Ends s fun result t => Vouches s t ∧
      ∀ r, result = .ok r → (t.part.active = s.part.active → Saves s t) ∧
        ∀ h ∈ r.pending, t.part.Offers h := by
    rw [his] at hfit ⊢
    have hbegin := step_vouches (m := m) (k := 0) (i := .begin slots tasks lists) nofun hbooks hfit.placed
      hfit.grounded.1
    refine steps_cons_ends (fun r₁ s₁ hstep => ?_) fun _ _ _ hstep => ⟨(hbegin.of_eq hstep).1, nofun⟩
    obtain ⟨hvouches, hsaves, _⟩ := (hbegin.of_eq hstep).2 r₁ rfl
    obtain ⟨hsustains, hfits⟩ := (step_fit hbooks hfit).of_eq hstep
    refine (steps_context_vouches hsustains.books (hfits r₁ rfl).1 fun i hi => (hall i hi).1).mono
      fun result t ⟨hlater, hok⟩ => ⟨vouches_lasting.trans hvouches hlater, fun r hr => ?_⟩
    obtain ⟨hsaves', hpending'⟩ := hok r hr
    have hsame : s₁.part.active = s.part.active := hsaves.active
    refine ⟨fun hactive => saves_lasting.trans hsaves (hsaves' (hactive.trans hsame.symm)), fun h hh => ?_⟩
    obtain ⟨_, rfl⟩ := step_begin hstep
    exact (hpending' h hh).resolve_left (by rw [pending_record]; exact nofun)
  unfold execute
  rcases hrun : m.steps 0 m.instructions (Run.start m) s with ⟨e | r, t⟩
  case error => exact Action.Ends.bind_of_error hrun ⟨(hsteps.of_eq hrun).1, nofun⟩
  case ok =>
    obtain ⟨hvouches, hok⟩ := hsteps.of_eq hrun
    obtain ⟨hsaves, hoffers⟩ := hok r rfl
    rw [← List.append_nil m.instructions] at hfit
    have hend := (steps_ok.mp hrun).fit hbooks hfit
    refine Action.Ends.bind_of_ok hrun (Action.Ends.bind_lift (fun target htarget => ?_) fun _ _ =>
      ⟨hvouches, nofun⟩)
    obtain ⟨hactive, _⟩ := hend.2.placed target (Run.device_ok.mp htarget)
    refine (calm_count m _ t).bind (fun _ u hu => ⟨vouches_lasting.trans hvouches hu.vouches, fun e he => ?_⟩)
      fun _ u hu => ⟨vouches_lasting.trans hvouches hu.vouches, nofun⟩
    cases he
    exact ⟨hu.active.trans hactive, fun h hh => (hoffers h hh).calm hu, fun hsame =>
      saves_lasting.trans (hsaves (hu.active.symm.trans hsame)) hu.saves⟩

end Machine
end Offload
