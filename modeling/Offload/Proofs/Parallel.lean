import Offload.Proofs.Failing
import Offload.Proofs.Records
import Offload.Proofs.Twins

/-!
Two contexts that do the same on devices that are alike for them. They have the same tables, and for each bound
object buffers that stand for each other; what they get from their device goes the same way, and so do the bytes
and the records of the objects that only they have to do with.
-/

namespace Offload

-- Where two contexts work, and what is theirs: the place of the device that they work on, the devices by the
-- indices that operands refer to them by, what the device is, how much more of it is in use on the first side,
-- the objects that are theirs, and whether their records are to agree, too.
structure Stage where
  place   : Nat
  devices : List Nat
  kind    : Make
  extra   : Nat
  own     : Handle → Prop
  tracked : Prop

-- An index that refers to no other device.
def Stage.At (g : Stage) (device : Nat) : Prop :=
  ∀ place, g.devices[device]? = some place → place = g.place

namespace Platform

variable {α β : Type} {g : Stage} {ν ν' : Numbering} {V : Numbering → α → β → Prop} {p q : Platform}
  {h : Handle} {id id' : BufferId}

structure Twin (g : Stage) (ν : Numbering) (p q : Platform) : Prop where
  here    : g.place < p.channels.length
  there   : g.place < q.channels.length
  channel : (p.channel g.place).Twin g.kind g.extra ν (q.channel g.place)
  bytes   : ∀ h, g.own h → p.registry.bytes h = q.registry.bytes h
  records : g.tracked → ∀ h, g.own h → p.registry.record? h = q.registry.record? h

def Crowded (g : Stage) (p : Platform) : Prop :=
  (p.channel g.place).Crowded g.extra

namespace Twin

theorem byteLength_eq (hp : p.Twin g ν q) (hown : g.own h) :
    p.registry.byteLength h = q.registry.byteLength h := by
  rw [Registry.byteLength, Registry.byteLength, hp.bytes h hown]

theorem setChannel (hp : p.Twin g ν q) {c c' : Channel} (hc : c.Twin g.kind g.extra ν' c') :
    Twin g ν' (p.setChannel g.place c) (q.setChannel g.place c') := by
  refine ⟨?_, ?_, ?_, hp.bytes, hp.records⟩
  case refine_1 => rw [length_setChannel]; exact hp.here
  case refine_2 => rw [length_setChannel]; exact hp.there
  case refine_3 => rwa [channel_setChannel hp.here, channel_setChannel hp.there]

theorem registry (hp : p.Twin g ν q) {r r' : Registry} (hbytes : ∀ h, g.own h → r.bytes h = r'.bytes h)
    (hrecords : g.tracked → ∀ h, g.own h → r.record? h = r'.record? h) :
    Twin g ν { p with registry := r } { q with registry := r' } :=
  ⟨hp.here, hp.there, hp.channel, hbytes, hrecords⟩

theorem setOwner (hp : p.Twin g ν q) (h : Handle) (device : Nat) :
    Twin g ν { p with registry := p.registry.setOwner h device true }
      { q with registry := q.registry.setOwner h device true } := by
  refine hp.registry (fun k hk => ?_) fun htracked k hk => ?_
  case refine_1 => rw [Registry.bytes_setOwner, Registry.bytes_setOwner, hp.bytes k hk]
  case refine_2 => rw [Registry.record?_setOwner, Registry.record?_setOwner, hp.records htracked k hk]

theorem deliver (hp : p.Twin g ν q) (hown : g.own h) {offset : Nat} {data : Bytes}
    (hfits : offset + data.length ≤ p.registry.byteLength h) :
    Twin g ν { p with registry := p.registry.deliver h offset data }
      { q with registry := q.registry.deliver h offset data } := by
  have hfits' : offset + data.length ≤ q.registry.byteLength h := hp.byteLength_eq hown ▸ hfits
  refine hp.registry (fun k hk => ?_) fun htracked k hk => ?_
  case refine_1 =>
    rw [Registry.bytes_deliver hfits, Registry.bytes_deliver hfits', hp.bytes h hown]
    by_cases heq : k = h
    case pos => rw [heq, Function.update_self, Function.update_self]
    case neg => rw [Function.update_of_ne heq, Function.update_of_ne heq, hp.bytes k hk]
  case refine_2 => rw [Registry.record?_deliver, Registry.record?_deliver, hp.records htracked k hk]

-- Whose record says that a device is the owner loses it.
theorem clear (hp : p.Twin g ν q) (h : Handle) (hown : g.own h) (device : Nat) :
    Twin g ν
      (if (p.registry.record? h).bind Ownership.owner = some device then
        { p with registry := p.registry.clearOwner h } else p)
      (if (q.registry.record? h).bind Ownership.owner = some device then
        { q with registry := q.registry.clearOwner h } else q) := by
  have hclear (p : Platform) : (if (p.registry.record? h).bind Ownership.owner = some device then
      { p with registry := p.registry.clearOwner h } else p) =
        { p with registry := if (p.registry.record? h).bind Ownership.owner = some device then
          p.registry.clearOwner h else p.registry } := by
    split <;> rfl
  have hbytes (r : Registry) (k : Handle) : (if (r.record? h).bind Ownership.owner = some device then
      r.clearOwner h else r).bytes k = r.bytes k := by
    split
    case isTrue => exact Registry.bytes_clearOwner r h k
    case isFalse => rfl
  rw [hclear p, hclear q]
  refine hp.registry (fun k hk => ?_) fun htracked k hk => ?_
  case refine_1 => rw [hbytes, hbytes, hp.bytes k hk]
  case refine_2 =>
    rw [hp.records htracked h hown]
    split
    case isTrue => rw [Registry.record?_clearOwner, Registry.record?_clearOwner, hp.records htracked k hk]
    case isFalse => exact hp.records htracked k hk

theorem release (hp : p.Twin g ν q) (hid : ν.Buffer id id') :
    Twin g ν (onChannel g.place (Channel.release id) p).2 (onChannel g.place (Channel.release id') q).2 :=
  hp.setChannel { hp.channel with memory := hp.channel.memory.release hp.channel.apart hid }

end Twin

open Offload.Action (Echoes)

variable {wait wait' : List EventId}

theorem onChannel_echoes {act : Action Channel α} {act' : Action Channel β} (hp : p.Twin g ν q)
    (hact : Echoes (Channel.Twin g.kind g.extra) (Channel.Crowded g.extra) V ν act act' (p.channel g.place)
      (q.channel g.place)) :
    Echoes (Twin g) (Crowded g) V ν (onChannel g.place act) (onChannel g.place act') p q := by
  rcases hact with ⟨e, he, hR⟩ | ⟨ν', hν, hS, hr⟩
  case inl =>
    refine .inl ⟨e, he, ?_⟩
    rw [onChannel_apply, Crowded, channel_setChannel hp.here]
    exact hR
  case inr => exact .inr ⟨ν', hν, hp.setChannel hS, hr⟩

theorem readBack_echoes (hp : p.Twin g ν q) (hid : ν.Buffer id id') (hown : g.own h) (offset length : Nat)
    (hwait : List.Forall₂ ν.Event wait wait') (blocking : Bool) :
    Echoes (Twin g) (Crowded g) Numbering.Event ν (readBack g.place id h offset length wait blocking)
      (readBack g.place id' h offset length wait' blocking) p q := by
  have hread : Echoes (Channel.Twin g.kind g.extra) (Channel.Crowded g.extra)
      (fun ν' a b => (ν'.Event a.1 b.1 ∧ a.2 = b.2) ∧
        ∀ data, a.2 = some data → offset + data.length ≤ p.registry.byteLength h) ν
      (Channel.read id (p.registry.byteLength h) offset length wait blocking)
      (Channel.read id' (p.registry.byteLength h) offset length wait' blocking) (p.channel g.place)
      (q.channel g.place) :=
    Channel.noting_echoes
      (Echoes.gives (Device.read_echoes hp.channel hid (p.registry.byteLength h) offset length hwait blocking)
        (Device.read_gives id (p.registry.byteLength h) offset length wait blocking))
  unfold readBack
  refine Echoes.bind_get ?_
  rw [← hp.byteLength_eq hown]
  have hcall : Echoes (fun ν' p' q' => Twin g ν' p' q' ∧ p'.registry = p.registry) (Crowded g)
      (fun ν' a b => (ν'.Event a.1 b.1 ∧ a.2 = b.2) ∧
        ∀ data, a.2 = some data → offset + data.length ≤ p.registry.byteLength h) ν
      (onChannel g.place (Channel.read id (p.registry.byteLength h) offset length wait blocking))
      (onChannel g.place (Channel.read id' (p.registry.byteLength h) offset length wait' blocking)) p q :=
    Or.imp (fun hR => hR) (fun ⟨ν', hν, hS, hr⟩ => ⟨ν', hν, ⟨hS, rfl⟩, hr⟩) (onChannel_echoes hp hread)
  refine hcall.bind_mono (fun _ _ _ hS => hS.1) fun ν' a b p' q' _ ⟨hS, hregistry⟩ ⟨⟨hevent, hdata⟩, hfits⟩ => ?_
  obtain ⟨e, data⟩ := a
  obtain ⟨e', data'⟩ := b
  cases hdata
  cases data with
  | none => exact .pure hS hevent
  | some data =>
    exact (Echoes.modify (R := Crowded g) (hS.deliver hown (hregistry ▸ hfits data rfl))).bind
      fun _ _ _ _ _ hν hS _ => .pure hS (hν.events hevent)

end Platform

-- The objects' own states agree, and so do their buffers. Which way an object was streamed makes no difference.
structure ObjectState.Twin (ν : Numbering) (st st' : ObjectState) : Prop where
  buffer     : Option.Rel ν.Buffer st.buffer st'.buffer
  size       : st.size = st'.size
  hostOffset : st.hostOffset = st'.hostOffset
  valid      : st.valid = st'.valid
  written    : st.written = st'.written

namespace ObjectState.Twin

variable {ν ν' : Numbering} {st st' : ObjectState} {id id' : BufferId}

theorem mono (h : st.Twin ν st') (hν : ν.Within ν') : st.Twin ν' st' :=
  { h with buffer := hν.option_buffer h.buffer }

theorem attach (hid : ν.Buffer id id') (st st' : ObjectState) (size : Nat) :
    ObjectState.Twin ν (st.attach id size) (st'.attach id' size) :=
  ⟨.some hid, rfl, rfl, rfl, rfl⟩

theorem detach (st st' : ObjectState) : ObjectState.Twin ν st.detach st'.detach :=
  ⟨.none, rfl, rfl, rfl, rfl⟩

theorem markWritten (h : st.Twin ν st') (offset : Nat) :
    ObjectState.Twin ν (st.markWritten offset) (st'.markWritten offset) :=
  ⟨h.buffer, h.size, rfl, rfl, rfl⟩

theorem validBuffer? (h : st.Twin ν st') : Option.Rel ν.Buffer st.validBuffer? st'.validBuffer? := by
  unfold ObjectState.validBuffer?
  rw [← h.valid]
  split
  case isTrue => exact h.buffer
  case isFalse => exact .none

end ObjectState.Twin

structure Binding.Twin (ν : Numbering) (b b' : Binding) : Prop where
  object : b.object = b'.object
  state  : b.state.Twin ν b'.state

namespace Context

variable {α β : Type} {g : Stage} {ν ν' : Numbering} {V : Numbering → α → β → Prop} {p q : Platform}
  {c c' : Context} {s t : Hosted Context} {b b' : Binding} {bs bs' : List Binding} {device index : Nat}

-- What the kernels were found to be they still are.
def Right (g : Stage) (c : Context) : Prop :=
  ∀ x ∈ c.kernels, ∃ place t, g.devices[x.1.1]? = some place ∧ c.tasks[x.1.2]? = some t ∧
    (place = g.place → g.kind.lookup? t.kernel = some x.2)

structure Twin (g : Stage) (ν : Numbering) (c c' : Context) : Prop where
  name     : c.name = c'.name
  devices  : c.devices = g.devices
  devices' : c'.devices = g.devices
  tasks    : c.tasks = c'.tasks
  bindings : List.Forall₂ (Binding.Twin ν) c.bindings c'.bindings
  own      : ∀ b ∈ c.bindings, g.own b.object.handle
  right    : c.Right g
  right'   : c'.Right g

namespace Twin

theorem mono (h : c.Twin g ν c') (hν : ν.Within ν') : c.Twin g ν' c' :=
  { h with bindings := h.bindings.imp fun _ _ hb => ⟨hb.object, hb.state.mono hν⟩ }

theorem objects_eq (h : c.Twin g ν c') : c.objects = c'.objects := by
  have heach : List.Forall₂ Eq c.objects c'.objects :=
    List.forall₂_map_left_iff.mpr (List.forall₂_map_right_iff.mpr (h.bindings.imp fun _ _ hb => hb.object))
  exact List.forall₂_eq_eq_eq ▸ heach

theorem place_eq (h : c.Twin g ν c') (device : Nat) : c.place device = c'.place device := by
  rw [Context.place, Context.place, h.devices, h.devices', h.name]

theorem place (h : c.Twin g ν c') (device : Nat) :
    Answers Numbering.Same ν (c.place device) (c'.place device) := by
  rw [← h.place_eq]
  unfold Context.place
  split
  case h_1 => exact .ok rfl
  case h_2 => exact .error (.config _)

theorem objectIndex_eq (h : c.Twin g ν c') (k : Handle) : c.objectIndex k = c'.objectIndex k := by
  rw [objectIndex, objectIndex, objectIndex?_eq, objectIndex?_eq, h.objects_eq, h.name]

theorem objectIndex (h : c.Twin g ν c') (k : Handle) :
    Answers Numbering.Same ν (c.objectIndex k) (c'.objectIndex k) := by
  rw [← h.objectIndex_eq]
  unfold Context.objectIndex
  split
  case h_1 => exact .ok rfl
  case h_2 => exact .error (.config _)

theorem task_eq (h : c.Twin g ν c') (task : Nat) : c.task task = c'.task task := by
  rw [Context.task, Context.task, h.tasks]

theorem task (h : c.Twin g ν c') (task : Nat) : Answers Numbering.Same ν (c.task task) (c'.task task) := by
  rw [← h.task_eq]
  unfold Context.task
  split
  case h_1 => exact .ok rfl
  case h_2 => exact .error (.config _)

theorem binding (h : c.Twin g ν c') (index : Nat) :
    Answers (fun ν b b' => b.Twin ν b' ∧ g.own b.object.handle) ν (c.binding index) (c'.binding index) := by
  have hfound := forall₂_getElem? h.bindings index
  unfold Context.binding
  cases hb : c.bindings[index]? with
  | none =>
    rw [hb] at hfound
    generalize c'.bindings[index]? = found at hfound ⊢
    cases hfound
    exact .error (.config _)
  | some b =>
    have hown := h.own b (List.mem_of_getElem? hb)
    rw [hb] at hfound
    generalize c'.bindings[index]? = found at hfound ⊢
    cases hfound with
    | some htwin => exact .ok ⟨htwin, hown⟩

-- With the same tables, a change of the bindings is all that there is to look at.
theorem withBindings (h : c.Twin g ν c') (hbs : List.Forall₂ (Binding.Twin ν) bs bs')
    (hown : ∀ b ∈ bs, g.own b.object.handle) : Twin g ν { c with bindings := bs } { c' with bindings := bs' } :=
  { h with bindings := hbs, own := hown }

theorem modifyState (h : c.Twin g ν c') (index : Nat) {f f' : ObjectState → ObjectState}
    (hf : ∀ st st', st.Twin ν st' → (f st).Twin ν (f' st')) :
    Twin g ν (c.modifyState index f) (c'.modifyState index f') := by
  have hown := forall_objects (Q := (g.own ·.handle)) (objects_modifyState c index f) h.own
  exact h.withBindings (forall₂_modify h.bindings index fun _ _ hb => ⟨hb.object, hf _ _ hb.state⟩) hown

theorem markWritten (h : c.Twin g ν c') (t : Task) (offset : Nat) :
    Twin g ν (c.markWritten t offset) (c'.markWritten t offset) := by
  unfold Context.markWritten
  induction t.arguments generalizing c c' with
  | nil => exact h
  | cons a arguments ih =>
    refine ih ?_
    unfold markArgument
    rw [objectIndex?_eq, objectIndex?_eq, h.objects_eq]
    split
    case h_2 => exact h
    case h_1 =>
      split
      case isTrue => exact h.modifyState _ fun _ _ hst => hst.markWritten offset
      case isFalse => exact h

theorem detachAll (h : c.Twin g ν c') : Twin g ν c.detachAll c'.detachAll := by
  refine h.withBindings ?_ fun b hb => ?_
  case refine_1 =>
    rw [List.forall₂_map_left_iff, List.forall₂_map_right_iff]
    exact h.bindings.imp fun b b' hb => ⟨hb.object, .detach b.state b'.state⟩
  case refine_2 =>
    obtain ⟨b₀, hb₀, rfl⟩ := List.mem_map.mp hb
    exact h.own b₀ hb₀

end Twin

-- Both work on the device that they have in common.
structure Beside (g : Stage) (ν : Numbering) (s t : Hosted Context) : Prop where
  platform : s.platform.Twin g ν t.platform
  context  : s.part.Twin g ν t.part
  active   : s.part.active = t.part.active
  site     : ∀ device, s.part.active = some device → g.At device

def Crowded (g : Stage) (s : Hosted Context) : Prop :=
  s.platform.Crowded g

open Offload.Action (Echoes)

section

variable {act : Action Platform α} {act' : Action Platform β}

theorem onPlatform_echoes (h : Beside g ν s t)
    (hact : Echoes (Platform.Twin g) (Platform.Crowded g) V ν act act' s.platform t.platform) :
    Echoes (Beside g) (Crowded g) V ν (Hosted.onPlatform act) (Hosted.onPlatform act') s t :=
  Or.imp (fun hR => hR) (fun ⟨ν', hν, hp, hr⟩ => ⟨ν', hν, ⟨hp, h.context.mono hν, h.active, h.site⟩, hr⟩) hact

theorem modifyContext_echoes {f f' : Context → Context} (h : Beside g ν s t)
    (hf : (f s.part).Twin g ν (f' t.part)) (hactive : (f s.part).active = s.part.active)
    (hactive' : (f' t.part).active = t.part.active) :
    Echoes (Beside g) (Crowded g) Numbering.Same ν (modifyContext f) (modifyContext f') s t := by
  refine .modify ⟨h.platform, hf, ?_, ?_⟩
  case refine_1 => rw [hactive, hactive', h.active]
  case refine_2 => rw [hactive]; exact h.site

theorem onDevice_echoes {act : Action Channel α} {act' : Action Channel β} (h : Beside g ν s t) (hdevice : g.At device)
    (hact : Echoes (Channel.Twin g.kind g.extra) (Channel.Crowded g.extra) V ν act act'
      (s.platform.channel g.place) (t.platform.channel g.place)) :
    Echoes (Beside g) (Crowded g) V ν (onDevice device act) (onDevice device act') s t := by
  unfold onDevice
  refine Echoes.bind_get ?_
  refine Echoes.bind_lift h (h.context.place device) fun place place' hplace _ hsame => ?_
  cases hsame
  obtain rfl : place = g.place := hdevice place (h.context.devices ▸ place_ok.mp hplace)
  exact onPlatform_echoes h (Platform.onChannel_echoes h.platform hact)

end

theorem giveUp_twin (hc : c.Twin g ν c') (hactive : c.active = c'.active)
    (hsite : ∀ device, c.active = some device → g.At device) (hb : b.Twin ν b') (hown : g.own b.object.handle)
    (hp : p.Twin g ν q) : (c.giveUp p b).Twin g ν (c'.giveUp q b') := by
  unfold giveUp
  rw [← hactive, ← hb.object, hc.devices, hc.devices']
  cases hsome : c.active with
  | none => exact hp
  | some active =>
    refine Platform.Twin.clear ?_ _ hown active
    cases hplace : g.devices[active]? with
    | none => exact hp
    | some place =>
      obtain rfl := hsite active hsome place hplace
      have hbuffer := hb.state.buffer
      generalize b.state.buffer = buffer at hbuffer ⊢
      generalize b'.state.buffer = buffer' at hbuffer ⊢
      cases hbuffer with
      | none => exact hp
      | some hid => exact hp.release hid

theorem giveUpAll_twin (hc : c.Twin g ν c') (hactive : c.active = c'.active)
    (hsite : ∀ device, c.active = some device → g.At device) (hbs : List.Forall₂ (Binding.Twin ν) bs bs')
    (hown : ∀ b ∈ bs, g.own b.object.handle) (hp : p.Twin g ν q) :
    (bs.foldl c.giveUp p).Twin g ν (bs'.foldl c'.giveUp q) := by
  induction hbs generalizing p q with
  | nil => exact hp
  | cons hb _ ih =>
    obtain ⟨hfirst, hlater⟩ := List.forall_mem_cons.mp hown
    exact ih hlater (giveUp_twin hc hactive hsite hb hfirst hp)

theorem invalidate_echoes (h : Beside g ν s t) :
    Echoes (Beside g) (Crowded g) Numbering.Same ν invalidate invalidate s t :=
  .modify ⟨giveUpAll_twin h.context h.active h.site h.context.bindings h.context.own h.platform,
    h.context.detachAll, h.active, h.site⟩

theorem activate_echoes (h : Beside g ν s t) (hdevice : g.At device) :
    Echoes (Beside g) (Crowded g) Numbering.Same ν (activate device) (activate device) s t := by
  have hset {ν' : Numbering} {s' t' : Hosted Context} (h : Beside g ν' s' t') :
      Echoes (Beside g) (Crowded g) Numbering.Same ν' (modifyContext fun c => { c with active := some device })
        (modifyContext fun c => { c with active := some device }) s' t' :=
    .modify ⟨h.platform, { h.context with }, rfl, fun _ heq => Option.some.inj heq ▸ hdevice⟩
  unfold activate
  refine Echoes.bind_get ?_
  refine Echoes.bind_lift h (h.context.place device) fun _ _ _ _ _ => Echoes.bind_get ?_
  rw [← h.active]
  dsimp only
  split
  case h_2 => exact hset h
  case h_1 =>
    split
    case isTrue => exact (invalidate_echoes h).bind fun _ _ _ _ _ _ hS _ => hset hS
    case isFalse => exact hset h

-- What comes of looking for the kernel of a task, whether it was found before or not.
def search (kind : Make) (c : Context) (device task : Nat) : Except Error Nat := do
  let t ← c.task task
  let _ ← c.place device
  match kind.lookup? t.kernel with
  | some kernel => pure kernel
  | none => throw (.config (.missingKernel t.kernel kind.name))

theorem search_eq {kind : Make} {task place : Nat} {t : Task} (ht : c.tasks[task]? = some t)
    (hplace : c.devices[device]? = some place) : c.search kind device task =
      match kind.lookup? t.kernel with
      | some kernel => .ok kernel
      | none => .error (.config (.missingKernel t.kernel kind.name)) := by
  rw [search, task_ok.mpr ht, place_ok.mpr hplace]
  rfl

-- Nothing changed but what was noted, and what is known of kernels.
structure Looked (g : Stage) (s t : Hosted Context) : Prop where
  registry : t.platform.registry = s.platform.registry
  channels : t.platform.channels.length = s.platform.channels.length
  device   : (t.platform.channel g.place).device = (s.platform.channel g.place).device
  context  : ∃ kernels, t.part = { s.part with kernels }
  right    : t.part.Right g

theorem Looked.refl (hright : s.part.Right g) : Looked g s s :=
  ⟨rfl, rfl, rfl, ⟨_, rfl⟩, hright⟩

theorem Beside.looked {s' t' : Hosted Context} (h : Beside g ν s t) (hs : Looked g s s') (ht : Looked g t t') :
    Beside g ν s' t' := by
  obtain ⟨kernels, hpart⟩ := hs.context
  obtain ⟨kernels', hpart'⟩ := ht.context
  have hright := hs.right
  have hright' := ht.right
  rw [hpart] at hright
  rw [hpart'] at hright'
  refine ⟨⟨?_, ?_, ?_, ?_, ?_⟩, ?_, ?_, ?_⟩
  case refine_1 => rw [hs.channels]; exact h.platform.here
  case refine_2 => rw [ht.channels]; exact h.platform.there
  case refine_3 =>
    unfold Channel.Twin
    rw [hs.device, ht.device]
    exact h.platform.channel
  case refine_4 => rw [hs.registry, ht.registry]; exact h.platform.bytes
  case refine_5 => rw [hs.registry, ht.registry]; exact h.platform.records
  case refine_6 => rw [hpart, hpart']; exact { h.context with right := hright, right' := hright' }
  case refine_7 => rw [hpart, hpart']; exact h.active
  case refine_8 => rw [hpart]; exact h.site

theorem looked_channel {c : Channel} {kernels : List ((Nat × Nat) × Nat)}
    (hhere : g.place < s.platform.channels.length) (hc : c.device = (s.platform.channel g.place).device)
    (hright : Right g { s.part with kernels }) :
    Looked g s ⟨s.platform.setChannel g.place c, { s.part with kernels }⟩ := by
  refine ⟨rfl, Platform.length_setChannel _ _, ?_, ⟨_, rfl⟩, hright⟩
  dsimp only
  rw [Platform.channel_setChannel hhere, hc]

theorem kernel_search (hdevices : s.part.devices = g.devices) (hright : s.part.Right g) (hdevice : g.At device)
    (hkind : (s.platform.channel g.place).device.make = g.kind) (hhere : g.place < s.platform.channels.length)
    (task : Nat) :
    (kernel device task s).1 = s.part.search g.kind device task ∧ Looked g s (kernel device task s).2 := by
  have hrefl := Looked.refl hright
  unfold kernel
  rw [Action.bind_of_ok (Action.get_apply s)]
  cases hcached : s.part.kernels.lookup (device, task) with
  | some k =>
    obtain ⟨known, later, hkernels, -⟩ := List.lookup_eq_some_iff.mp hcached
    obtain ⟨place, t, hplace, ht, hk⟩ :=
      hright ((device, task), k) (hkernels ▸ List.mem_append_right _ List.mem_cons_self)
    obtain rfl := hdevice place hplace
    rw [search_eq ht (hdevices ▸ hplace), hk rfl]
    exact ⟨rfl, hrefl⟩
  | none =>
    dsimp only
    cases ht : s.part.task task with
    | error e =>
      rw [Action.bind_of_error (Action.lift_apply _ s), search, ht]
      exact ⟨rfl, hrefl⟩
    | ok t =>
      rw [Action.bind_of_ok (Action.lift_apply _ s)]
      cases hplace : s.part.place device with
      | error e =>
        rw [Action.bind_of_error (Action.lift_apply _ s), search, ht, hplace]
        exact ⟨rfl, hrefl⟩
      | ok place =>
        rw [Action.bind_of_ok (Action.lift_apply _ s)]
        have hplace := place_ok.mp hplace
        obtain rfl := hdevice place (hdevices ▸ hplace)
        have hlookup : onDevice device (Channel.lookup t.kernel) s =
            (.ok (g.kind.lookup? t.kernel), s.setChannel g.place
              (Channel.lookup t.kernel (s.platform.channel g.place)).2) := by
          rw [onDevice_eq hplace, ← hkind]
          rfl
        rw [Action.bind_of_ok hlookup, search_eq (task_ok.mp ht) hplace]
        cases hfound : g.kind.lookup? t.kernel with
        | some k =>
          refine ⟨rfl, looked_channel hhere rfl (List.forall_mem_cons.mpr ⟨?_, hright⟩)⟩
          exact ⟨g.place, t, hdevices ▸ hplace, task_ok.mp ht, fun _ => hfound⟩
        | none =>
          refine ⟨?_, looked_channel hhere rfl hright⟩
          have hname : ((s.platform.setChannel g.place
              (Channel.lookup t.kernel (s.platform.channel g.place)).2).channel g.place).device.name =
                g.kind.name := by
            rw [Platform.channel_setChannel hhere, ← hkind]
            rfl
          exact congrArg (fun name => Except.error (Error.config (.missingKernel t.kernel name))) hname

theorem search_answers (hc : c.Twin g ν c') (kind : Make) (task : Nat) :
    Answers Numbering.Same ν (c.search kind device task) (c'.search kind device task) := by
  refine (hc.task task).bind fun t t' ht => ?_
  cases ht
  refine (hc.place device).bind fun _ _ _ => ?_
  split
  case h_1 => exact .ok rfl
  case h_2 => exact .error (.config _)

theorem kernel_echoes (h : Beside g ν s t) (hdevice : g.At device) (task : Nat) :
    Echoes (Beside g) (Crowded g) Numbering.Same ν (kernel device task) (kernel device task) s t := by
  obtain ⟨hresult, hlooked⟩ := kernel_search h.context.devices h.context.right hdevice h.platform.channel.make
    h.platform.here task
  obtain ⟨hresult', hlooked'⟩ := kernel_search h.context.devices' h.context.right' hdevice
    h.platform.channel.make' h.platform.there task
  refine .inr ⟨ν, .refl ν, h.looked hlooked hlooked', ?_⟩
  rw [hresult, hresult']
  exact search_answers h.context g.kind task

section

variable {size : Nat}

theorem allocateBuffer_echoes (h : Beside g ν s t) (hdevice : g.At device) (k : Handle) :
    Echoes (Beside g) (Crowded g) Numbering.Buffer ν (allocateBuffer device index size k)
      (allocateBuffer device index size k) s t := by
  unfold allocateBuffer
  have hallocate : Echoes (Beside g) (Crowded g) Numbering.Buffer ν
      (tryCatch (onDevice device (Channel.allocate size)) fun e => throw (nameObject k e))
      (tryCatch (onDevice device (Channel.allocate size)) fun e => throw (nameObject k e)) s t := by
    refine (onDevice_echoes h hdevice (Channel.allocate_echoes h.platform.channel size)).tryCatch
      (fun ν' e e' s' t' _ hS he => .throw hS ?_) fun e s' hR => ⟨_, rfl, hR⟩
    cases he with
    | nameless hnameless =>
      refine .nameless ?_
      cases e <;> exact hnameless
    | device index he hfault => exact .device index he hfault
    | instruction place opcode he => exact .instruction place opcode he
  refine hallocate.bind fun ν' id id' s' t' _ hS hid => ?_
  refine (modifyContext_echoes hS (hS.context.modifyState index fun st st' _ => .attach hid st st' size) rfl
    rfl).bind fun _ _ _ _ _ hν hS _ => .pure hS (hν.buffers hid)

theorem replaceBuffer_echoes (h : Beside g ν s t) (hdevice : g.At device) (hb : b.Twin ν b') :
    Echoes (Beside g) (Crowded g) Numbering.Buffer ν (replaceBuffer device index size b)
      (replaceBuffer device index size b') s t := by
  unfold replaceBuffer
  rw [← hb.object]
  refine Echoes.bind_get (Echoes.bind_lift h (h.context.place device) fun _ _ _ _ _ => ?_)
  have hbuffer := hb.state.buffer
  generalize b.state.buffer = buffer at hbuffer ⊢
  generalize b'.state.buffer = buffer' at hbuffer ⊢
  cases hbuffer with
  | none => exact allocateBuffer_echoes h hdevice _
  | some hid =>
    refine (modifyContext_echoes h (h.context.modifyState index fun st st' _ => .detach st st') rfl rfl).bind
      fun ν₁ _ _ s₁ t₁ hν₁ hS₁ _ => ?_
    exact (onDevice_echoes hS₁ hdevice (Channel.noting_echoes
      (Device.release_echoes hS₁.platform.channel (hν₁.buffers hid)))).bind fun _ _ _ _ _ _ hS _ =>
        allocateBuffer_echoes hS hdevice _

theorem ensureBuffer_echoes (h : Beside g ν s t) (hdevice : g.At device) (index size : Nat) :
    Echoes (Beside g) (Crowded g) Numbering.Buffer ν (ensureBuffer device index size)
      (ensureBuffer device index size) s t := by
  unfold ensureBuffer
  refine Echoes.bind_get (Echoes.bind_lift h (h.context.binding index) fun b b' _ _ ⟨hb, _⟩ => ?_)
  have hreplace : Echoes (Beside g) (Crowded g) Numbering.Buffer ν (replaceBuffer device index size b)
      (replaceBuffer device index size b') s t := replaceBuffer_echoes h hdevice hb
  have hbuffer := hb.state.buffer
  unfold replaceBuffer at hreplace
  rw [← hb.state.size]
  generalize b.state.buffer = buffer at hbuffer hreplace ⊢
  generalize b'.state.buffer = buffer' at hbuffer hreplace ⊢
  cases hbuffer with
  | none => exact hreplace
  | some hid =>
    dsimp only
    split
    case isTrue => exact .pure h hid
    case isFalse => exact hreplace

end

theorem Beside.setOwner (h : Beside g ν s t) (k : Handle) (device : Nat) :
    Beside g ν
      { s with platform := { s.platform with registry := s.platform.registry.setOwner k device true } }
      { t with platform := { t.platform with registry := t.platform.registry.setOwner k device true } } :=
  ⟨h.platform.setOwner k device, h.context, h.active, h.site⟩

theorem syncObject_echoes (h : Beside g ν s t) (o : HostObject) :
    Echoes (Beside g) (Crowded g) Numbering.Same ν (syncObject device g.place o) (syncObject device g.place o)
      s t := by
  unfold syncObject
  refine Echoes.bind_get (Echoes.bind_lift h (h.context.objectIndex o.handle) fun index _ hindex _ hsame => ?_)
  cases hsame
  refine Echoes.bind_lift h (h.context.binding index) fun b b' hb _ ⟨htwin, hown⟩ => ?_
  rw [handle_of_objectIndex? (objectIndex_ok.mp hindex) (binding_ok.mp hb)] at hown
  have hbuffer := htwin.state.validBuffer?
  rw [← htwin.state.size, ← htwin.state.hostOffset, ← h.platform.byteLength_eq hown]
  generalize b.state.validBuffer? = buffer at hbuffer ⊢
  generalize b'.state.validBuffer? = buffer' at hbuffer ⊢
  cases hbuffer with
  | none => exact .throw h (.config _)
  | some hid =>
    exact (onPlatform_echoes h (Platform.readBack_echoes h.platform hid hown _ _ .nil true)).bind
      fun _ _ _ _ _ _ hS _ => .modify (hS.setOwner o.handle device)

theorem sync_echoes (h : Beside g ν s t) (objects : List HostObject) :
    Echoes (Beside g) (Crowded g) Numbering.Same ν (sync objects) (sync objects) s t := by
  unfold sync
  refine Echoes.bind_get ?_
  dsimp only
  rw [← h.active]
  cases hactive : s.part.active with
  | none => exact .throw h (.config _)
  | some device =>
    refine Echoes.bind_lift h (h.context.place device) fun place _ hplace _ hsame => ?_
    cases hsame
    obtain rfl := h.site device hactive place (h.context.devices ▸ place_ok.mp hplace)
    exact .forM (fun o _ _ _ _ hS => syncObject_echoes hS o) h

end Context
end Offload
