import Offload.Proofs.Calls
import Offload.Proofs.Direct
import Offload.Proofs.Memory

/-!
What a context and its device amount to: the bytes of the host objects and the copies that the buffers
of the context hold. A state is intact if its books about the buffers agree with the device.
-/

namespace Offload

theorem getElem?_modify_of_some {α : Type} {xs : List α} {place : Nat} {x : α}
    (hx : xs[place]? = some x) (f : α → α) : (xs.modify place f)[place]? = some (f x) := by
  simp [hx]

namespace Context

variable {c : Context} {index : Nat} {b : Binding} {h : Handle}

theorem binding_ok : c.binding index = .ok b ↔ c.bindings[index]? = some b := by
  unfold binding
  cases c.bindings[index]? <;> simp [pure, Except.pure, throw, throwThe, MonadExceptOf.throw]

def objects (c : Context) : List HostObject :=
  c.bindings.map Binding.object

theorem getElem?_objects_iff {o : HostObject} :
    c.objects[index]? = some o ↔ ∃ b, c.bindings[index]? = some b ∧ b.object = o := by
  rw [objects, List.getElem?_map, Option.map_eq_some_iff]

theorem getElem?_objects (hb : c.bindings[index]? = some b) : c.objects[index]? = some b.object :=
  getElem?_objects_iff.mpr ⟨b, hb, rfl⟩

-- Where the same objects are bound, the same is true of all of them.
theorem forall_objects {c' : Context} {Q : HostObject → Prop} (hobjects : c'.objects = c.objects)
    (h : ∀ b ∈ c.bindings, Q b.object) : ∀ b ∈ c'.bindings, Q b.object := by
  have hall : ∀ o ∈ c.objects, Q o := List.forall_mem_map.mpr h
  rw [← hobjects] at hall
  exact List.forall_mem_map.mp hall

def Distinct (c : Context) : Prop :=
  (c.objects.map HostObject.handle).Nodup

-- The state of the object with a handle, if it is bound.
def state? (c : Context) (h : Handle) : Option ObjectState :=
  (c.bindings.find? (·.object.handle = h)).map Binding.state

def buffer? (c : Context) (h : Handle) : Option BufferId :=
  (c.state? h).bind ObjectState.buffer

theorem Distinct.index_eq (hd : c.Distinct) {index' : Nat} {b' : Binding}
    (hb : c.bindings[index]? = some b) (hb' : c.bindings[index']? = some b')
    (heq : b.object.handle = b'.object.handle) : index = index' := by
  obtain ⟨hlt, rfl⟩ := List.getElem?_eq_some_iff.mp hb
  obtain ⟨hlt', rfl⟩ := List.getElem?_eq_some_iff.mp hb'
  have hlt : index < (c.objects.map HostObject.handle).length := by simpa [objects] using hlt
  have hlt' : index' < (c.objects.map HostObject.handle).length := by simpa [objects] using hlt'
  have heq : (c.objects.map HostObject.handle)[index] = (c.objects.map HostObject.handle)[index'] := by
    simpa [objects] using heq
  exact (List.Nodup.getElem_inj_iff hd).mp heq

theorem Distinct.find?_eq (hd : c.Distinct) (hb : c.bindings[index]? = some b) :
    c.bindings.find? (·.object.handle = b.object.handle) = some b := by
  obtain ⟨hlt, rfl⟩ := List.getElem?_eq_some_iff.mp hb
  refine List.find?_eq_some_iff_getElem.mpr ⟨by simp, index, hlt, rfl, fun before hbefore => ?_⟩
  have hne : c.bindings[before].object.handle ≠ c.bindings[index].object.handle := fun heq => by
    have hsame := hd.index_eq (List.getElem?_eq_getElem _) hb heq
    omega
  simpa using hne

theorem Distinct.state?_eq (hd : c.Distinct) (hb : c.bindings[index]? = some b) :
    c.state? b.object.handle = some b.state := by
  rw [state?, hd.find?_eq hb, Option.map_some]

theorem Distinct.objectIndex?_eq (hd : c.Distinct) (hb : c.bindings[index]? = some b) :
    c.objectIndex? b.object.handle = some index := by
  obtain ⟨hlt, hget⟩ := List.getElem?_eq_some_iff.mp hb
  refine List.findIdx?_eq_some_iff_getElem.mpr ⟨hlt, by simp [hget], fun before hbefore => ?_⟩
  have hne : c.bindings[before].object.handle ≠ b.object.handle := fun heq => by
    have hsame := hd.index_eq (List.getElem?_eq_getElem _) hb heq
    omega
  simpa using hne

-- Whoever has a state is bound somewhere.
theorem exists_binding {st : ObjectState} (hst : c.state? h = some st) :
    ∃ (index : Nat) (b : Binding), c.bindings[index]? = some b ∧ b.object.handle = h ∧ b.state = st := by
  obtain ⟨b, hb, rfl⟩ := Option.map_eq_some_iff.mp hst
  obtain ⟨index, hindex⟩ := List.getElem?_of_mem (List.mem_of_find?_eq_some hb)
  exact ⟨index, b, hindex, by simpa using List.find?_some hb, rfl⟩

theorem exists_of_mem_objects (hh : h ∈ c.objects.map HostObject.handle) :
    ∃ (index : Nat) (b : Binding), c.bindings[index]? = some b ∧ b.object.handle = h := by
  simp only [objects, List.map_map, List.mem_map, Function.comp_apply] at hh
  obtain ⟨b, hb, rfl⟩ := hh
  obtain ⟨index, hindex⟩ := List.getElem?_of_mem hb
  exact ⟨index, b, hindex, rfl⟩

theorem objects_modifyState (c : Context) (index : Nat) (f : ObjectState → ObjectState) :
    (c.modifyState index f).objects = c.objects := by
  refine List.ext_getElem? fun i => ?_
  simp only [objects, modifyState, List.getElem?_map, List.getElem?_modify]
  split <;> cases c.bindings[i]? <;> rfl

theorem Distinct.modifyState (hd : c.Distinct) (index : Nat) (f : ObjectState → ObjectState) :
    (c.modifyState index f).Distinct := by
  rwa [Distinct, objects_modifyState]

theorem Distinct.state?_modifyState (hd : c.Distinct) (hb : c.bindings[index]? = some b)
    (f : ObjectState → ObjectState) (h : Handle) :
    (c.modifyState index f).state? h = if h = b.object.handle then some (f b.state) else c.state? h := by
  have hget : (c.modifyState index f).bindings[index]? = some { b with state := f b.state } := by
    simp [Context.modifyState, hb]
  split
  case isTrue heq =>
    subst heq
    exact (hd.modifyState index f).state?_eq hget
  case isFalse hne =>
    cases hst : c.state? h with
    | some st =>
      obtain ⟨other, b', hb', rfl, rfl⟩ := exists_binding hst
      have hother : index ≠ other := fun heq => by
        subst heq
        cases hb.symm.trans hb'
        exact hne rfl
      have hget' : (c.modifyState index f).bindings[other]? = some b' := by
        simp [Context.modifyState, hother, hb']
      exact (hd.modifyState index f).state?_eq hget'
    | none =>
      cases hst' : (c.modifyState index f).state? h with
      | none => rfl
      | some st =>
        obtain ⟨other, b', hb', rfl, -⟩ := exists_binding hst'
        have hmem : b'.object ∈ c.objects := by
          rw [← objects_modifyState c index f]
          exact List.mem_map_of_mem (List.mem_of_getElem? hb')
        obtain ⟨other', b'', hb'', heq⟩ := exists_of_mem_objects (List.mem_map_of_mem hmem)
        rw [← heq, hd.state?_eq hb''] at hst
        cases hst

end Context

-- The copy that the buffer of an object holds.
def ObjectState.copy? (m : Memory) (st : ObjectState) : Option Copy := do
  let buffer ← st.buffer
  let bytes ← m.contents? buffer
  return { bytes, filled := st.valid }

theorem ObjectState.copy?_of_some {m : Memory} {st : ObjectState} {id : BufferId} {bytes : Bytes}
    (hid : st.buffer = some id) (hbytes : m.contents? id = some bytes) :
    st.copy? m = some ⟨bytes, st.valid⟩ := by
  simp [copy?, hid, hbytes]

namespace Hosted

variable {place : Nat} {s : Hosted Context}

def setChannel (place : Nat) (s : Hosted Context) (c : Channel) : Hosted Context :=
  { s with platform := s.platform.setChannel place c }

def device (place : Nat) (s : Hosted Context) : Device :=
  (s.platform.channel place).device

theorem device_setChannel (hplace : place < s.platform.channels.length) (c : Channel) :
    (s.setChannel place c).device place = c.device := by
  rw [device, setChannel, Platform.channel_setChannel hplace]

-- What the steps of a schedule have come to so far.
def world (place : Nat) (s : Hosted Context) : World where
  host := s.platform.registry.bytes
  copies h := (s.part.state? h).bind (·.copy? (s.device place).memory)

end Hosted

-- What stays as it is while programs run: a device with its kernels, and the tables of a context.
structure Bench where
  place : Nat
  index : Nat
  kernels : List (String × Kernel)
  limits : Limits
  objects : List HostObject
  tasks : List Task
  distinct : (objects.map HostObject.handle).Nodup

def Bench.setup (b : Bench) (tuning : Tuning) : Setup where
  kernels := b.kernels
  limits := b.limits
  tuning := tuning

structure Intact (b : Bench) (s : Hosted Context) : Prop where
  devices  : s.part.devices[b.index]? = some b.place
  attached : b.place < s.platform.channels.length
  kernels  : (s.device b.place).kernels = b.kernels
  limits   : (s.device b.place).limits = b.limits
  objects  : s.part.objects = b.objects
  tasks    : s.part.tasks = b.tasks
  active   : ∀ device, s.part.active = some device → device = b.index
  found    : ∀ {task kernel}, s.part.kernels.lookup (b.index, task) = some kernel →
    ∃ t, b.tasks[task]? = some t ∧ b.kernels.findIdx? (·.1 == t.kernel) = some kernel
  sound    : (s.device b.place).memory.Sound
  sized    : ∀ {h st id}, s.part.state? h = some st → st.buffer = some id →
    ∃ bytes, (s.device b.place).memory.contents? id = some bytes ∧ bytes.length = st.size
  apart    : ∀ {h h' id}, s.part.buffer? h = some id → s.part.buffer? h' = some id → h = h'

namespace Intact

variable {b : Bench} {s t : Hosted Context} {h : Handle} {st : ObjectState} {id : BufferId}

theorem distinct (hi : Intact b s) : s.part.Distinct := by
  rw [Context.Distinct, hi.objects]
  exact b.distinct

theorem copies_of_none (hbuffer : s.part.buffer? h = none) : (s.world b.place).copies h = none := by
  cases hst : s.part.state? h with
  | none => simp [Hosted.world, hst]
  | some st =>
    have hnone : st.buffer = none := by simpa [Context.buffer?, hst] using hbuffer
    simp [Hosted.world, hst, ObjectState.copy?, hnone]

theorem exists_copy (hi : Intact b s) (hst : s.part.state? h = some st) (hid : st.buffer = some id) :
    ∃ bytes, (s.device b.place).memory.contents? id = some bytes ∧ bytes.length = st.size ∧
      (s.world b.place).copies h = some ⟨bytes, st.valid⟩ := by
  obtain ⟨bytes, hbytes, hlength⟩ := hi.sized hst hid
  exact ⟨bytes, hbytes, hlength, by simp [Hosted.world, hst, ObjectState.copy?_of_some hid hbytes]⟩

theorem binding_eq (hi : Intact b s) (hit : Intact b t) {index : Nat} {x : Binding}
    (hx : s.part.bindings[index]? = some x) :
    ∃ x', t.part.bindings[index]? = some x' ∧ x'.object = x.object := by
  rw [← Context.getElem?_objects_iff, hit.objects, ← hi.objects]
  exact Context.getElem?_objects hx

end Intact

-- Nothing but buffers, copies and host bytes changed.
structure Frame (place : Nat) (s t : Hosted Context) : Prop where
  devices  : t.part.devices = s.part.devices
  channels : t.platform.channels.length = s.platform.channels.length
  kernels  : (t.device place).kernels = (s.device place).kernels
  limits   : (t.device place).limits = (s.device place).limits
  objects  : t.part.objects = s.part.objects
  tasks    : t.part.tasks = s.part.tasks
  active   : t.part.active = s.part.active
  found    : t.part.kernels = s.part.kernels
  sound    : (s.device place).memory.Sound → (t.device place).memory.Sound

namespace Frame

variable {place : Nat} {s t u : Hosted Context}

theorem refl (s : Hosted Context) : Frame place s s :=
  ⟨rfl, rfl, rfl, rfl, rfl, rfl, rfl, rfl, id⟩

theorem trans (h : Frame place s t) (h' : Frame place t u) : Frame place s u where
  devices := h'.devices.trans h.devices
  channels := h'.channels.trans h.channels
  kernels := h'.kernels.trans h.kernels
  limits := h'.limits.trans h.limits
  objects := h'.objects.trans h.objects
  tasks := h'.tasks.trans h.tasks
  active := h'.active.trans h.active
  found := h'.found.trans h.found
  sound := h'.sound ∘ h.sound

theorem modifyState (s : Hosted Context) (index : Nat) (f : ObjectState → ObjectState) :
    Frame place s { s with part := s.part.modifyState index f } :=
  { refl s with objects := s.part.objects_modifyState index f }

theorem setChannel (hplace : place < s.platform.channels.length) {c : Channel}
    (hkernels : c.device.kernels = (s.device place).kernels)
    (hlimits : c.device.limits = (s.device place).limits)
    (hsound : (s.device place).memory.Sound → c.device.memory.Sound) :
    Frame place s (s.setChannel place c) := by
  have hdevice : (s.setChannel place c).device place = c.device := by
    rw [Hosted.device, Hosted.setChannel, Platform.channel_setChannel hplace]
  constructor
  case channels => exact Platform.length_setChannel _ _
  case kernels => rw [hdevice, hkernels]
  case limits => rw [hdevice, hlimits]
  case sound => rwa [hdevice]
  all_goals rfl

end Frame

namespace Intact

variable {b : Bench} {s t : Hosted Context} {h : Handle}

theorem of_frame (hi : Intact b s) (hframe : Frame b.place s t)
    (hsized : ∀ {h st id}, t.part.state? h = some st → st.buffer = some id →
      ∃ bytes, (t.device b.place).memory.contents? id = some bytes ∧ bytes.length = st.size)
    (hapart : ∀ {h h' id}, t.part.buffer? h = some id → t.part.buffer? h' = some id → h = h') :
    Intact b t where
  devices := by rw [hframe.devices, hi.devices]
  attached := hframe.channels ▸ hi.attached
  kernels := by rw [hframe.kernels, hi.kernels]
  limits := by rw [hframe.limits, hi.limits]
  objects := by rw [hframe.objects, hi.objects]
  tasks := by rw [hframe.tasks, hi.tasks]
  active := hframe.active ▸ hi.active
  found := hframe.found ▸ hi.found
  sound := hframe.sound hi.sound
  sized := hsized
  apart := hapart

end Intact

-- The state of one object became another one, and the books still agree with the device.
structure Modified (b : Bench) (h : Handle) (st : ObjectState) (s t : Hosted Context) : Prop where
  intact : Intact b t
  own    : t.part.state? h = some st
  others : ∀ other ≠ h, t.part.state? other = s.part.state? other
  copies : (t.world b.place).copies =
    Function.update (s.world b.place).copies h (st.copy? (t.device b.place).memory)

-- The buffer of the object is not that of another one, and those of the others hold what they held.
theorem Intact.modify {b : Bench} {s t : Hosted Context} {index : Nat} {x : Binding}
    {f : ObjectState → ObjectState} (hi : Intact b s) (hx : s.part.bindings[index]? = some x)
    (hframe : Frame b.place s t) (hpart : t.part = s.part.modifyState index f)
    (hkept : ∀ other ≠ x.object.handle, ∀ id, s.part.buffer? other = some id →
      (f x.state).buffer ≠ some id ∧
        (t.device b.place).memory.contents? id = (s.device b.place).memory.contents? id)
    (hown : ∀ id, (f x.state).buffer = some id →
      ∃ bytes, (t.device b.place).memory.contents? id = some bytes ∧ bytes.length = (f x.state).size) :
    Modified b x.object.handle (f x.state) s t := by
  have hstate (h : Handle) := hpart ▸ hi.distinct.state?_modifyState hx f h
  have hself : t.part.state? x.object.handle = some (f x.state) := by rw [hstate, if_pos rfl]
  have hothers : ∀ other ≠ x.object.handle, t.part.state? other = s.part.state? other :=
    fun other hne => by rw [hstate, if_neg hne]
  have hbuffer : ∀ other ≠ x.object.handle, t.part.buffer? other = s.part.buffer? other :=
    fun other hne => by rw [Context.buffer?, hothers other hne, Context.buffer?]
  have hcontents {other : Handle} (hne : other ≠ x.object.handle) {st : ObjectState} {id : BufferId}
      (hst : s.part.state? other = some st) (hid : st.buffer = some id) :
      (t.device b.place).memory.contents? id = (s.device b.place).memory.contents? id :=
    (hkept other hne id (by rw [Context.buffer?, hst]; exact hid)).2
  refine ⟨hi.of_frame hframe ?_ ?_, hself, hothers, funext fun other => ?_⟩
  case refine_1 =>
    intro other st id hst hid
    by_cases hne : other = x.object.handle
    case pos =>
      rw [hne, hself] at hst
      cases hst
      exact hown id hid
    case neg =>
      rw [hothers other hne] at hst
      rw [hcontents hne hst hid]
      exact hi.sized hst hid
  case refine_2 =>
    intro one other id hone hother
    have hfresh (h : Handle) (hne : h ≠ x.object.handle) (hid : s.part.buffer? h = some id) :
        t.part.buffer? x.object.handle ≠ some id := by
      rw [Context.buffer?, hself]
      exact (hkept h hne id hid).1
    by_cases hne : one = x.object.handle
    case pos =>
      by_cases hne' : other = x.object.handle
      case pos => rw [hne, hne']
      case neg =>
        rw [hbuffer other hne'] at hother
        exact absurd (hne ▸ hone) (hfresh other hne' hother)
    case neg =>
      rw [hbuffer one hne] at hone
      by_cases hne' : other = x.object.handle
      case pos => exact absurd (hne' ▸ hother) (hfresh one hne hone)
      case neg =>
        rw [hbuffer other hne'] at hother
        exact hi.apart hone hother
  case refine_3 =>
    by_cases hne : other = x.object.handle
    case pos =>
      subst hne
      simp [Hosted.world, hself]
    case neg =>
      rw [Function.update_of_ne hne]
      cases hst : s.part.state? other with
      | none => simp [Hosted.world, hothers other hne, hst]
      | some st =>
        cases hid : st.buffer with
        | none => simp [Hosted.world, hothers other hne, hst, ObjectState.copy?, hid]
        | some id =>
          simp [Hosted.world, hothers other hne, hst, ObjectState.copy?, hid, hcontents hne hst hid]

end Offload
