import Offload.Proofs.Intact

/-!
Providing buffers: unless the device refuses an allocation, an object gets a buffer of the size asked
for, and what it holds is as its copy is to be.
-/

namespace Offload

namespace Context

variable {α β : Type} {s t : Hosted Context}

-- Nothing failed for want of device memory.
def Granted (r : Except Error α) : Prop :=
  ∀ e, r = .error e → ∀ device cause, e.root ≠ .resource device cause

theorem granted_ok (a : α) : Granted (.ok a : Except Error α) :=
  nofun

theorem Granted.of_error {e : Error} (h : Granted (.error e : Except Error α)) :
    Granted (.error e : Except Error β) := by
  intro e' he'
  cases he'
  exact h e rfl

-- The action answers, unless it is refused an allocation.
def Serves (act : On α) (s : Hosted Context) (Q : α → Hosted Context → Prop) : Prop :=
  act.Ends s fun r t => Granted r → ∃ a, r = .ok a ∧ Q a t

namespace Serves

variable {act : On α} {f : α → On β} {P : α → Hosted Context → Prop}

theorem bind {Q : Except Error β → Hosted Context → Prop} (hact : Serves act s P)
    (hf : ∀ a t, P a t → (f a).Ends t fun r u => Granted r → Q r u) :
    (act >>= f).Ends s fun r u => Granted r → Q r u := by
  refine Action.Ends.bind hact (fun a t ha => ?_) fun e t he hgranted => ?_
  case refine_1 =>
    obtain ⟨_, heq, hP⟩ := ha (granted_ok a)
    cases heq
    exact hf a t hP
  case refine_2 =>
    obtain ⟨_, heq, _⟩ := he hgranted.of_error
    cases heq

theorem bind_serves {Q : β → Hosted Context → Prop} (hact : Serves act s P)
    (hf : ∀ a t, P a t → Serves (f a) t Q) : Serves (act >>= f) s Q :=
  hact.bind hf

theorem of_eq {Q : α → Hosted Context → Prop} {a : α} (h : act s = (.ok a, t)) (hQ : Q a t) :
    Serves act s Q := by
  intro _
  rw [h]
  exact ⟨a, rfl, hQ⟩

theorem mono {Q : α → Hosted Context → Prop} (hact : Serves act s P) (h : ∀ a t, P a t → Q a t) :
    Serves act s Q := fun hgranted =>
  have ⟨a, ha, hP⟩ := hact hgranted
  ⟨a, ha, h a _ hP⟩

theorem and_keeps {R : Hosted Context → Hosted Context → Prop} (hact : Serves act s P)
    (hkeeps : act.Keeps R) : Serves act s fun a t => P a t ∧ R s t := fun hgranted =>
  have ⟨a, ha, hP⟩ := hact hgranted
  ⟨a, ha, hP, hkeeps s⟩

end Serves

theorem onDevice_eq {place device : Nat} (hdevice : s.part.devices[device]? = some place)
    (act : Action Channel α) :
    onDevice device act s = ((act (s.platform.channel place)).1,
      s.setChannel place (act (s.platform.channel place)).2) := by
  unfold onDevice
  rw [Action.bind_of_ok (Action.get_apply s), place_ok.mpr hdevice,
    Action.bind_of_ok (Action.lift_apply _ s)]
  rfl

end Context

namespace Channel

variable {p : Channel} {size : Nat}

theorem allocate_of_error {cause : Shortage} (h : p.device.memory.allocate size = .error cause) :
    ∃ c, allocate size p = (.error (.resource p.device.index cause), c) ∧ c.device = p.device := by
  have hcall : Device.allocate size p.device = (.error (.resource p.device.index cause), p.device) := by
    unfold Device.allocate
    rw [Action.bind_of_ok (Action.get_apply _)]
    simp only [h]
    rfl
  refine ⟨_, by rw [allocate, noting_apply, hcall], ?_⟩
  rfl

theorem allocate_of_ok {id : BufferId} {memory : Memory}
    (h : p.device.memory.allocate size = .ok (id, memory)) :
    ∃ c, allocate size p = (.ok id, c) ∧ c.device = { p.device with memory } := by
  have hcall : Device.allocate size p.device = (.ok id, { p.device with memory }) := by
    unfold Device.allocate
    rw [Action.bind_of_ok (Action.get_apply _)]
    simp only [h]
    rfl
  exact ⟨_, by rw [allocate, noting_apply, hcall], rfl⟩

end Channel

namespace Intact

variable {b : Bench} {s : Hosted Context} {index size : Nat} {x : Binding}

-- No other object has the buffer of this one.
theorem buffer?_ne (hi : Intact b s) (hx : s.part.bindings[index]? = some x) {id : BufferId}
    (hid : x.state.buffer = some id) {other : Handle} (hne : other ≠ x.object.handle)
    {id' : BufferId} (hid' : s.part.buffer? other = some id') : id' ≠ id := by
  intro heq
  have hown : s.part.buffer? x.object.handle = some id := by
    rw [Context.buffer?, hi.distinct.state?_eq hx]
    exact hid
  exact hne (hi.apart (heq ▸ hid') hown)

theorem frame_modify (hi : Intact b s) (index : Nat) (f : ObjectState → ObjectState) {c : Channel}
    (hkernels : c.device.kernels = (s.device b.place).kernels)
    (hlimits : c.device.limits = (s.device b.place).limits)
    (hsound : (s.device b.place).memory.Sound → c.device.memory.Sound) :
    Frame b.place s ({ s with part := s.part.modifyState index f }.setChannel b.place c) := by
  refine (Frame.modifyState s index f).trans (Frame.setChannel ?_ hkernels hlimits hsound)
  exact hi.attached

theorem release (hi : Intact b s) (hx : s.part.bindings[index]? = some x) {old : BufferId}
    (hold : x.state.buffer = some old) {c : Channel}
    (hc : c.device = { s.device b.place with memory := (s.device b.place).memory.release old }) :
    Modified b x.object.handle x.state.detach s
      ({ s with part := s.part.modifyState index ObjectState.detach }.setChannel b.place c) := by
  have ⟨hsound, hkept⟩ := (s.device b.place).memory.release_frame old
  refine hi.modify hx (hi.frame_modify index _ (hc ▸ rfl) (hc ▸ rfl) (hc ▸ hsound)) rfl ?_ nofun
  intro other hne id hid
  rw [Hosted.device_setChannel (by exact hi.attached), hc]
  exact ⟨nofun, hkept id (hi.buffer?_ne hx hold hne hid)⟩

theorem attach (hi : Intact b s) (hx : s.part.bindings[index]? = some x) {id : BufferId} {c : Channel}
    {memory : Memory} (hc : c.device = { s.device b.place with memory })
    (hmemory : (s.device b.place).memory.allocate size = .ok (id, memory)) :
    Modified b x.object.handle (x.state.attach id size) s
      ({ s with part := s.part.modifyState index (·.attach id size) }.setChannel b.place c) := by
  have ⟨hsound, hnone, hzeros, hkept⟩ := Memory.allocate_ok hi.sound hmemory
  refine hi.modify (f := (·.attach id size)) hx
    (hi.frame_modify index _ (hc ▸ rfl) (hc ▸ rfl) (hc ▸ fun _ => hsound)) rfl ?_ ?_
  case refine_1 =>
    intro other hne id' hid'
    -- what is new is the buffer of nobody
    have hne' : id' ≠ id := fun heq => by
      obtain ⟨st, hst, hbuffer⟩ := Option.bind_eq_some_iff.mp hid'
      obtain ⟨bytes, hbytes, _⟩ := hi.sized hst hbuffer
      rw [heq, hnone] at hbytes
      cases hbytes
    rw [Hosted.device_setChannel (by exact hi.attached), hc]
    exact ⟨fun heq => hne' (Option.some.inj heq).symm, hkept id' hne'⟩
  case refine_2 =>
    intro id' hid'
    cases hid'
    rw [Hosted.device_setChannel (by exact hi.attached), hc]
    exact ⟨_, hzeros, Bytes.zeros_length size⟩

end Intact

-- An object has a buffer, and its copy has the size asked for.
structure Provided (b : Bench) (h : Handle) (size : Nat) (id : BufferId) (s t : Hosted Context) :
    Prop where
  intact : Intact b t
  buffer : t.part.buffer? h = some id
  others : ∀ other ≠ h, t.part.state? other = s.part.state? other
  world  : t.world b.place = (s.world b.place).ensure h size

theorem Provided.contents {b : Bench} {h : Handle} {size : Nat} {id : BufferId} {s t : Hosted Context}
    (hp : Provided b h size id s t) : ∃ st bytes, t.part.state? h = some st ∧ st.buffer = some id ∧
      (t.device b.place).memory.contents? id = some bytes ∧ bytes.length = size := by
  obtain ⟨st, hst, hid⟩ := Option.bind_eq_some_iff.mp hp.buffer
  obtain ⟨bytes, hbytes, _, hcopy⟩ := hp.intact.exists_copy hst hid
  rw [hp.world] at hcopy
  exact ⟨st, bytes, hst, hid, hbytes, World.length_ensure hcopy⟩

namespace Context

variable {b : Bench} {s : Hosted Context} {index size : Nat} {x : Binding}

theorem allocateBuffer_serves (hi : Intact b s) (hx : s.part.bindings[index]? = some x) (h : Handle) :
    Serves (allocateBuffer b.index index size h) s fun id t =>
      Modified b x.object.handle (x.state.attach id size) s t ∧
        t.platform.registry = s.platform.registry ∧
        (t.device b.place).memory.contents? id = some (Bytes.zeros size) := by
  unfold allocateBuffer
  have hcall := onDevice_eq hi.devices (Channel.allocate size)
  cases hmemory : (s.device b.place).memory.allocate size with
  | error cause =>
    obtain ⟨c, hc, _⟩ := Channel.allocate_of_error hmemory
    rw [hc] at hcall
    have hthrow : tryCatch (onDevice b.index (Channel.allocate size)) (fun e => throw (nameObject h e)) s =
        (.error (.resource (s.device b.place).index (.memoryFor h cause)), s.setChannel b.place c) := by
      rw [Action.tryCatch_of_error hcall]
      rfl
    intro hgranted
    rw [Action.bind_of_error hthrow] at hgranted
    exact absurd rfl (hgranted _ rfl _ _)
  | ok result =>
    obtain ⟨id, memory⟩ := result
    obtain ⟨c, hc, hdevice⟩ := Channel.allocate_of_ok hmemory
    rw [hc] at hcall
    have hbuffer : tryCatch (onDevice b.index (Channel.allocate size)) (fun e => throw (nameObject h e)) s =
        (.ok id, s.setChannel b.place c) := Action.tryCatch_of_ok hcall
    refine .of_eq (by rw [Action.bind_of_ok hbuffer]; rfl) ⟨hi.attach hx hdevice hmemory, rfl, ?_⟩
    rw [Hosted.device_setChannel (by exact hi.attached), hdevice]
    exact (Memory.allocate_ok hi.sound hmemory).2.2.1

-- The new buffer holds zeros, whatever the object had before.
theorem provided_of_attached {u t : Hosted Context} {st : ObjectState} {h : Handle} {id : BufferId}
    (hm : Modified b h (st.attach id size) u t) (hregistry : t.platform.registry = s.platform.registry)
    (hzeros : (t.device b.place).memory.contents? id = some (Bytes.zeros size))
    (hothers : ∀ other ≠ h, u.part.state? other = s.part.state? other)
    (hcopies : ∀ other ≠ h, (u.world b.place).copies other = (s.world b.place).copies other)
    (hdiffers : ∀ c, (s.world b.place).copies h = some c → c.bytes.length ≠ size) :
    Provided b h size id s t where
  intact := hm.intact
  buffer := by rw [buffer?, hm.own]; rfl
  others := fun other hne => (hm.others other hne).trans (hothers other hne)
  world := by
    rw [World.ensure_of_differs hdiffers]
    refine World.ext (by rw [World.host_put]; exact congrArg Registry.bytes hregistry) (funext fun other => ?_)
    rw [hm.copies, ObjectState.copy?_of_some rfl hzeros]
    by_cases hne : other = h
    case pos => rw [hne, Function.update_self, World.copies_put_self]; rfl
    case neg => rw [Function.update_of_ne hne, World.copies_put_of_ne hne, hcopies other hne]

theorem replaceBuffer_serves (hi : Intact b s) (hx : s.part.bindings[index]? = some x)
    (hdiffers : ∀ c, (s.world b.place).copies x.object.handle = some c → c.bytes.length ≠ size) :
    Serves (replaceBuffer b.index index size x) s (Provided b x.object.handle size · s ·) := by
  unfold replaceBuffer
  refine Action.Ends.bind_get ?_
  rw [place_ok.mpr hi.devices]
  refine Action.Ends.bind_of_ok (Action.lift_apply _ s) ?_
  cases hold : x.state.buffer with
  | none =>
    refine (allocateBuffer_serves hi hx _).mono fun id t ⟨hm, hregistry, hzeros⟩ => ?_
    exact provided_of_attached hm hregistry hzeros (fun _ _ => rfl) (fun _ _ => rfl) hdiffers
  | some old =>
    refine Action.Ends.bind_modify (Action.Ends.bind_of_ok
      (onDevice_eq (s := { s with part := s.part.modifyState index ObjectState.detach }) hi.devices _) ?_)
    have hr := hi.release hx hold (c := (Channel.release old (s.platform.channel b.place)).2) rfl
    have hx' : (s.part.modifyState index ObjectState.detach).bindings[index]? =
        some { x with state := x.state.detach } := by simp [modifyState, hx]
    refine (allocateBuffer_serves hr.intact hx' _).mono fun id t hserved => ?_
    obtain ⟨hm, hregistry, hzeros⟩ := hserved
    refine provided_of_attached hm hregistry hzeros hr.others (fun other hne => ?_) hdiffers
    rw [hr.copies, Function.update_of_ne hne]

theorem ensureBuffer_serves (hi : Intact b s) (hx : s.part.bindings[index]? = some x) (size : Nat) :
    Serves (ensureBuffer b.index index size) s (Provided b x.object.handle size · s ·) := by
  have hst := hi.distinct.state?_eq hx
  refine ensureBuffer_ends_of_bound (binding_ok.mpr hx) (fun id hid hsame _ => ?fits) fun h => ?differs
  case differs =>
    refine replaceBuffer_serves hi hx fun c hc => ?_
    cases hid : x.state.buffer with
    | none =>
      have hnone := Intact.copies_of_none (b := b) (s := s) (h := x.object.handle) (by simp [buffer?, hst, hid])
      rw [hnone] at hc
      cases hc
    | some id =>
      obtain ⟨bytes, _, hlength, hcopy⟩ := hi.exists_copy hst hid
      cases hcopy.symm.trans hc
      rw [hlength]
      exact h (by simp [hid])
  case fits =>
    obtain ⟨bytes, _, hlength, hcopy⟩ := hi.exists_copy hst hid
    refine ⟨id, rfl, hi, by rw [buffer?, hst]; exact hid, fun _ _ => rfl, ?_⟩
    rw [World.ensure_of_fits hcopy]
    exact hlength.trans hsame

end Context
end Offload
