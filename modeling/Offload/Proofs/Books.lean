import Offload.Proofs.Excuses
import Offload.Proofs.Intact

/-!
The books of a context among others: on every device, the buffers there are those that the context has on
record, and those of the others. What leaves buffers and records alone keeps the books.
-/

namespace Offload

-- A state without a buffer says nothing, and what is valid was written.
structure ObjectState.Tidy (st : ObjectState) : Prop where
  blank : st.buffer = none → st.size = 0 ∧ st.hostOffset = 0 ∧ st.valid = false
  agree : st.valid = st.written

theorem ObjectState.tidy_default : ({} : ObjectState).Tidy :=
  ⟨fun _ => ⟨rfl, rfl, rfl⟩, rfl⟩

theorem ObjectState.tidy_detach (st : ObjectState) : st.detach.Tidy :=
  ⟨fun _ => ⟨rfl, rfl, rfl⟩, rfl⟩

theorem ObjectState.tidy_attach (st : ObjectState) (id : BufferId) (size : Nat) :
    (st.attach id size).Tidy :=
  ⟨nofun, rfl⟩

theorem ObjectState.tidy_markWritten {st : ObjectState} (h : st.buffer.isSome) (offset : Nat) :
    (st.markWritten offset).Tidy where
  blank hnone := by
    have hbuffer : st.buffer = none := hnone
    simp [hbuffer] at h
  agree := rfl

theorem ObjectState.Tidy.isValid_eq {st : ObjectState} (h : st.Tidy) : st.isValid = st.written := by
  cases hbuffer : st.buffer with
  | none => simp [isValid, hbuffer, ← h.agree, (h.blank hbuffer).2.2]
  | some id => simp [isValid, hbuffer, h.agree]

-- What is true of all channels is true wherever one is looked for, if it is true of none.
theorem Platform.forall_channel {Q : Channel → Prop} (hblank : Q blank) {p : Platform}
    (hall : ∀ channel ∈ p.channels, Q channel) (place : Nat) : Q (p.channel place) := by
  rw [channel, List.getD_eq_getElem?_getD]
  cases h : p.channels[place]? with
  | none => exact hblank
  | some channel => exact hall channel (List.mem_of_getElem? h)

-- The buffer of an object, with the size on record for it.
def Binding.key? (b : Binding) : Option (BufferId × Nat) :=
  b.state.buffer.map (·, b.state.size)

namespace Context

variable {c : Context} {index place : Nat} {b : Binding}

def held (c : Context) : List (BufferId × Nat) :=
  c.bindings.filterMap Binding.key?

def activePlace? (c : Context) : Option Nat :=
  c.active.bind (c.devices[·]?)

-- All buffers of a context are on its active device.
def heldAt (c : Context) (place : Nat) : List (BufferId × Nat) :=
  if c.activePlace? = some place then c.held else []

def Filled (c : Context) (index : Nat) : Prop :=
  ∃ b, c.bindings[index]? = some b ∧ b.state.buffer.isSome

theorem heldAt_of_held (h : c.held = []) (place : Nat) : c.heldAt place = [] := by
  simp [heldAt, h]

theorem activePlace?_eq {device : Nat} (hactive : c.active = some device)
    (hplace : c.devices[device]? = some place) : c.activePlace? = some place := by
  rw [activePlace?, hactive, Option.bind_some, hplace]

theorem mem_held (hb : b ∈ c.bindings) {id : BufferId} (hid : b.state.buffer = some id) :
    (id, b.state.size) ∈ c.held :=
  List.mem_filterMap.mpr ⟨b, hb, by rw [Binding.key?, hid, Option.map_some]⟩

-- What changes of the buffers that are held when the state of one object changes.
theorem held_modifyState (hb : c.bindings[index]? = some b) (f : ObjectState → ObjectState) :
    ∃ others, c.held.Perm (b.key?.toList ++ others) ∧
      (c.modifyState index f).held.Perm ({ b with state := f b.state }.key?.toList ++ others) := by
  obtain ⟨hlt, hget⟩ := List.getElem?_eq_some_iff.mp hb
  obtain ⟨pre, b', post, hbindings, hlength, hmodify⟩ :=
    List.exists_of_modify (fun b => { b with state := f b.state }) hlt
  have hsame : b' = b := by
    rw [← hget]
    simp [hbindings, ← hlength]
  subst hsame
  have hmiddle (x : Binding) : ((pre ++ x :: post).filterMap Binding.key?).Perm
      (x.key?.toList ++ (pre.filterMap Binding.key? ++ post.filterMap Binding.key?)) := by
    have hx : [x].filterMap Binding.key? = x.key?.toList := by
      cases h : x.key? <;> simp [h]
    rw [List.append_cons, List.filterMap_append, List.filterMap_append, hx, ← List.append_assoc]
    exact (List.perm_append_comm).append_right _
  refine ⟨pre.filterMap Binding.key? ++ post.filterMap Binding.key?, ?_, ?_⟩
  case refine_1 => rw [held, hbindings]; exact hmiddle b'
  case refine_2 => rw [held, modifyState, hmodify]; exact hmiddle _

theorem mem_modifyState (hb : c.bindings[index]? = some b) {f : ObjectState → ObjectState} {x : Binding}
    (hx : x ∈ (c.modifyState index f).bindings) :
    x ∈ c.bindings ∨ x = { b with state := f b.state } := by
  obtain ⟨other, hother⟩ := List.getElem?_of_mem hx
  rw [modifyState, List.getElem?_modify] at hother
  split at hother
  case isTrue heq =>
    subst heq
    rw [hb] at hother
    exact .inr (Option.some.inj hother).symm
  case isFalse =>
    rw [Option.map_eq_map, Option.map_id'] at hother
    exact .inl (List.mem_of_getElem? hother)

theorem Filled.modifyState {other : Nat} (h : c.Filled other) {f : ObjectState → ObjectState}
    (hb : c.bindings[index]? = some b) (hf : (f b.state).buffer.isSome) :
    (c.modifyState index f).Filled other := by
  obtain ⟨x, hx, hsome⟩ := h
  by_cases heq : index = other
  case pos =>
    subst heq
    exact ⟨_, getElem?_modify_of_some hb _, hf⟩
  case neg => exact ⟨x, by simp [Context.modifyState, heq, hx], hsome⟩

-- On every device there are the buffers of this context, and `rest`.
structure Books (rest : Nat → List (BufferId × Nat)) (s : Hosted Context) : Prop where
  attached : ∀ place ∈ s.part.devices, place < s.platform.channels.length
  orderly  : ∀ place, (s.device place).memory.Orderly
  balanced : ∀ place, (s.device place).memory.live.Perm (s.part.heldAt place ++ rest place)
  housed   : s.part.activePlace? = none → s.part.held = []
  tidy     : ∀ b ∈ s.part.bindings, b.state.Tidy

theorem held_of_none (h : ∀ b ∈ c.bindings, b.state.buffer = none) : c.held = [] := by
  rw [held, List.filterMap_eq_nil_iff]
  intro b hb
  rw [Binding.key?, h b hb, Option.map_none]

-- A platform without buffers, and a context that was not used yet.
theorem books_of_empty {s : Hosted Context}
    (hattached : ∀ place ∈ s.part.devices, place < s.platform.channels.length)
    (hempty : ∀ channel ∈ s.platform.channels,
      channel.device.memory.buffers = [] ∧ channel.device.memory.allocated = 0)
    (hblank : ∀ b ∈ s.part.bindings, b.state.buffer = none ∧ b.state.Tidy) : Books (fun _ => []) s := by
  have hmemory := Platform.forall_channel
    (Q := fun c => c.device.memory.buffers = [] ∧ c.device.memory.allocated = 0) ⟨rfl, rfl⟩ hempty
  have hheld := held_of_none fun b hb => (hblank b hb).1
  refine ⟨hattached, fun place => Memory.orderly_of_nil (hmemory place).1 (hmemory place).2, fun place => ?_,
    fun _ => hheld, fun b hb => (hblank b hb).2⟩
  have hlive : (s.device place).memory.live = [] := List.map_eq_nil_iff.mpr (hmemory place).1
  rw [heldAt_of_held hheld, hlive]
  exact List.Perm.nil

-- No transfer failed without an excuse, and none of those to come will read beyond its object.
structure Trusted (s : Hosted Context) : Prop where
  honest : ∀ place, (s.platform.channel place).Honest
  inside : ∀ b ∈ s.part.bindings,
    b.state.hostOffset ≤ s.platform.registry.byteLength b.object.handle

-- What stays as it is while programs run: the tables, the sizes of the objects, and what is known of
-- events.
structure Stable (s t : Hosted Context) : Prop where
  onward   : ∀ place, (s.device place).Onward (t.device place)
  channels : t.platform.channels.length = s.platform.channels.length
  lengths  : ∀ h, t.platform.registry.byteLength h = s.platform.registry.byteLength h
  objects  : t.part.objects = s.part.objects
  tasks    : t.part.tasks = s.part.tasks
  devices  : t.part.devices = s.part.devices

theorem stable_lasting : Action.Lasting Stable where
  refl _ := ⟨fun _ => Device.onward_lasting.refl _, rfl, fun _ => rfl, rfl, rfl, rfl⟩
  trans h h' := ⟨fun place => Device.onward_lasting.trans (h.onward place) (h'.onward place),
    h'.channels.trans h.channels, fun k => (h'.lengths k).trans (h.lengths k),
    h'.objects.trans h.objects, h'.tasks.trans h.tasks, h'.devices.trans h.devices⟩

-- The books are kept, and with `P` the trust.
structure Sustains (P : Prop) (rest : Nat → List (BufferId × Nat)) (s t : Hosted Context) : Prop where
  books  : Books rest t
  stable : Stable s t
  trust  : P → Trusted s → Trusted t

-- The same device is still the active one.
structure Upholds (P : Prop) (rest : Nat → List (BufferId × Nat)) (s t : Hosted Context) : Prop
    extends Sustains P rest s t where
  active : t.part.active = s.part.active

variable {P : Prop} {rest : Nat → List (BufferId × Nat)} {s t u : Hosted Context} {α : Type}

theorem Books.sustains (h : Books rest s) : Sustains P rest s s :=
  ⟨h, stable_lasting.refl s, fun _ h => h⟩

theorem Books.upholds (h : Books rest s) : Upholds P rest s s :=
  ⟨h.sustains, rfl⟩

theorem Sustains.trans (h : Sustains P rest s t) (h' : Sustains P rest t u) : Sustains P rest s u :=
  ⟨h'.books, stable_lasting.trans h.stable h'.stable, fun hP => h'.trust hP ∘ h.trust hP⟩

theorem Upholds.trans (h : Upholds P rest s t) (h' : Upholds P rest t u) : Upholds P rest s u :=
  ⟨h.toSustains.trans h'.toSustains, h'.active.trans h.active⟩

-- A context that has a buffer is on a device.
theorem Books.exists_place (h : Books rest s) (hb : b ∈ s.part.bindings) {id : BufferId}
    (hid : b.state.buffer = some id) : ∃ place, s.part.activePlace? = some place :=
  Option.ne_none_iff_exists'.mp fun hnone => by
    have hmem := mem_held hb hid
    rw [h.housed hnone] at hmem
    cases hmem

theorem Books.mem_live (h : Books rest s) (hplace : s.part.activePlace? = some place)
    (hb : b ∈ s.part.bindings) {id : BufferId} (hid : b.state.buffer = some id) :
    (id, b.state.size) ∈ (s.device place).memory.live := by
  refine (h.balanced place).mem_iff.mpr (List.mem_append_left _ ?_)
  rw [heldAt, if_pos hplace]
  exact mem_held hb hid

theorem Stable.place_ok (h : Stable s t) {device : Nat} (hplace : s.part.place device = .ok place) :
    t.part.place device = .ok place := by
  rw [Context.place_ok, h.devices]
  exact Context.place_ok.mp hplace

theorem Stable.binding? (h : Stable s t) (hb : s.part.bindings[index]? = some b) :
    ∃ b', t.part.bindings[index]? = some b' ∧ b'.object = b.object := by
  rw [← getElem?_objects_iff, h.objects]
  exact getElem?_objects hb

-- Neither a buffer nor a record was touched, and with `P` every new transfer has an excuse.
structure Still (P : Prop) (s t : Hosted Context) : Prop extends Stable s t where
  active   : t.part.active = s.part.active
  bindings : t.part.bindings = s.part.bindings
  alike    : ∀ place, Memory.Alike (s.device place).memory (t.device place).memory
  honest   : P → ∀ place, (s.platform.channel place).Honest → (t.platform.channel place).Honest

theorem still_lasting : Action.Lasting (Still P) where
  refl s := ⟨stable_lasting.refl s, rfl, rfl, fun _ => .refl _, fun _ _ h => h⟩
  trans h h' := ⟨stable_lasting.trans h.toStable h'.toStable, h'.active.trans h.active,
    h'.bindings.trans h.bindings, fun place => (h.alike place).trans (h'.alike place),
    fun hP place => h'.honest hP place ∘ h.honest hP place⟩

theorem Still.of_channels (hchannels : t.platform.channels = s.platform.channels)
    (hlengths : ∀ h, t.platform.registry.byteLength h = s.platform.registry.byteLength h)
    (hbindings : t.part.bindings = s.part.bindings) (hactive : t.part.active = s.part.active)
    (htasks : t.part.tasks = s.part.tasks) (hdevices : t.part.devices = s.part.devices) :
    Still P s t := by
  have hchannel (place : Nat) : t.platform.channel place = s.platform.channel place := by
    rw [Platform.channel, hchannels]
    rfl
  refine ⟨⟨fun place => ?_, ?_, hlengths, ?_, htasks, hdevices⟩, hactive, hbindings, fun place => ?_,
    fun _ place => ?_⟩
  case refine_1 => rw [Hosted.device, Hosted.device, hchannel]; exact Device.onward_lasting.refl _
  case refine_2 => rw [hchannels]
  case refine_3 => rw [objects, hbindings]; rfl
  case refine_4 => rw [Hosted.device, Hosted.device, hchannel]; exact .refl _
  case refine_5 => rw [hchannel]; exact id

theorem Still.upholds (h : Still P s t) (hbooks : Books rest s) : Upholds P rest s t := by
  have hplace : t.part.activePlace? = s.part.activePlace? := by
    rw [activePlace?, h.active, h.devices]
    rfl
  have hheld : t.part.held = s.part.held := by
    rw [held, h.bindings]
    rfl
  refine ⟨⟨⟨?_, ?_, ?_, ?_, ?_⟩, h.toStable, fun hP htrust => ⟨?_, ?_⟩⟩, h.active⟩
  case refine_1 => exact h.devices ▸ h.channels ▸ hbooks.attached
  case refine_2 => exact fun place => (h.alike place).orderly (hbooks.orderly place)
  case refine_3 =>
    intro place
    rw [(h.alike place).live, heldAt, hplace, hheld]
    exact hbooks.balanced place
  case refine_4 => rw [hplace, hheld]; exact hbooks.housed
  case refine_5 => rw [h.bindings]; exact hbooks.tidy
  case refine_6 => exact fun place => h.honest hP place (htrust.honest place)
  case refine_7 =>
    rw [h.bindings]
    exact fun b hb => Nat.le_trans (htrust.inside b hb) (Nat.le_of_eq (h.lengths _).symm)

end Context

-- A call on one channel leaves the others as they are.
theorem Platform.rel_onChannel {α : Type} {R : Channel → Channel → Prop} (hR : ∀ c, R c c)
    (act : Action Channel α) (p : Platform) (place : Nat)
    (h : R (p.channel place) (act (p.channel place)).2) (other : Nat) :
    R (p.channel other) ((onChannel place act p).2.channel other) := by
  rw [onChannel_apply]
  by_cases heq : place = other
  case neg =>
    rw [channel_setChannel_ne heq]
    exact hR _
  case pos =>
    subst heq
    by_cases hlt : place < p.channels.length
    case pos => rwa [channel_setChannel hlt]
    case neg =>
      rw [setChannel, List.set_eq_of_length_le (Nat.le_of_not_lt hlt)]
      exact hR _

namespace Context

variable {P : Prop} {rest : Nat → List (BufferId × Nat)} {s t u : Hosted Context} {α : Type}
  {index place other : Nat} {b : Binding}

theorem still_channel (act : Action Channel α)
    (hdevice : Device.Still (s.device other) (act (s.platform.channel other)).2.device)
    (hhonest : P → (s.platform.channel other).Honest → (act (s.platform.channel other)).2.Honest) :
    Still P s { s with platform := (Platform.onChannel other act s.platform).2 } := by
  have hstill := Platform.rel_onChannel (R := fun p p' => Device.Still p.device p'.device)
    (fun _ => Device.still_lasting.refl _) act s.platform other hdevice
  refine ⟨⟨fun place => (hstill place).onward, ?_, fun _ => rfl, rfl, rfl, rfl⟩, rfl, rfl,
    fun place => (hstill place).alike, fun hP => ?_⟩
  case refine_1 => exact Platform.length_setChannel _ _
  case refine_2 =>
    exact Platform.rel_onChannel (R := fun p p' => p.Honest → p'.Honest) (fun _ h => h) act s.platform
      other (hhonest hP)

theorem still_onPlatform {act : Action Channel α} (h : act.Keeps Channel.Still) (place : Nat) :
    (Hosted.onPlatform (Platform.onChannel place act) : On α).Keeps (Still P) :=
  fun _ => still_channel act ⟨(h _).aside.onward, (h _).alike⟩ fun _ => (h _).aside.honest

theorem still_onDevice {act : Action Channel α} (h : act.Keeps Channel.Still) (device : Nat) :
    (onDevice device act).Keeps (Still P) :=
  have hR := still_lasting
  .bind hR (.get hR) fun _ => .bind hR (.lift hR _) fun _ => still_onPlatform h _

theorem still_kernel (device task : Nat) : (kernel device task).Keeps (Still P) :=
  kernel_keeps still_lasting (fun _ => still_onDevice (Channel.still_lookup _) device)
    fun _ => .modify fun _ => .of_channels rfl (fun _ => rfl) rfl rfl rfl rfl

theorem still_count (m : Machine) (f : Counters → Counters) : (m.count f).Keeps (Still P) := by
  have hR := still_lasting (P := P)
  unfold Machine.count
  split
  case isTrue => exact .modify fun _ => .of_channels rfl (fun _ => rfl) rfl rfl rfl rfl
  case isFalse => exact .pure hR _

theorem still_setOwner (h : Handle) (device : Nat) : (modify fun s =>
    { s with platform := { s.platform with registry := s.platform.registry.setOwner h device true } } :
      On PUnit).Keeps (Still P) :=
  .modify fun s => .of_channels rfl
    (fun k => congrArg List.length (s.platform.registry.bytes_setOwner h k device true)) rfl rfl rfl rfl

end Context
end Offload
