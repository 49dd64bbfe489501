import Offload.Proofs.Books
import Offload.Proofs.Provide

/-!
How the books are kept when buffers come and go: an allocation enters one, a release takes one out, and
whoever gives everything back is left with none.
-/

namespace Offload

namespace Platform

variable {α : Type} {p p' p'' : Platform} {place : Nat}

-- Of the memories only the one at `place` changed.
structure Local (place : Nat) (p p' : Platform) : Prop where
  aside    : ∀ other, Channel.Aside (p.channel other) (p'.channel other)
  channels : p'.channels.length = p.channels.length
  lengths  : ∀ h, p'.registry.byteLength h = p.registry.byteLength h
  others   : ∀ other ≠ place, (p'.channel other).device.memory = (p.channel other).device.memory

theorem local_lasting (place : Nat) : Action.Lasting (Local place) where
  refl _ := ⟨fun _ => Channel.aside_lasting.refl _, rfl, fun _ => rfl, fun _ _ => rfl⟩
  trans h h' := ⟨fun other => Channel.aside_lasting.trans (h.aside other) (h'.aside other),
    h'.channels.trans h.channels, fun k => (h'.lengths k).trans (h.lengths k),
    fun other hne => (h'.others other hne).trans (h.others other hne)⟩

theorem local_onChannel {act : Action Channel α} (h : act.Keeps Channel.Aside) (place : Nat)
    (p : Platform) : Local place p (onChannel place act p).2 where
  aside := rel_onChannel (fun _ => Channel.aside_lasting.refl _) act p place (h _)
  channels := length_setChannel _ _
  lengths _ := rfl
  others other hne := by rw [onChannel_apply, channel_setChannel_ne (Ne.symm hne)]

end Platform

namespace Context

variable {P : Prop} {rest : Nat → List (BufferId × Nat)} {s t u : Hosted Context} {α : Type}
  {c : Context} {index place device size : Nat} {b : Binding}

theorem Books.place_lt (h : Books rest s) (hplace : s.part.activePlace? = some place) :
    place < s.platform.channels.length := by
  obtain ⟨device, _, hdevice⟩ := Option.bind_eq_some_iff.mp hplace
  exact h.attached place (List.mem_of_getElem? hdevice)

-- One state changed, and the memory of the active device with it.
theorem Books.modify (h : Books rest s) (hb : s.part.bindings[index]? = some b)
    {f : ObjectState → ObjectState} (hpart : t.part = s.part.modifyState index f)
    (htidy : (f b.state).Tidy) (hplace : s.part.activePlace? = some place)
    (hlocal : Platform.Local place s.platform t.platform)
    (horderly : (t.device place).memory.Orderly)
    (hlive : ∀ others, (s.device place).memory.live.Perm (b.key?.toList ++ others) →
      (t.device place).memory.live.Perm ({ b with state := f b.state }.key?.toList ++ others))
    (hinside : P → (f b.state).hostOffset ≤ s.platform.registry.byteLength b.object.handle) :
    Upholds P rest s t := by
  have hactive : t.part.activePlace? = some place := by rw [hpart]; exact hplace
  have hmem {x : Binding} (hx : x ∈ t.part.bindings) :
      x ∈ s.part.bindings ∨ x = { b with state := f b.state } := mem_modifyState hb (hpart ▸ hx)
  refine ⟨⟨⟨?_, ?_, ?_, ?_, ?_⟩, ⟨?_, hlocal.channels, hlocal.lengths, ?_, ?_, ?_⟩, ?_⟩, ?_⟩
  case refine_1 => rw [hpart, hlocal.channels]; exact h.attached
  case refine_2 =>
    intro other
    by_cases heq : other = place
    case pos => exact heq ▸ horderly
    case neg => exact hlocal.others other heq ▸ h.orderly other
  case refine_3 =>
    intro other
    have hbalanced := h.balanced other
    by_cases heq : other = place
    case neg =>
      have hne : some place ≠ some other := fun hsame => heq (Option.some.inj hsame).symm
      rw [heldAt, hplace, if_neg hne] at hbalanced
      rw [heldAt, hactive, if_neg hne]
      exact hlocal.others other heq ▸ hbalanced
    case pos =>
      subst heq
      obtain ⟨others, hheld, hheld'⟩ := held_modifyState hb f
      rw [heldAt, if_pos hplace] at hbalanced
      have hperm := hlive (others ++ rest other) (by
        rw [← List.append_assoc]
        exact hbalanced.trans (hheld.append_right _))
      rw [← List.append_assoc] at hperm
      rw [heldAt, if_pos hactive, hpart]
      exact hperm.trans (hheld'.symm.append_right _)
  case refine_4 =>
    intro hnone
    cases hactive.symm.trans hnone
  case refine_5 =>
    intro x hx
    rcases hmem hx with hold | rfl
    case inl => exact h.tidy x hold
    case inr => exact htidy
  case refine_6 => exact fun other => (hlocal.aside other).onward
  case refine_7 => rw [hpart]; exact objects_modifyState _ _ _
  case refine_8 | refine_9 | refine_11 => rw [hpart]; rfl
  case refine_10 =>
    intro hP htrust
    refine ⟨fun other => (hlocal.aside other).honest (htrust.honest other), fun x hx => ?_⟩
    rw [hlocal.lengths]
    rcases hmem hx with hold | rfl
    case inl => exact htrust.inside x hold
    case inr => exact hinside hP

-- An object got a buffer of its own, and none lost its.
structure Furnished (index size : Nat) (id : BufferId) (s t : Hosted Context) : Prop where
  own    : ∃ b, t.part.bindings[index]? = some b ∧ b.state.buffer = some id ∧ b.state.size = size
  others : ∀ other, s.part.Filled other → t.part.Filled other

theorem Filled.of_furnished {id : BufferId} (h : Furnished index size id s t) : t.part.Filled index := by
  obtain ⟨b, hb, hid, _⟩ := h.own
  exact ⟨b, hb, by rw [hid]; rfl⟩

theorem Stable.of_local (h : Platform.Local place s.platform t.platform) (hpart : t.part = s.part) :
    Stable s t where
  onward other := (h.aside other).onward
  channels := h.channels
  lengths := h.lengths
  objects := by rw [hpart]
  tasks := by rw [hpart]
  devices := by rw [hpart]

theorem allocateBuffer_of_error (hplace : s.part.devices[device]? = some place) {cause : Shortage}
    (hmemory : (s.device place).memory.allocate size = .error cause) (k : Handle) :
    ∃ e, allocateBuffer device index size k s = (.error e,
      { s with platform := (Platform.onChannel place (Channel.allocate size) s.platform).2 }) := by
  obtain ⟨c, hc, _⟩ := Channel.allocate_of_error hmemory
  have hcall := onDevice_eq hplace (Channel.allocate size)
  rw [hc] at hcall
  refine ⟨nameObject k (.resource (s.device place).index cause), ?_⟩
  have hthrow : tryCatch (onDevice device (Channel.allocate size)) (fun e => throw (nameObject k e)) s =
      (.error (nameObject k (.resource (s.device place).index cause)), s.setChannel place c) := by
    rw [Action.tryCatch_of_error hcall]
    rfl
  unfold allocateBuffer
  rw [Action.bind_of_error hthrow, Platform.onChannel_apply, hc]
  rfl

theorem allocateBuffer_of_ok (hplace : s.part.devices[device]? = some place) {id : BufferId}
    {memory : Memory} (hmemory : (s.device place).memory.allocate size = .ok (id, memory)) (k : Handle) :
    allocateBuffer device index size k s = (.ok id,
      { platform := (Platform.onChannel place (Channel.allocate size) s.platform).2,
        part := s.part.modifyState index (·.attach id size) }) := by
  obtain ⟨c, hc, _⟩ := Channel.allocate_of_ok hmemory
  have hcall := onDevice_eq hplace (Channel.allocate size)
  rw [hc] at hcall
  unfold allocateBuffer
  rw [Action.bind_of_ok (Action.tryCatch_of_ok hcall), Platform.onChannel_apply, hc]
  rfl

theorem allocateBuffer_upholds (h : Books rest s) (hactive : s.part.active = some device)
    (hplace : s.part.devices[device]? = some place) (hb : s.part.bindings[index]? = some b)
    (hnone : b.state.buffer = none) (k : Handle) :
    (allocateBuffer device index size k).Ends s fun r t =>
      Upholds P rest s t ∧ ∀ id, r = .ok id → Furnished index size id s t := by
  have hlt := h.place_lt (activePlace?_eq hactive hplace)
  have hlocal := Platform.local_onChannel (Channel.aside_allocate size) place s.platform
  cases hmemory : (s.device place).memory.allocate size with
  | error cause =>
    obtain ⟨e, hcall⟩ := allocateBuffer_of_error hplace hmemory k
    obtain ⟨c, hc, hdevice⟩ := Channel.allocate_of_error hmemory
    rw [Action.Ends, hcall]
    have hstill := Platform.rel_onChannel (R := fun p p' => Memory.Alike p.device.memory p'.device.memory)
      (fun _ => .refl _) (Channel.allocate size) s.platform place (by rw [hc, hdevice]; exact .refl _)
    exact ⟨Still.upholds ⟨.of_local hlocal rfl, rfl, rfl, hstill,
      fun _ other => (hlocal.aside other).honest⟩ h, fun _ herror => by cases herror⟩
  | ok result =>
    obtain ⟨id, memory⟩ := result
    obtain ⟨c, hc, hdevice⟩ := Channel.allocate_of_ok hmemory
    rw [Action.Ends, allocateBuffer_of_ok hplace hmemory, Platform.onChannel_apply, hc]
    have hnew : ((s.setChannel place c).device place).memory = memory := by
      rw [Hosted.device_setChannel hlt, hdevice]
    obtain ⟨hlive, horderly⟩ := Memory.allocate_live (h.orderly place) hmemory
    rw [Platform.onChannel_apply, hc] at hlocal
    refine ⟨h.modify (f := (·.attach id size)) hb rfl (ObjectState.tidy_attach _ _ _)
      (activePlace?_eq hactive hplace) hlocal (hnew ▸ horderly) (fun others hothers => ?_)
      (fun _ => Nat.zero_le _), fun id' hid => ?_⟩
    case refine_1 =>
      have hkey : b.key? = none := by rw [Binding.key?, hnone]; rfl
      rw [hkey] at hothers
      change ((s.setChannel place c).device place).memory.live.Perm _
      rw [hnew, hlive]
      exact (hothers.append_right _).trans List.perm_append_comm
    case refine_2 =>
      cases hid
      refine ⟨⟨_, getElem?_modify_of_some hb _, rfl, rfl⟩, fun other hfilled => ?_⟩
      exact hfilled.modifyState hb rfl

-- A buffer was given back, and the object has none.
theorem release_upholds (h : Books rest s) (hplace : s.part.activePlace? = some place)
    (hb : s.part.bindings[index]? = some b) {old : BufferId} (hold : b.state.buffer = some old) :
    Upholds P rest s
      { platform := (Platform.onChannel place (Channel.release old) s.platform).2,
        part := s.part.modifyState index ObjectState.detach } := by
  have hlt := h.place_lt hplace
  have hlocal := Platform.local_onChannel (Channel.aside_release old) place s.platform
  have hkey : b.key? = some (old, b.state.size) := by rw [Binding.key?, hold]; rfl
  have hmemory : ((Platform.onChannel place (Channel.release old) s.platform).2.channel place).device.memory =
      (s.device place).memory.release old := by
    rw [Platform.onChannel_apply, Platform.channel_setChannel hlt]
    rfl
  have hrelease {others : List (BufferId × Nat)}
      (hothers : (s.device place).memory.live.Perm (b.key?.toList ++ others)) :=
    Memory.release_live (h.orderly place) (by rw [hkey] at hothers; exact hothers)
  refine h.modify hb rfl b.state.tidy_detach hplace hlocal ?_ (fun others hothers => ?_)
    fun _ => Nat.zero_le _
  case refine_1 =>
    obtain ⟨others, hheld, _⟩ := held_modifyState hb ObjectState.detach
    have hbalanced := h.balanced place
    rw [heldAt, if_pos hplace] at hbalanced
    have hothers := hbalanced.trans (hheld.append_right _)
    rw [List.append_assoc] at hothers
    exact hmemory ▸ (hrelease hothers).2
  case refine_2 => exact hmemory ▸ (hrelease hothers).1

theorem replaceBuffer_upholds (h : Books rest s) (hactive : s.part.active = some device)
    (hb : s.part.bindings[index]? = some b) :
    (replaceBuffer device index size b).Ends s fun r t =>
      Upholds P rest s t ∧ ∀ id, r = .ok id → Furnished index size id s t := by
  unfold replaceBuffer
  refine Action.Ends.bind_get (Action.Ends.bind_lift (fun place hplace => ?_) fun _ _ =>
    ⟨h.upholds, nofun⟩)
  rw [Context.place_ok] at hplace
  cases hold : b.state.buffer with
  | none => exact allocateBuffer_upholds h hactive hplace hb hold _
  | some old =>
    refine Action.Ends.bind_modify (Action.Ends.bind_of_ok
      (onDevice_eq (s := { s with part := s.part.modifyState index ObjectState.detach }) hplace _) ?_)
    have hr := release_upholds (P := P) h (activePlace?_eq hactive hplace) hb hold
    have hb' := getElem?_modify_of_some hb fun b => { b with state := b.state.detach }
    refine (allocateBuffer_upholds (P := P) hr.books (hr.active.trans hactive) hplace hb' rfl _).mono
      fun r t ⟨hu, hfurnished⟩ => ⟨hr.trans hu, fun id hid => ?_⟩
    -- the object lost its old buffer, and got the new one
    have hnew := hfurnished id hid
    refine ⟨hnew.own, fun other hfilled => ?_⟩
    by_cases heq : index = other
    case pos => exact heq ▸ Filled.of_furnished hnew
    case neg =>
      obtain ⟨x, hx, hsome⟩ := hfilled
      exact hnew.others other ⟨x, by simp [modifyState, heq, hx], hsome⟩

theorem ensureBuffer_upholds (h : Books rest s) (hactive : s.part.active = some device)
    (index size : Nat) :
    (ensureBuffer device index size).Ends s fun r t =>
      Upholds P rest s t ∧ ∀ id, r = .ok id → Furnished index size id s t := by
  refine ensureBuffer_ends (fun _ _ => ⟨h.upholds, nofun⟩) (fun b id hb hid hsame => ?_) fun b hb _ =>
    replaceBuffer_upholds h hactive (binding_ok.mp hb)
  refine ⟨h.upholds, fun id' hid' => ?_⟩
  cases hid'
  exact ⟨⟨b, binding_ok.mp hb, hid, hsame⟩, fun _ hfilled => hfilled⟩

section

variable {p : Platform} {bs : List Binding} {others : List (BufferId × Nat)}

-- What giving a buffer up does besides changing who owns the object.
theorem giveUp_eq (c : Context) (p : Platform) (b : Binding) :
    ∃ registry : Registry, (∀ h, registry.byteLength h = p.registry.byteLength h) ∧
      c.giveUp p b = { (match c.activePlace?, b.state.buffer with
        | some place, some id => (Platform.onChannel place (Channel.release id) p).2
        | _, _ => p) with registry } := by
  unfold giveUp activePlace?
  cases hactive : c.active with
  | none => exact ⟨p.registry, fun _ => rfl, rfl⟩
  | some active =>
    have hclear (p' : Platform) (hregistry : p'.registry = p.registry) :
        ∃ registry : Registry, (∀ h, registry.byteLength h = p.registry.byteLength h) ∧
          (if (p'.registry.record? b.object.handle).bind Ownership.owner = some active then
            { p' with registry := p'.registry.clearOwner b.object.handle }
          else p') = { p' with registry } := by
      split
      case isTrue =>
        exact ⟨_, fun h => by rw [← hregistry]; exact congrArg List.length (Registry.bytes_clearOwner ..),
          rfl⟩
      case isFalse => exact ⟨p'.registry, fun _ => by rw [hregistry], rfl⟩
    exact hclear _ (by split <;> rfl)

theorem giveUp_local (hplace : c.activePlace? = some place) (p : Platform) (b : Binding) :
    Platform.Local place p (c.giveUp p b) := by
  obtain ⟨registry, hlengths, heq⟩ := giveUp_eq c p b
  rw [heq, hplace]
  cases hid : b.state.buffer with
  | none =>
    exact ⟨fun _ => Channel.aside_lasting.refl _, rfl, hlengths, fun _ _ => rfl⟩
  | some id =>
    have hlocal := Platform.local_onChannel (Channel.aside_release id) place p
    exact ⟨hlocal.aside, hlocal.channels, hlengths, hlocal.others⟩

-- Who gives up all buffers on record leaves those of the others.
theorem giveUpAll_live (hplace : c.activePlace? = some place) (hlt : place < p.channels.length)
    (horderly : (p.channel place).device.memory.Orderly)
    (hlive : (p.channel place).device.memory.live.Perm (bs.filterMap Binding.key? ++ others)) :
    Platform.Local place p (bs.foldl c.giveUp p) ∧
      ((bs.foldl c.giveUp p).channel place).device.memory.Orderly ∧
        ((bs.foldl c.giveUp p).channel place).device.memory.live.Perm others := by
  induction bs generalizing p with
  | nil => exact ⟨(Platform.local_lasting place).refl p, horderly, hlive⟩
  | cons b bs ih =>
    have hlocal := giveUp_local hplace p b
    have hstep : ((c.giveUp p b).channel place).device.memory.Orderly ∧
        ((c.giveUp p b).channel place).device.memory.live.Perm
          (bs.filterMap Binding.key? ++ others) := by
      obtain ⟨registry, _, heq⟩ := giveUp_eq c p b
      rw [heq, hplace]
      cases hid : b.state.buffer with
      | none =>
        have hkey : b.key? = none := by rw [Binding.key?, hid]; rfl
        rw [List.filterMap_cons_none hkey] at hlive
        exact ⟨horderly, hlive⟩
      | some id =>
        have hkey : b.key? = some (id, b.state.size) := by rw [Binding.key?, hid]; rfl
        rw [List.filterMap_cons_some hkey] at hlive
        have hreleased := Memory.release_live horderly hlive
        have hchannel : (Platform.onChannel place (Channel.release id) p).2.channel place =
            (Channel.release id (p.channel place)).2 := Platform.channel_setChannel hlt _
        change ((Platform.onChannel place (Channel.release id) p).2.channel place).device.memory.Orderly ∧
          ((Platform.onChannel place (Channel.release id) p).2.channel place).device.memory.live.Perm _
        rw [hchannel]
        exact ⟨hreleased.2, hreleased.1⟩
    obtain ⟨hrest, horderly', hlive'⟩ := ih (hlocal.channels ▸ hlt) hstep.1 hstep.2
    exact ⟨(Platform.local_lasting place).trans hlocal hrest, horderly', hlive'⟩

theorem giveUpAll_none (hplace : c.activePlace? = none) (bs : List Binding) (p : Platform) :
    (bs.foldl c.giveUp p).channels = p.channels ∧
      ∀ h, (bs.foldl c.giveUp p).registry.byteLength h = p.registry.byteLength h := by
  induction bs generalizing p with
  | nil => exact ⟨rfl, fun _ => rfl⟩
  | cons b bs ih =>
    obtain ⟨registry, hlengths, heq⟩ := giveUp_eq c p b
    rw [hplace] at heq
    obtain ⟨hchannels, hrest⟩ := ih (c.giveUp p b)
    rw [List.foldl_cons]
    refine ⟨hchannels.trans (by rw [heq]), fun h => (hrest h).trans ?_⟩
    rw [heq]
    exact hlengths h

end

theorem held_detachAll (c : Context) : c.detachAll.held = [] := by
  simp [held, detachAll, Binding.key?, ObjectState.detach]

theorem objects_detachAll (c : Context) : c.detachAll.objects = c.objects := by
  simp [objects, detachAll]

-- Whatever a context had, it has no buffer any more, and the others have theirs.
theorem invalidate_upholds (h : Books rest s) :
    (invalidate).Ends s fun _ t => Upholds P rest s t ∧ t.part = s.part.detachAll := by
  have hheld (place : Nat) : s.part.detachAll.heldAt place = [] :=
    heldAt_of_held (held_detachAll _) place
  have hdetached : ∀ b ∈ s.part.detachAll.bindings, ∃ st : ObjectState, b.state = st.detach := by
    intro b hb
    obtain ⟨b', _, rfl⟩ := List.mem_map.mp hb
    exact ⟨_, rfl⟩
  have hend (p : Platform) (haside : ∀ other, Channel.Aside (s.platform.channel other) (p.channel other))
      (hchannels : p.channels.length = s.platform.channels.length)
      (hlengths : ∀ k, p.registry.byteLength k = s.platform.registry.byteLength k)
      (hmemory : ∀ other, (p.channel other).device.memory.Orderly ∧
        (p.channel other).device.memory.live.Perm (rest other)) :
      Upholds P rest s { platform := p, part := s.part.detachAll } := by
    refine ⟨⟨⟨?_, fun other => (hmemory other).1, fun other => ?_, fun _ => held_detachAll _, ?_⟩,
      ⟨fun other => (haside other).onward, hchannels, hlengths, objects_detachAll _, rfl, rfl⟩, ?_⟩, rfl⟩
    case refine_1 => exact fun place hmem => hchannels ▸ h.attached place hmem
    case refine_2 => rw [hheld]; exact (hmemory other).2
    case refine_3 =>
      intro b hb
      obtain ⟨st, hst⟩ := hdetached b hb
      exact hst ▸ st.tidy_detach
    case refine_4 =>
      intro _ htrust
      refine ⟨fun other => (haside other).honest (htrust.honest other), fun b hb => ?_⟩
      obtain ⟨st, hst⟩ := hdetached b hb
      rw [hst]
      exact Nat.zero_le _
  refine ⟨?_, rfl⟩
  cases hplace : s.part.activePlace? with
  | none =>
    obtain ⟨hchannels, hlengths⟩ := giveUpAll_none hplace s.part.bindings s.platform
    have hchannel (other : Nat) : (s.part.bindings.foldl s.part.giveUp s.platform).channel other =
        s.platform.channel other := by rw [Platform.channel, hchannels]; rfl
    refine hend _ (fun other => ?_) (by rw [hchannels]) hlengths fun other => ?_
    case refine_1 => rw [hchannel]; exact Channel.aside_lasting.refl _
    case refine_2 =>
      rw [hchannel]
      have hbalanced := h.balanced other
      rw [heldAt_of_held (h.housed hplace)] at hbalanced
      exact ⟨h.orderly other, hbalanced⟩
  | some place =>
    have hbalanced := h.balanced place
    rw [heldAt, if_pos hplace] at hbalanced
    obtain ⟨hlocal, horderly, hlive⟩ :=
      giveUpAll_live hplace (h.place_lt hplace) (h.orderly place) hbalanced
    refine hend _ hlocal.aside hlocal.channels hlocal.lengths fun other => ?_
    by_cases heq : other = place
    case pos => exact heq ▸ ⟨horderly, hlive⟩
    case neg =>
      have hother := h.balanced other
      rw [heldAt, if_neg fun hsame => heq (Option.some.inj (hsame.symm.trans hplace))] at hother
      rw [hlocal.others other heq]
      exact ⟨h.orderly other, hother⟩

-- A context without buffers may turn to any device, and one with buffers to its own.
theorem turn_sustains (h : Books rest s)
    (hready : s.part.held = [] ∨ s.part.active = some device) :
    Sustains P rest s { s with part := { s.part with active := some device } } := by
  rcases hready with hheld | hactive
  case inr =>
    have hsame : { s with part := { s.part with active := some device } } = s := by
      rw [← hactive]
    rw [hsame]
    exact h.sustains
  case inl =>
    refine ⟨⟨h.attached, h.orderly, fun place => ?_, fun _ => hheld, h.tidy⟩,
      ⟨fun _ => Device.onward_lasting.refl _, rfl, fun _ => rfl, rfl, rfl, rfl⟩,
      fun _ htrust => ⟨htrust.honest, htrust.inside⟩⟩
    have hbalanced := h.balanced place
    rw [heldAt_of_held hheld] at hbalanced
    rw [heldAt_of_held (by exact hheld)]
    exact hbalanced

-- Before another device is made the active one, the buffers on the old one are given back.
theorem activate_sustains (h : Books rest s) (device : Nat) :
    (activate device).Ends s fun r t => Sustains P rest s t ∧ ∀ a, r = .ok a →
      t.part.active = some device ∧ ∃ place, s.part.devices[device]? = some place := by
  have hset {u : Hosted Context} (hu : Sustains P rest s u)
      (hready : u.part.held = [] ∨ u.part.active = some device) :
      Sustains P rest s { u with part := { u.part with active := some device } } :=
    hu.trans (turn_sustains hu.books hready)
  unfold activate
  refine Action.Ends.bind_get (Action.Ends.bind_lift (fun place hplace => ?_) fun _ _ =>
    ⟨h.sustains, nofun⟩)
  refine Action.Ends.bind_get ?_
  have hfound : ∃ place, s.part.devices[device]? = some place := ⟨place, Context.place_ok.mp hplace⟩
  cases hactive : s.part.active with
  | none =>
    have hheld : s.part.held = [] := h.housed (by rw [activePlace?, hactive]; rfl)
    exact ⟨hset h.sustains (.inl hheld), fun _ _ => ⟨rfl, hfound⟩⟩
  | some current =>
    dsimp only
    split
    case isTrue =>
      refine (invalidate_upholds h).bind (fun _ u hinvalidated => ?_) fun _ _ hinvalidated =>
        ⟨hinvalidated.1.toSustains, nofun⟩
      obtain ⟨hu, hpart⟩ := hinvalidated
      exact ⟨hset hu.toSustains (.inl (hpart ▸ held_detachAll _)), fun _ _ => ⟨rfl, hfound⟩⟩
    case isFalse hsame =>
      have hdevice : current = device := Classical.not_not.mp hsame
      exact ⟨hset h.sustains (.inr (hdevice ▸ hactive)), fun _ _ => ⟨rfl, hfound⟩⟩

end Context
end Offload
