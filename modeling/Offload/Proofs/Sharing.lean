import Offload.Proofs.Mirrors
import Offload.Proofs.Records

/-!
What it takes to be shared. An object that was read back is on record as the host's and the context's, and the
host has in its window what the context has in its buffer.
-/

namespace Offload

theorem Bytes.window_overlayAt {offset : Nat} {data bytes : Bytes} (h : offset + data.length ≤ bytes.length) :
    window offset data.length (overlayAt offset data bytes) = data := by
  have hoffset : offset ≤ bytes.length := Nat.le_of_add_right_le h
  simp [window, overlayAt, overlay, hoffset]

namespace Platform

variable {p p' : Platform} {place : Nat} {id : BufferId} {h : Handle} {contents : Bytes}
  {offset length : Nat} {e : EventId}

-- Nothing stands in the way of a read that waits for nothing, unless it would leave the object.
theorem readBack_ok (hid : (p.channel place).device.memory.contents? id = some contents)
    (hlength : length ≤ contents.length) (hread : readBack place id h offset length [] true p = (.ok e, p')) :
    offset + length ≤ p.registry.byteLength h ∧
      p'.registry = p.registry.deliver h offset (contents.take length) ∧
        ∀ other, (p'.channel other).device.memory = (p.channel other).device.memory := by
  have hready : (p.channel place).queue.Ready [] := nofun
  by_cases hinside : offset + length ≤ p.registry.byteLength h
  case pos =>
    obtain ⟨c, hcall, hran⟩ := Channel.read_ready hready hid hlength hinside true
    have hmemory (other : Nat) := channel_readBack place id h offset length [] true p other
    rw [readBack_of_ok hcall] at hread hmemory
    cases hread
    refine ⟨hinside, rfl, fun other => ?_⟩
    rw [hmemory]
    exact rel_onChannel (R := fun c c' => c'.device.memory = c.device.memory) (fun _ => rfl) _ p place
      (by rw [hcall, hran]; rfl) other
  case neg =>
    obtain ⟨fault, c, _, hcall⟩ :=
      Channel.read_outside hready hid hlength (Nat.lt_of_not_le hinside) true
    rw [readBack_of_error hcall] at hread
    cases hread

end Platform

-- The bytes of the buffer that belong to its object, which may be shorter.
def Binding.overlap (b : Binding) (r : Registry) : Nat :=
  min b.state.size (r.byteLength b.object.handle - b.state.hostOffset)

-- The host has what is in the buffer.
def Binding.Agrees (b : Binding) (s : Hosted Context) : Prop :=
  ∃ place id contents, s.part.activePlace? = some place ∧ b.state.buffer = some id ∧
    (s.device place).memory.contents? id = some contents ∧
      contents.take (b.overlap s.platform.registry) = Bytes.window b.state.hostOffset
        (b.overlap s.platform.registry) (s.platform.registry.bytes b.object.handle)

namespace Context

variable {rest : Nat → List (BufferId × Nat)} {s t u : Hosted Context} {b : Binding} {h : Handle}
  {device place : Nat}

-- The object is the host's and the context's, and whoever asks is told so.
structure Shares (s : Hosted Context) (h : Handle) : Prop where
  agrees : ∃ index b, s.part.objectIndex? h = some index ∧ s.part.bindings[index]? = some b ∧
    b.state.isValid ∧ b.Agrees s
  record : ∀ record, s.platform.registry.record? h = some record →
    record = { owner := s.part.active, shared := true }

-- What is shared stays so, if nobody touches the bytes or the record of it.
theorem Shares.frame {p : Platform} (hshares : Shares s h)
    (hbytes : p.registry.bytes h = s.platform.registry.bytes h)
    (hrecord : p.registry.record? h = s.platform.registry.record? h)
    (hmemory : ∀ place, (p.channel place).device.memory = (s.device place).memory) :
    Shares { s with platform := p } h := by
  obtain ⟨⟨index, b, hindex, hb, hvalid, hagrees⟩, howner⟩ := hshares
  obtain ⟨place, id, contents, hplace, hid, hcontents, hsame⟩ := hagrees
  have hhandle := handle_of_objectIndex? hindex hb
  have hoverlap : b.overlap p.registry = b.overlap s.platform.registry := by
    rw [Binding.overlap, Binding.overlap, Registry.byteLength, Registry.byteLength, hhandle, hbytes]
  refine ⟨⟨index, b, hindex, hb, hvalid, place, id, contents, hplace, hid, ?_, ?_⟩, hrecord ▸ howner⟩
  case refine_1 => exact (congrArg (·.contents? id) (hmemory place)).trans hcontents
  case refine_2 => rw [hoverlap, hhandle, hbytes, ← hhandle, hsame]

-- What was read back and put on record is shared, and so is what was shared before.
theorem shares_of_delivered {p : Platform} {index n : Nat} {id : BufferId} {contents : Bytes}
    (hactive : s.part.active = some device) (hplace : s.part.activePlace? = some place)
    (hindex : s.part.objectIndex? b.object.handle = some index) (hb : s.part.bindings[index]? = some b)
    (hvalid : b.state.validBuffer? = some id)
    (hcontents : (s.device place).memory.contents? id = some contents)
    (hn : b.overlap s.platform.registry = n) (hlength : n ≤ contents.length)
    (hinside : b.state.hostOffset + n ≤ s.platform.registry.byteLength b.object.handle)
    (hbytes : p.registry.bytes = Function.update s.platform.registry.bytes b.object.handle
      (Bytes.overlayAt b.state.hostOffset (contents.take n) (s.platform.registry.bytes b.object.handle)))
    (hrecord : ∀ k, p.registry.record? k = if k = b.object.handle then
      (s.platform.registry.record? k).map fun _ => { owner := some device, shared := true }
      else s.platform.registry.record? k)
    (hmemory : ∀ place, (p.channel place).device.memory = (s.device place).memory) :
    Shares { s with platform := p } b.object.handle ∧ ∀ h, Shares s h → Shares { s with platform := p } h := by
  have hshares : Shares { s with platform := p } b.object.handle := by
    refine ⟨⟨index, b, hindex, hb, ?_, place, id, contents, hplace, ?_, ?_, ?_⟩, fun record hafter => ?_⟩
    case refine_1 => exact ObjectState.isValid_of_validBuffer? hvalid
    case refine_2 => exact ObjectState.buffer_of_validBuffer? hvalid
    case refine_3 => exact (congrArg (·.contents? id) (hmemory place)).trans hcontents
    case refine_4 =>
      have htake : (contents.take n).length = n := List.length_take_of_le hlength
      have hfits : b.state.hostOffset + (contents.take n).length ≤
          (s.platform.registry.bytes b.object.handle).length := by rwa [htake]
      have hwindow := Bytes.window_overlayAt hfits
      have hoverlap : b.overlap p.registry = n := by
        rw [Binding.overlap, Registry.byteLength, hbytes, Function.update_self, Bytes.overlayAt_length hfits]
        exact hn
      dsimp only
      rw [htake] at hwindow
      rw [hoverlap, hbytes, Function.update_self, hwindow]
    case refine_5 =>
      dsimp only at hafter ⊢
      rw [hrecord, if_pos rfl] at hafter
      obtain ⟨_, _, rfl⟩ := Option.map_eq_some_iff.mp hafter
      rw [hactive]
  refine ⟨hshares, fun k hk => ?_⟩
  by_cases heq : k = b.object.handle
  case pos => exact heq ▸ hshares
  case neg =>
    exact hk.frame (by rw [hbytes, Function.update_of_ne heq]) (by rw [hrecord, if_neg heq]) hmemory

theorem syncObject_shares (hbooks : Books rest s) (hactive : s.part.active = some device)
    (hplace : s.part.devices[device]? = some place) (o : HostObject) :
    (syncObject device place o).Ends s fun result t => result = .ok ⟨⟩ →
      Shares t o.handle ∧ ∀ h, Shares s h → Shares t h := by
  unfold syncObject
  refine Action.Ends.bind_get (Action.Ends.bind_lift (fun index hindex => ?_) fun _ _ => nofun)
  refine Action.Ends.bind_lift (fun b hb => ?_) fun _ _ => nofun
  have hindex := objectIndex_ok.mp hindex
  have hb := binding_ok.mp hb
  have hhandle := handle_of_objectIndex? hindex hb
  rw [← hhandle] at hindex ⊢
  split
  case h_2 => exact nofun
  case h_1 id hvalid =>
    dsimp only
    have hactive' := activePlace?_eq hactive hplace
    obtain ⟨contents, hcontents, hsize⟩ := (hbooks.orderly place).contents?_of_mem
      (hbooks.mem_live hactive' (List.mem_of_getElem? hb) (ObjectState.buffer_of_validBuffer? hvalid))
    generalize hn : min b.state.size (s.platform.registry.byteLength b.object.handle - b.state.hostOffset) = n
    have hlength : n ≤ contents.length := by omega
    rcases hread : Platform.readBack place id b.object.handle b.state.hostOffset n [] true s.platform with
      ⟨e | e, p⟩
    case error => exact Action.Ends.bind_of_error (by rw [Hosted.onPlatform, hread]) nofun
    case ok =>
      refine Action.Ends.bind_of_ok (by rw [Hosted.onPlatform, hread]) fun _ => ?_
      obtain ⟨hinside, hregistry, hmemory⟩ := Platform.readBack_ok hcontents hlength hread
      have htake : (contents.take n).length = n := List.length_take_of_le hlength
      refine shares_of_delivered hactive hactive' hindex hb hvalid hcontents hn hlength hinside ?_
        (fun k => ?_) hmemory
      case refine_1 =>
        rw [← Registry.bytes_deliver (by rwa [htake]), ← hregistry]
        exact funext fun k => Registry.bytes_setOwner _ _ k _ _
      case refine_2 =>
        dsimp only
        rw [Registry.record?_setOwner, hregistry, Registry.record?_deliver]

theorem sync_shares (hbooks : Books rest s) (objects : List HostObject) :
    (sync objects).Ends s fun result t => result = .ok ⟨⟩ → ∀ o ∈ objects, Shares t o.handle := by
  unfold sync
  refine Action.Ends.bind_get ?_
  dsimp only
  split
  case h_2 => exact nofun
  case h_1 device hactive =>
    refine Action.Ends.bind_lift (fun place hplace => ?_) fun _ _ => nofun
    replace hplace := Context.place_ok.mp hplace
    -- what was shared before the first of the objects is carried along
    have hall : (objects.forM (syncObject device place)).Ends s fun result t => result = .ok ⟨⟩ →
        (∀ o ∈ objects, Shares t o.handle) ∧ ∀ h, Shares s h → Shares t h := by
      induction objects generalizing s with
      | nil => exact fun _ => ⟨nofun, fun _ => id⟩
      | cons o objects ih =>
        have hfirst : (syncObject device place o).Ends s fun result t => Deals Returns s t ∧
            (result = .ok ⟨⟩ → Shares t o.handle ∧ ∀ h, Shares s h → Shares t h) :=
          ⟨syncObject_deals hactive hplace o, syncObject_shares hbooks hactive hplace o⟩
        refine hfirst.bind (fun _ u ⟨hdeals, hshares⟩ => ?_) fun _ _ _ => nofun
        obtain ⟨hone, hkept⟩ := hshares rfl
        have hactive' : u.part.active = some device :=
          (hdeals.active_eq hbooks fun _ _ h => h.elim).trans hactive
        have hsustains := hdeals.sustains hbooks
        refine (ih hsustains.books hactive' (hsustains.stable.devices ▸ hplace)).mono fun _ t ht hok => ?_
        obtain ⟨hrest, hlater⟩ := ht hok
        exact ⟨List.forall_mem_cons.mpr ⟨hlater _ hone, hrest⟩, fun h => hlater h ∘ hkept h⟩
    exact hall.mono fun _ _ ht hok => (ht hok).1

end Context
end Offload
