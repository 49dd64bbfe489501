import Offload.Proofs.Dealings

/-!
Copies that mirror their objects. What a context does about some of its buffers leaves the others as they
are, and its copy of an object stays a mirror of it as long as no kernel takes the object, and whatever is
read back goes to where it came from.
-/

namespace Offload

namespace Bytes

-- A window that is laid back where it was cut out changes nothing.
theorem overlayAt_window {offset length : Nat} {bytes : Bytes} (h : offset + length ≤ bytes.length) :
    overlayAt offset (window offset length bytes) bytes = bytes := by
  rw [overlayAt, overlay, window_length h, window, List.take_append_drop, List.take_append_drop]

theorem take_window {offset length size : Nat} (bytes : Bytes) (h : length ≤ size) :
    (window offset size bytes).take length = window offset length bytes := by
  rw [window, window, List.take_take, Nat.min_eq_left h]

end Bytes

namespace Memory

variable {m m' : Memory} {id other : BufferId} {data : Bytes}

theorem contents?_write (hne : other ≠ id) (h : m.write id data = .ok m') :
    m'.contents? other = m.contents? other := by
  unfold write at h
  split at h
  case h_1 => cases h
  case h_2 =>
    split at h <;> cases h
    rw [contents?_mapBytes, contents?]
    cases hother : m.buffer? other with
    | none => rfl
    | some b => rw [Option.map_some, if_neg (id_of_buffer? hother ▸ hne), Option.map_some]

theorem contents?_run {arguments : List BufferId} (h : other ∉ arguments) (kernel : Kernel)
    (geometry : Geometry) : (m.run kernel arguments geometry).2.contents? other = m.contents? other := by
  unfold run
  split
  case h_1 => rfl
  case h_2 => exact contents?_scatter_of_not_mem h

theorem Orderly.contents?_of_mem {size : Nat} (hm : m.Orderly) (hlive : (id, size) ∈ m.live) :
    ∃ bytes, m.contents? id = some bytes ∧ bytes.length = size := by
  obtain ⟨b, hb, hlength⟩ := hm.buffer?_of_mem hlive
  exact ⟨b.bytes, by rw [contents?, hb, Option.map_some], hlength⟩

end Memory

namespace Device

variable {α : Type} {d d' : Device} {wait : List EventId} {blocking : Bool}

-- What a command answers with was made of the memory as it was.
theorem perform_some {body : Memory → Except CommandFault α × Memory} {e : EventId} {a : α}
    (h : perform wait blocking body d = (.ok (e, some a), d')) : (body d.memory).1 = .ok a := by
  unfold perform at h
  rw [Action.bind_of_ok (Action.get_apply d)] at h
  cases hwait : d.waitFault ⟨d.nextEvent⟩ wait with
  | some fault =>
    rw [submit_blocked hwait] at h
    cases blocking <;> cases h
  | none =>
    rcases hbody : body d.memory with ⟨fault | a', memory⟩
    case error =>
      rw [submit_failed hwait hbody] at h
      cases blocking <;> cases h
    case ok =>
      rw [submit_ok hwait hbody] at h
      cases h
      rfl

-- A write that tells of its failure has written nothing.
theorem memory_write_of_error {id : BufferId} {data : Bytes} {e : Error}
    (h : (write id data wait blocking d).1 = .error e) :
    (write id data wait blocking d).2.memory = d.memory := by
  rcases hwrite : write id data wait blocking d with ⟨result, d'⟩
  rw [hwrite] at h
  cases h
  rcases Action.bind_error.mp hwrite with hperform | ⟨_, _, _, hpure⟩
  case inr => cases hpure
  case inl =>
    unfold perform at hperform
    rw [Action.bind_of_ok (Action.get_apply d)] at hperform
    cases hwait : d.waitFault ⟨d.nextEvent⟩ wait with
    | some fault =>
      rw [submit_blocked hwait] at hperform
      cases blocking <;> cases hperform
      rfl
    | none =>
      cases hm : d.memory.write id data with
      | error fault =>
        rw [submit_failed hwait (by rw [hm])] at hperform
        cases blocking <;> cases hperform
        rfl
      | ok m' =>
        rw [submit_ok hwait (by rw [hm])] at hperform
        cases hperform

end Device

namespace Platform

variable {α : Type} {p : Platform} {place active : Nat} {id : BufferId} {length : Nat}

-- A call on one device leaves a buffer as it is, unless it is about that very buffer.
theorem contents?_onChannel (act : Action Channel α)
    (hact : active = place → (act (p.channel active)).2.device.memory.contents? id =
      (p.channel active).device.memory.contents? id) :
    ((onChannel active act p).2.channel place).device.memory.contents? id =
      (p.channel place).device.memory.contents? id := by
  by_cases heq : active = place
  case neg => rw [channel_onChannel_ne heq]
  case pos =>
    exact rel_onChannel (R := fun c c' => c'.device.memory.contents? id = c.device.memory.contents? id)
      (fun _ => rfl) act p active (hact heq) place

-- Either nothing was read back, or the front of the buffer was.
theorem bytes_readBack (offset : Nat) (wait : List EventId) (blocking : Bool) (h : Handle) {contents : Bytes}
    (hid : (p.channel place).device.memory.contents? id = some contents)
    (hlength : length ≤ contents.length) :
    (readBack place id h offset length wait blocking p).2.registry.bytes = p.registry.bytes ∨
      offset + length ≤ p.registry.byteLength h ∧
        (readBack place id h offset length wait blocking p).2.registry.bytes =
          Function.update p.registry.bytes h
            (Bytes.overlayAt offset (contents.take length) (p.registry.bytes h)) := by
  rcases hread : Channel.read id (p.registry.byteLength h) offset length wait blocking (p.channel place) with
    ⟨e | ⟨e, data⟩, c⟩
  case error =>
    rw [readBack_of_error hread]
    exact .inl rfl
  case ok =>
    cases data with
    | none =>
      rw [readBack_of_none hread]
      exact .inl rfl
    | some data =>
      rw [readBack_of_ok hread]
      have hcall : Device.read id (p.registry.byteLength h) offset length wait blocking
          (p.channel place).device = (.ok (e, some data), c.device) := by
        rw [Channel.read, Channel.noting_apply] at hread
        obtain ⟨hresult, rfl⟩ := Prod.mk.inj hread
        exact Prod.ext hresult rfl
      have hdata : (p.channel place).device.memory.read id (p.registry.byteLength h) offset length =
          .ok data := Device.perform_some hcall
      rw [Memory.read_eq hid hlength] at hdata
      split at hdata
      case isTrue => cases hdata
      case isFalse hinside =>
        cases hdata
        have hinside := Nat.le_of_not_lt hinside
        refine .inr ⟨hinside, Registry.bytes_deliver ?_⟩
        rwa [List.length_take, Nat.min_eq_left hlength]

end Platform

namespace Context

variable {rest : Nat → List (BufferId × Nat)} {s t u : Hosted Context} {c : Context} {p : Platform}
  {index place size : Nat} {id : BufferId} {k : Handle} {A : Hosted Context → Deal → Prop} {d : Deal}
  {b : Binding}

theorem bytes_giveUp (c : Context) (p : Platform) (b : Binding) (k : Handle) :
    (c.giveUp p b).registry.bytes k = p.registry.bytes k := by
  have hclear (active : Nat) (p' : Platform) (hregistry : p'.registry = p.registry) :
      (if (p'.registry.record? b.object.handle).bind Ownership.owner = some active then
        { p' with registry := p'.registry.clearOwner b.object.handle } else p').registry.bytes k =
        p.registry.bytes k := by
    split
    case isTrue => rw [Registry.bytes_clearOwner, hregistry]
    case isFalse => rw [hregistry]
  unfold giveUp
  cases c.active with
  | none => rfl
  | some active => exact hclear active _ (by split <;> rfl)

theorem bytes_giveUpAll (c : Context) (bs : List Binding) (p : Platform) (k : Handle) :
    (bs.foldl c.giveUp p).registry.bytes k = p.registry.bytes k := by
  induction bs generalizing p with
  | nil => rfl
  | cons b bs ih => rw [List.foldl_cons, ih, bytes_giveUp]

-- Whoever gives buffers up leaves those of the others as they are.
theorem contents?_giveUpAll {bs : List Binding}
    (hfree : c.activePlace? = some place → ∀ b ∈ bs, b.state.buffer ≠ some id) (p : Platform) :
    ((bs.foldl c.giveUp p).channel place).device.memory.contents? id =
      (p.channel place).device.memory.contents? id := by
  induction bs generalizing p with
  | nil => rfl
  | cons b bs ih =>
    rw [List.foldl_cons, ih fun hplace x hx => hfree hplace x (List.mem_cons_of_mem b hx)]
    obtain ⟨registry, _, heq⟩ := giveUp_eq c p b
    rw [heq]
    cases hplace : c.activePlace? with
    | none => rfl
    | some active =>
      cases hid : b.state.buffer with
      | none => rfl
      | some other =>
        refine Platform.contents?_onChannel (Channel.release other) fun hsame => ?_
        refine (Memory.release_frame _ other).2 id fun heq => ?_
        exact hfree (hsame ▸ hplace) b List.mem_cons_self (heq ▸ hid)

end Context

-- The places whose buffers a deal is about.
def Deal.Touches (c : Context) : Deal → Nat → Prop
  | .detach index, other | .fill index _ _, other => other = index
  | .run task, other => ∃ a ∈ task.arguments, ∃ b, c.Places a.object.handle other b
  | .clear, _ => True
  | _, _ => False

namespace Context

variable {rest : Nat → List (BufferId × Nat)} {s t u : Hosted Context} {c : Context} {p : Platform}
  {index place size : Nat} {id : BufferId} {k : Handle} {A : Hosted Context → Deal → Prop} {d : Deal}
  {b : Binding}

theorem Collected.of_mem {m : Memory} {arguments : List Argument} {ids : List BufferId}
    (h : c.Collected m arguments ids) (hid : id ∈ ids) :
    (∃ a ∈ arguments, ∃ index b, c.Places a.object.handle index b ∧ b.state.buffer = some id) ∨
      m.Gone id := by
  induction h with
  | nil => cases hid
  | @cons a arguments other ids hhead _ ih =>
    rcases List.mem_cons.mp hid with rfl | hrest
    case inl =>
      rcases hhead with ⟨index, b, hplaces, hbuffer⟩ | ⟨_, hgone⟩
      case inl => exact .inl ⟨a, List.mem_cons_self, index, b, hplaces, hbuffer⟩
      case inr => exact .inr hgone
    case inr =>
      exact (ih hrest).imp_left fun ⟨a', ha', hplaces⟩ => ⟨a', List.mem_cons_of_mem a ha', hplaces⟩

-- A buffer is left as it is by every deal that is not about it.
theorem Does.contents (hdoes : Does d s t) (hbooks : Books rest s)
    (hlive : (id, size) ∈ (s.device place).memory.live)
    (hfree : s.part.activePlace? = some place → ∀ index b, s.part.bindings[index]? = some b →
      b.state.buffer = some id → ¬d.Touches s.part index) :
    (t.device place).memory.contents? id = (s.device place).memory.contents? id := by
  obtain ⟨contents, hcontents, _⟩ := (hbooks.orderly place).contents?_of_mem hlive
  have hcall {α : Type} {active : Nat} (act : Action Channel α) (c : Context)
      (hact : active = place → (act (s.platform.channel active)).2.device.memory.contents? id =
        (s.device active).memory.contents? id) :
      (Hosted.device place ⟨(Platform.onChannel active act s.platform).2, c⟩).memory.contents? id =
        (s.device place).memory.contents? id := Platform.contents?_onChannel act hact
  cases hdoes with
  | @attach _ index size active b new memory hplace hb hnone hmemory =>
    refine hcall (Channel.allocate size) _ fun hsame => ?_
    subst hsame
    obtain ⟨c, hc, hdevice⟩ := Channel.allocate_of_ok hmemory
    obtain ⟨_, hfresh, _, hothers⟩ := Memory.allocate_ok (hbooks.orderly active).sound hmemory
    rw [hc, hdevice]
    refine hothers id fun heq => ?_
    rw [heq] at hcontents
    cases hfresh.symm.trans hcontents
  | @detach _ index active b old hplace hb hold =>
    refine hcall (Channel.release old) _ fun hsame => (Memory.release_frame _ old).2 id fun heq => ?_
    exact hfree (hsame ▸ hplace) index b hb (heq ▸ hold) rfl
  | @fill _ index offset active b own data wait blocking event hplace hb hown hdata hok =>
    refine hcall (Channel.write own data wait blocking) _ fun hsame => ?_
    have hne : id ≠ own := fun heq => hfree (hsame ▸ hplace) index b hb (heq ▸ hown) rfl
    exact Device.write_keeps (f := (·.contents? id)) (fun _ _ h => Memory.contents?_write hne h) wait
      blocking _
  | @miss _ index offset active b own data wait blocking e hplace hb hid hdata herror =>
    exact hcall (Channel.write own data wait blocking) _ fun _ =>
      congrArg (·.contents? id) (Device.memory_write_of_error herror)
  | @run _ task active ids kernel geometry wait hplace htask hids =>
    refine hcall (Channel.launch kernel ids geometry wait) _ fun hsame => ?_
    refine Device.launch_keeps (f := (·.contents? id)) (fun m code => ?_) kernel wait _
    refine Memory.contents?_run (fun hmem => ?_) code geometry
    rcases hids.of_mem hmem with ⟨a, ha, index, b, hplaces, hbuffer⟩ | hgone
    case inl => exact hfree (hsame ▸ hplace) index b hplaces.2 hbuffer ⟨a, ha, b, hplaces⟩
    case inr =>
      rw [Memory.contents?, ← hsame, hgone.2] at hcontents
      cases hcontents
  | @deliver _ index length active b own offset wait blocking hplace hb hvalid =>
    rw [Hosted.device, Platform.channel_readBack]
    exact hcall (Channel.read own _ offset length wait blocking) s.part fun _ =>
      Device.perform_keeps (f := (·.contents? id)) (fun _ => rfl) wait blocking _
  | clear =>
    refine contents?_giveUpAll (fun hplace b hb hid => ?_) s.platform
    obtain ⟨index, hindex⟩ := List.getElem?_of_mem hb
    exact hfree hplace index b hindex hid trivial
  | mark | own | turn => rfl

-- Whatever a context does, the buffers of the others are left as they are.
theorem Deals.contents_rest (hdeals : Deals A s t) (hbooks : Books rest s) (hid : (id, size) ∈ rest place) :
    (t.device place).memory.contents? id = (s.device place).memory.contents? id := by
  refine hdeals.keep (I := fun u => (u.device place).memory.contents? id =
    (s.device place).memory.contents? id) hbooks rfl (fun u v hc hu => ?_) fun d u v hu _ hdoes hsame => ?_
  case refine_1 =>
    have hmemory : (v.device place).memory = (u.device place).memory := (hc.channels place).device.memory
    exact hmemory ▸ hu
  case refine_2 =>
    have hbalanced := hu.books.balanced place
    have hlive : (id, size) ∈ (u.device place).memory.live :=
      hbalanced.mem_iff.mpr (List.mem_append_right _ hid)
    refine (hdoes.contents hu.books hlive fun hplace index b hb hbuffer => ?_).trans hsame
    -- the keys on a device are apart, and this one is among those of the others
    have hnodup := (hu.books.orderly place).nodup
    rw [← Memory.map_fst_live, (hbalanced.map Prod.fst).nodup_iff, List.map_append, heldAt,
      if_pos hplace] at hnodup
    have hheld := List.mem_map_of_mem (f := Prod.fst) (mem_held (List.mem_of_getElem? hb) hbuffer)
    exact absurd rfl ((List.nodup_append.mp hnodup).2.2 id hheld id (List.mem_map_of_mem hid))

end Context

-- The buffer of an object holds what the host has in the window that it was filled from.
def Binding.Mirrors (b : Binding) (s : Hosted Context) : Prop :=
  ∃ place id, s.part.activePlace? = some place ∧ b.state.buffer = some id ∧
    b.state.hostOffset + b.state.size ≤ s.platform.registry.byteLength b.object.handle ∧
      (s.device place).memory.contents? id = some (Bytes.window b.state.hostOffset b.state.size
        (s.platform.registry.bytes b.object.handle))

-- The task has nothing to do with an object.
def Task.Avoids (k : Handle) (t : Task) : Prop :=
  ∀ a ∈ t.arguments, a.object.handle ≠ k

instance (k : Handle) : DecidablePred (Task.Avoids k) := fun t =>
  inferInstanceAs (Decidable (∀ a ∈ t.arguments, _))

-- What leaves the bytes of an object alone, and a copy of it that is a mirror.
def Deal.Spares (k : Handle) (s : Hosted Context) : Deal → Prop
  | .fill index _ wait => ∀ b, s.part.bindings[index]? = some b → b.object.handle = k → wait = []
  | .run task | .mark task _ => task.Avoids k
  | .deliver index offset length => ∀ b, s.part.bindings[index]? = some b → b.object.handle = k →
      b.state.hostOffset = offset ∨ offset = 0 ∧ length = s.platform.registry.byteLength k
  | _ => True

namespace Context

variable {rest : Nat → List (BufferId × Nat)} {s t u : Hosted Context} {c : Context} {index : Nat}
  {k : Handle} {A : Hosted Context → Deal → Prop} {d : Deal} {b : Binding}

-- Whatever the context has of an object is a mirror.
def Mirrors (k : Handle) (s : Hosted Context) : Prop :=
  ∀ b ∈ s.part.bindings, b.object.handle = k → b.state.isValid → b.Mirrors s

theorem bindings_modifyState_ne {other : Nat} (hne : other ≠ index) (c : Context)
    (f : ObjectState → ObjectState) : (c.modifyState other f).bindings[index]? = c.bindings[index]? := by
  simp [modifyState, hne]

theorem bindings_markArguments {arguments : List Argument}
    (h : ∀ a ∈ arguments, c.objectIndex? a.object.handle ≠ some index) (offset : Nat) :
    (arguments.foldl (markArgument offset) c).bindings[index]? = c.bindings[index]? := by
  induction arguments generalizing c with
  | nil => rfl
  | cons a arguments ih =>
    have hobjects : (markArgument offset c a).objects = c.objects := objects_markArguments c offset [a]
    obtain ⟨ha, hrest⟩ := List.forall_mem_cons.mp h
    rw [List.foldl_cons, ih fun a' ha' => by
      rw [objectIndex?_eq, hobjects, ← objectIndex?_eq]
      exact hrest a' ha']
    unfold markArgument
    split
    case h_2 => rfl
    case h_1 other hother =>
      split
      case isFalse => rfl
      case isTrue =>
        have hne : other ≠ index := fun heq => ha (heq ▸ hother)
        exact bindings_modifyState_ne hne c _

-- What is read back of a mirror is there already.
theorem Does.bytes (hdoes : Does d s t) (hspares : d.Spares k s) (hbooks : Books rest s)
    (hmirrors : Mirrors k s) : t.platform.registry.bytes k = s.platform.registry.bytes k := by
  cases hdoes with
  | @deliver _ index length place b id offset wait blocking hplace hb hvalid hlength =>
    have hid := ObjectState.buffer_of_validBuffer? hvalid
    obtain ⟨contents, hcontents, hsize⟩ := (hbooks.orderly place).contents?_of_mem
      (hbooks.mem_live hplace (List.mem_of_getElem? hb) hid)
    rcases Platform.bytes_readBack offset wait blocking b.object.handle hcontents (hsize ▸ hlength) with
      hsame | ⟨_, hdelivered⟩
    case inl => rw [hsame]
    case inr =>
      rw [hdelivered]
      by_cases heq : k = b.object.handle
      case neg => rw [Function.update_of_ne heq]
      case pos =>
        obtain ⟨place', id', hplace', hid', hinside, hmirror⟩ :=
          hmirrors b (List.mem_of_getElem? hb) heq.symm (ObjectState.isValid_of_validBuffer? hvalid)
        cases hplace.symm.trans hplace'
        cases hid.symm.trans hid'
        cases hcontents.symm.trans hmirror
        have hoffset : b.state.hostOffset = offset := by
          rcases hspares b hb heq.symm with hsame | ⟨rfl, hwhole⟩
          case inl => exact hsame
          case inr =>
            rw [heq] at hwhole
            omega
        rw [heq, Function.update_self, Bytes.take_window _ hlength, ← hoffset]
        exact Bytes.overlayAt_window (Nat.le_trans (Nat.add_le_add_left hlength _) hinside)
  | own => exact Registry.bytes_setOwner _ _ _ _ _
  | clear => exact bytes_giveUpAll _ _ _ _
  | _ => rfl

-- A buffer that was filled without anything to wait for has what it was filled with.
theorem contents?_fill {place : Nat} (hbooks : Books rest s) (hplace : s.part.activePlace? = some place)
    (hb : s.part.bindings[index]? = some b) {id : BufferId} (hid : b.state.buffer = some id) {data : Bytes}
    (hlength : data.length = b.state.size) (blocking : Bool) :
    ((Platform.onChannel place (Channel.write id data [] blocking) s.platform).2.channel
      place).device.memory.contents? id = some data := by
  obtain ⟨old, hold, hsize⟩ := (hbooks.orderly place).contents?_of_mem
    (hbooks.mem_live hplace (List.mem_of_getElem? hb) hid)
  obtain ⟨memory, hwrite, hwritten, _⟩ := Memory.write_ok hold (Nat.le_of_eq (hlength.trans hsize.symm))
  have hready : (s.platform.channel place).queue.Ready [] := nofun
  obtain ⟨channel, hcall, hran⟩ := Channel.write_ready hready hwrite blocking
  have hoverlay : Bytes.overlay data old = data := by simp [Bytes.overlay, hlength, hsize]
  rw [Platform.channel_onChannel (hbooks.place_lt hplace), hcall, hran]
  exact hwritten.trans (congrArg some hoverlay)

-- A copy that a deal is not about.
theorem Does.mirrors_of_not_touches (hdoes : Does d s t) (hspares : d.Spares k s) (hbooks : Books rest s)
    (hmirrors : Mirrors k s) (hb : s.part.bindings[index]? = some b) (hhandle : b.object.handle = k)
    (hvalid : b.state.isValid) (hplace : t.part.activePlace? = s.part.activePlace?)
    (hfree : ¬d.Touches s.part index) : b.Mirrors t := by
  have hbytes := hdoes.bytes hspares hbooks hmirrors
  have hmem := List.mem_of_getElem? hb
  obtain ⟨place, id, hactive, hid, hinside, hcontents⟩ := hmirrors b hmem hhandle hvalid
  refine ⟨place, id, hplace.trans hactive, hid, ?_, ?_⟩
  case refine_1 => rwa [Registry.byteLength, hhandle, hbytes, ← hhandle]
  case refine_2 =>
    rw [hdoes.contents hbooks (hbooks.mem_live hactive hmem hid) fun _ other x hx hxid => ?_, hcontents,
      hhandle, hbytes]
    rwa [hbooks.index_eq hx hb hxid hid]

-- To turn to a device that the context has buffers on is no change.
theorem activePlace?_turn {device : Nat} (hready : c.held = [] ∨ c.active = some device) (hb : b ∈ c.bindings)
    {id : BufferId} (hid : b.state.buffer = some id) :
    ({ c with active := some device } : Context).activePlace? = c.activePlace? := by
  have hactive : c.active = some device := hready.resolve_left fun hnone => by
    have hheld := mem_held hb hid
    rw [hnone] at hheld
    cases hheld
  rw [activePlace?, activePlace?, hactive]

theorem Does.mirrors (hdoes : Does d s t) (hspares : d.Spares k s) (hbooks : Books rest s)
    (hmirrors : Mirrors k s) : Mirrors k t := by
  have hold {index : Nat} {b : Binding} (hb : s.part.bindings[index]? = some b) :=
    hdoes.mirrors_of_not_touches hspares hbooks hmirrors hb
  intro b' hb' hhandle hvalid
  obtain ⟨index, hindex⟩ := List.getElem?_of_mem hb'
  cases hdoes with
  | @attach _ other size place b new memory hplace hb hnone hmemory =>
    by_cases heq : other = index
    case neg => exact hold ((bindings_modifyState_ne heq _ _).symm.trans hindex) hhandle hvalid rfl id
    case pos =>
      subst heq
      cases (getElem?_modify_of_some hb _).symm.trans hindex
      rw [ObjectState.isValid_attach] at hvalid
      cases hvalid
  | @detach _ other place b id hplace hb hid =>
    by_cases heq : other = index
    case neg =>
      exact hold ((bindings_modifyState_ne heq _ _).symm.trans hindex) hhandle hvalid rfl (Ne.symm heq)
    case pos =>
      subst heq
      cases (getElem?_modify_of_some hb _).symm.trans hindex
      cases hvalid
  | @fill _ other offset place b id data wait blocking event hplace hb hid hdata hok =>
    by_cases heq : other = index
    case neg =>
      exact hold ((bindings_modifyState_ne heq _ _).symm.trans hindex) hhandle hvalid rfl (Ne.symm heq)
    case pos =>
      subst heq
      cases (getElem?_modify_of_some hb _).symm.trans hindex
      have hwait : wait = [] := hspares b hb hhandle
      subst hwait
      obtain ⟨hlength, hinside⟩ := Registry.window_ok hdata
      refine ⟨place, id, hplace, hid, hinside, ?_⟩
      exact (contents?_fill hbooks hplace hb hid hlength blocking).trans
        (congrArg some (Registry.window_eq hdata))
  | miss => exact hold hindex hhandle hvalid rfl id
  | @run _ task place ids kernel geometry wait hplace htask hids =>
    refine hold hindex hhandle hvalid rfl fun ⟨a, ha, x, hplaces⟩ => ?_
    cases hplaces.2.symm.trans hindex
    exact hspares a ha (hplaces.handle.symm.trans hhandle)
  | @mark _ task offset hfilled =>
    have hobjects : (s.part.markWritten task offset).objects = s.part.objects :=
      objects_markArguments _ _ _
    have hfree : ∀ a ∈ task.arguments, s.part.objectIndex? a.object.handle ≠ some index := by
      intro a ha hfound
      rw [objectIndex?_eq, ← hobjects, ← objectIndex?_eq] at hfound
      exact hspares a ha ((handle_of_objectIndex? hfound hindex).symm.trans hhandle)
    have hmarked : Upholds False rest s { s with part := s.part.markWritten task offset } :=
      markWritten_upholds hbooks task hfilled False.elim
    refine hold ((bindings_markArguments hfree offset).symm.trans hindex) hhandle hvalid ?_ id
    rw [activePlace?, hmarked.active, hmarked.stable.devices]
    rfl
  | deliver => exact hold hindex hhandle hvalid rfl id
  | own => exact hold hindex hhandle hvalid rfl id
  | clear =>
    obtain ⟨b, _, rfl⟩ := List.mem_map.mp hb'
    cases hvalid
  | turn hready =>
    obtain ⟨place, id, _, hid, _⟩ := hmirrors b' hb' hhandle hvalid
    exact hold hindex hhandle hvalid (activePlace?_turn hready hb' hid) (fun h => h)

-- However long a context spares an object, the host's bytes are what they were, and the copies are mirrors.
theorem Deals.spares (hdeals : Deals (fun u d => d.Spares k u) s t) (hbooks : Books rest s)
    (hmirrors : Mirrors k s) : t.platform.registry.bytes k = s.platform.registry.bytes k ∧ Mirrors k t := by
  refine hdeals.keep (I := fun u => u.platform.registry.bytes k = s.platform.registry.bytes k ∧ Mirrors k u)
    hbooks ⟨rfl, hmirrors⟩ (fun u v hc ⟨hbytes, hu⟩ => ⟨by rw [hc.registry, hbytes], ?_⟩)
    fun d u v hsustains hd hdoes ⟨hbytes, hu⟩ =>
      ⟨(hdoes.bytes hd hsustains.books hu).trans hbytes, hdoes.mirrors hd hsustains.books hu⟩
  intro b hb hhandle hvalid
  obtain ⟨place, id, hplace, hid, hinside, hcontents⟩ := hu b (hc.bindings ▸ hb) hhandle hvalid
  have hmemory : (v.device place).memory = (u.device place).memory := (hc.channels place).device.memory
  exact ⟨place, id, by rw [activePlace?, hc.active, hc.devices]; exact hplace, hid, hc.registry ▸ hinside,
    by rw [hmemory, hc.registry]; exact hcontents⟩

end Context
end Offload
