import Offload.Proofs.Deals

/-!
The dealings of a machine: every instruction is made of deals, and few of them. What a launch names are the
buffers of its arguments, unless a later argument wanted another one in place of an earlier one's.
-/

namespace Offload

namespace Platform

variable {α : Type} {p : Platform} {place other : Nat}

theorem channel_onChannel (h : place < p.channels.length) (act : Action Channel α) :
    (onChannel place act p).2.channel place = (act (p.channel place)).2 := by
  rw [onChannel_apply, channel_setChannel h]

theorem channel_onChannel_ne (h : place ≠ other) (act : Action Channel α) :
    (onChannel place act p).2.channel other = p.channel other := by
  rw [onChannel_apply, channel_setChannel_ne h]

-- Whatever is read back, on the devices there was one read.
theorem channel_readBack (place : Nat) (id : BufferId) (h : Handle) (offset length : Nat)
    (wait : List EventId) (blocking : Bool) (p : Platform) (other : Nat) :
    (readBack place id h offset length wait blocking p).2.channel other =
      (onChannel place (Channel.read id (p.registry.byteLength h) offset length wait blocking) p).2.channel
        other := by
  rw [onChannel_apply]
  rcases hread : Channel.read id (p.registry.byteLength h) offset length wait blocking (p.channel place) with
    ⟨e | ⟨e, data⟩, c⟩
  case error => rw [readBack_of_error hread]
  case ok =>
    cases data with
    | none => rw [readBack_of_none hread]
    | some data => rw [readBack_of_ok hread]; rfl

end Platform

namespace Memory

variable {m m' : Memory} {id other : BufferId} {size : Nat}

theorem next_release (m : Memory) (id : BufferId) : (m.release id).next = m.next := by
  unfold release
  split <;> rfl

theorem buffer?_eq_none_iff : m.buffer? id = none ↔ id ∉ m.live.map Prod.fst := by
  rw [map_fst_live, buffer?, List.find?_eq_none, List.mem_map]
  simp

-- Of all keys a release takes its own away, and no other.
theorem map_fst_live_release (m : Memory) (id : BufferId) :
    (m.release id).live.map Prod.fst = (m.live.map Prod.fst).filter (· ≠ id) := by
  rw [map_fst_live, map_fst_live, List.filter_map]
  unfold release
  split
  case h_1 hnone =>
    rw [List.filter_eq_self.mpr]
    intro b hb
    have hne := List.find?_eq_none.mp hnone b hb
    simpa using hne
  case h_2 => rfl

theorem Gone.release (h : m.Gone id) (other : BufferId) : (m.release other).Gone id := by
  refine ⟨next_release m other ▸ h.1, ?_⟩
  rw [buffer?_eq_none_iff, map_fst_live_release]
  exact fun hmem => buffer?_eq_none_iff.mp h.2 (List.mem_of_mem_filter hmem)

theorem Gone.allocate (h : m.Gone id) (hm : m.allocate size = .ok (other, m')) : m'.Gone id := by
  unfold Memory.allocate at hm
  split at hm <;> cases hm
  have hne : (⟨m.next⟩ : BufferId) ≠ id := fun heq => by
    have hlt := h.1
    rw [← heq] at hlt
    exact Nat.lt_irrefl _ hlt
  have hnone : m.buffers.find? (·.id = id) = none := h.2
  exact ⟨Nat.lt_succ_of_lt h.1, by simp [buffer?, List.find?_append, hnone, hne]⟩

-- A buffer that was there and is released is gone for good.
theorem gone_release (hsound : m.Sound) {b : Buffer} (hb : m.buffer? id = some b) :
    (m.release id).Gone id := by
  refine ⟨?_, ?_⟩
  case refine_1 =>
    rw [next_release, ← id_of_buffer? hb]
    exact hsound b (List.mem_of_find?_eq_some hb)
  case refine_2 =>
    rw [buffer?_eq_none_iff, map_fst_live_release]
    simp

end Memory

namespace Context

variable {rest : Nat → List (BufferId × Nat)} {s t u : Hosted Context}
  {A : Hosted Context → Deal → Prop} {index place device size threads : Nat} {b : Binding}
  {arguments : List Argument} {id : BufferId} {h : Handle}

theorem Places.handle {c : Context} (hp : c.Places h index b) : b.object.handle = h :=
  handle_of_objectIndex? hp.1 hp.2

theorem Places.state?_eq {c : Context} (hp : c.Places h index b) : c.state? h = some b.state := by
  obtain ⟨hlt, heq, hbefore⟩ := List.findIdx?_eq_some_iff_getElem.mp hp.1
  have hget : c.bindings[index] = b := by
    obtain ⟨_, hget⟩ := List.getElem?_eq_some_iff.mp hp.2
    exact hget
  have hfind : c.bindings.find? (·.object.handle = h) = some b :=
    List.find?_eq_some_iff_getElem.mpr ⟨hget ▸ heq, index, hlt, hget, fun j hj => by
      simpa using hbefore j hj⟩
  rw [state?, hfind, Option.map_some]

-- No buffer is on record twice.
theorem Books.index_eq (hbooks : Books rest s) {index' : Nat} {b' : Binding}
    (hb : s.part.bindings[index]? = some b) (hb' : s.part.bindings[index']? = some b')
    (hid : b.state.buffer = some id) (hid' : b'.state.buffer = some id) : index = index' := by
  have hheld : (s.part.held.map Prod.fst).Nodup := by
    cases hplace : s.part.activePlace? with
    | none =>
      rw [hbooks.housed hplace]
      exact List.nodup_nil
    | some place =>
      have hnodup := (hbooks.orderly place).nodup
      have hbalanced := (hbooks.balanced place).map Prod.fst
      rw [← Memory.map_fst_live, hbalanced.nodup_iff, List.map_append, heldAt, if_pos hplace] at hnodup
      exact (List.nodup_append.mp hnodup).1
  rw [held, List.Nodup, List.pairwise_map, List.pairwise_filterMap, List.pairwise_iff_getElem] at hheld
  obtain ⟨hlt, rfl⟩ := List.getElem?_eq_some_iff.mp hb
  obtain ⟨hlt', rfl⟩ := List.getElem?_eq_some_iff.mp hb'
  have hkey {b : Binding} (hid : b.state.buffer = some id) : b.key? = some (id, b.state.size) := by
    rw [Binding.key?, hid, Option.map_some]
  have hnot {i j : Nat} (hi : i < s.part.bindings.length) (hj : j < s.part.bindings.length)
      (hidi : s.part.bindings[i].state.buffer = some id) (hidj : s.part.bindings[j].state.buffer = some id) :
      ¬i < j := fun hlt =>
    hheld i j hi hj hlt _ (hkey hidi) _ (hkey hidj) rfl
  have := hnot hlt hlt' hid hid'
  have := hnot hlt' hlt hid' hid
  omega

-- What is allowed in order to give each of some arguments a buffer.
def Takes (threads : Nat) (arguments : List Argument) (u : Hosted Context) : Deal → Prop
  | .attach index => ∃ a ∈ arguments, u.part.objectIndex? a.object.handle = some index
  | .detach index => ∃ a ∈ arguments, a.access.writes ∧ ∃ b, u.part.Places a.object.handle index b ∧
      b.state.size ≠ Machine.argumentSize u.platform.registry a.object threads
  | _ => False

theorem Takes.mono {arguments' : List Argument} (hsub : arguments ⊆ arguments') {d : Deal}
    (h : Takes threads arguments u d) : Takes threads arguments' u d := by
  cases d with
  | attach index =>
    obtain ⟨a, ha, hindex⟩ := h
    exact ⟨a, hsub ha, hindex⟩
  | detach index =>
    obtain ⟨a, ha, hplaces⟩ := h
    exact ⟨a, hsub ha, hplaces⟩
  | _ => exact h.elim

theorem memory_allocate {c : Context} {memory : Memory} (hlt : place < s.platform.channels.length)
    (h : (s.device place).memory.allocate size = .ok (id, memory)) :
    (Hosted.device place ⟨(Platform.onChannel place (Channel.allocate size) s.platform).2, c⟩).memory =
      memory := by
  obtain ⟨channel, hchannel, hdevice⟩ := Channel.allocate_of_ok h
  rw [Hosted.device, Platform.channel_onChannel hlt, hchannel, hdevice]

theorem memory_release {c : Context} (hlt : place < s.platform.channels.length) (id : BufferId) :
    (Hosted.device place ⟨(Platform.onChannel place (Channel.release id) s.platform).2, c⟩).memory =
      (s.device place).memory.release id := by
  rw [Hosted.device, Platform.channel_onChannel hlt]
  rfl

theorem allocateBuffer_deals (hactive : s.part.active = some device)
    (hdevice : s.part.devices[device]? = some place) (hb : s.part.bindings[index]? = some b)
    (hnone : b.state.buffer = none) (hattach : A s (.attach index)) (k : Handle) :
    (allocateBuffer device index size k).Ends s fun _ t => Deals A s t := by
  cases hmemory : (s.device place).memory.allocate size with
  | error cause =>
    obtain ⟨e, hcall⟩ := allocateBuffer_of_error hdevice hmemory k
    rw [Action.Ends, hcall]
    exact .of_calm (calm_channel (Channel.calm_allocate_of_error hmemory))
  | ok result =>
    rw [Action.Ends, allocateBuffer_of_ok hdevice hmemory]
    exact .of_does (.attach (activePlace?_eq hactive hdevice) hb hnone hmemory) hattach

theorem replaceBuffer_deals (hactive : s.part.active = some device)
    (hb : s.part.bindings[index]? = some b)
    (hattach : ∀ u, u.part.objects = s.part.objects → A u (.attach index))
    (hdetach : b.state.buffer.isSome → A s (.detach index)) :
    (replaceBuffer device index size b).Ends s fun _ t => Deals A s t := by
  unfold replaceBuffer
  refine Action.Ends.bind_get (Action.Ends.bind_lift (fun place hplace => ?_) fun _ _ =>
    Relation.ReflTransGen.refl)
  rw [Context.place_ok] at hplace
  cases hold : b.state.buffer with
  | none => exact allocateBuffer_deals hactive hplace hb hold (hattach s rfl) _
  | some old =>
    let released : Hosted Context :=
      { platform := (Platform.onChannel place (Channel.release old) s.platform).2,
        part := s.part.modifyState index ObjectState.detach }
    have hrelease : Does (.detach index) s released := .detach (activePlace?_eq hactive hplace) hb hold
    have hb' : released.part.bindings[index]? = some { b with state := b.state.detach } :=
      getElem?_modify_of_some hb fun b => { b with state := b.state.detach }
    refine Action.Ends.bind_modify (Action.Ends.bind_of_ok
      (onDevice_eq (s := { s with part := s.part.modifyState index ObjectState.detach }) hplace _) ?_)
    have hallocate : (allocateBuffer device index size b.object.handle).Ends released fun _ t =>
        Deals A released t :=
      allocateBuffer_deals (s := released) hactive hplace hb' rfl
        (hattach released (objects_modifyState _ _ _)) _
    exact hallocate.mono fun _ _ ht => (Deals.of_does hrelease (hdetach (by rw [hold]; rfl))).trans ht

theorem ensureBuffer_deals (hactive : s.part.active = some device)
    (hattach : ∀ u, u.part.objects = s.part.objects → A u (.attach index))
    (hdetach : ∀ b, s.part.bindings[index]? = some b → b.state.buffer.isSome → b.state.size ≠ size →
      A s (.detach index)) :
    (ensureBuffer device index size).Ends s fun _ t => Deals A s t := by
  refine ensureBuffer_ends (fun _ _ => Relation.ReflTransGen.refl) (fun _ _ _ _ _ => Relation.ReflTransGen.refl)
    fun b hb hdiffers => ?_
  have hb := binding_ok.mp hb
  exact replaceBuffer_deals hactive hb hattach fun hsome => hdetach b hb hsome (hdiffers hsome)

-- Getting buffers and giving them back leaves the host alone.
theorem Deals.registry_eq (h : Deals (fun _ d => d = .attach index ∨ d = .detach index) s t)
    (hbooks : Books rest s) : t.platform.registry = s.platform.registry := by
  refine h.keep (I := fun u => u.platform.registry = s.platform.registry) hbooks rfl
    (fun _ _ hc hu => hc.registry.trans hu) fun d u v _ hd hdoes hu => ?_
  rcases hd with rfl | rfl <;> cases hdoes <;> exact hu

-- An object has the buffer that it had in `s`, or an argument that writes it wanted another one.
def Retained (threads : Nat) (arguments : List Argument) (place index : Nat) (b : Binding) (id : BufferId)
    (s u : Hosted Context) : Prop :=
  (∃ b', u.part.bindings[index]? = some b' ∧ b'.state.buffer = some id ∧ b'.state.size = b.state.size) ∨
    (∃ a ∈ arguments, a.access.writes ∧ s.part.objectIndex? a.object.handle = some index ∧
      b.state.size ≠ Machine.argumentSize s.platform.registry a.object threads) ∧
    (u.device place).memory.Gone id

theorem argumentSize_of_lengths {registry registry' : Registry}
    (h : ∀ k, registry'.byteLength k = registry.byteLength k) (o : HostObject) (threads : Nat) :
    Machine.argumentSize registry' o threads = Machine.argumentSize registry o threads := by
  rw [Machine.argumentSize, Machine.argumentSize, h]

-- While arguments get their buffers, only those that write take one away.
theorem Deals.retains (hdeals : Deals (Takes threads arguments) s t) (hbooks : Books rest s)
    (hplace : s.part.activePlace? = some place) (hb : s.part.bindings[index]? = some b)
    (hid : b.state.buffer = some id) : Retained threads arguments place index b id s t := by
  refine (hdeals.keep (I := fun u => u.part.activePlace? = some place ∧
      Retained threads arguments place index b id s u) hbooks
    ⟨hplace, .inl ⟨b, hb, hid, rfl⟩⟩ (fun u v hc ⟨hu, hkept⟩ => ⟨?_, ?_⟩)
    fun d u v hsustains hA hdoes ⟨hu, hkept⟩ => ?_).2
  case refine_1 =>
    rw [activePlace?, hc.active, hc.devices]
    exact hu
  case refine_2 =>
    have hmemory : (v.device place).memory = (u.device place).memory := (hc.channels place).device.memory
    rw [Retained, hc.bindings, hmemory]
    exact hkept
  case refine_3 =>
    have hlt := hsustains.books.place_lt hu
    cases hdoes with
    | @attach _ index' size place' b' id' memory hplace' hb' hnone hmemory =>
      cases hu.symm.trans hplace'
      have hnew := memory_allocate (c := u.part.modifyState index' (·.attach id' size)) hlt hmemory
      refine ⟨hu, ?_⟩
      rcases hkept with ⟨x, hx, hxid, hsize⟩ | ⟨ha, hgone⟩
      case inr => exact .inr ⟨ha, hnew ▸ hgone.allocate hmemory⟩
      case inl =>
        have hne : index' ≠ index := fun heq => by
          subst heq
          cases hx.symm.trans hb'
          cases hnone.symm.trans hxid
        exact .inl ⟨x, by simp [modifyState, hne, hx], hxid, hsize⟩
    | @detach _ index' place' b' id' hplace' hb' hid' =>
      cases hu.symm.trans hplace'
      have hnew := memory_release (c := u.part.modifyState index' ObjectState.detach) hlt id'
      refine ⟨hu, ?_⟩
      rcases hkept with ⟨x, hx, hxid, hsize⟩ | ⟨ha, hgone⟩
      case inr => exact .inr ⟨ha, hnew ▸ hgone.release id'⟩
      case inl =>
        by_cases heq : index' = index
        case neg => exact .inl ⟨x, by simp [modifyState, heq, hx], hxid, hsize⟩
        case pos =>
          subst heq
          cases hx.symm.trans hb'
          cases hxid.symm.trans hid'
          obtain ⟨a, ha, hwrites, y, hy, hdiffers⟩ := hA
          cases hx.symm.trans hy.2
          obtain ⟨buffer, hbuffer, _⟩ := (hsustains.books.orderly place).buffer?_of_mem
            (hsustains.books.mem_live hu (List.mem_of_getElem? hx) hxid)
          refine .inr ⟨⟨a, ha, hwrites, ?_, ?_⟩, ?_⟩
          case refine_1 => rw [← hsustains.stable.objectIndex?_eq]; exact hy.1
          case refine_2 =>
            rw [← hsize, ← argumentSize_of_lengths hsustains.stable.lengths]
            exact hdiffers
          case refine_3 =>
            exact hnew ▸ Memory.gone_release (hsustains.books.orderly place).sound hbuffer
    | fill | miss | run | mark | deliver | own | clear | turn => exact hA.elim

-- An argument that has got its buffer, of the size it wanted if it writes.
def Supplied (threads : Nat) (t : Hosted Context) (a : Argument) (id : BufferId) : Prop :=
  ∃ index b, t.part.Places a.object.handle index b ∧ b.state.buffer = some id ∧
    (a.access.writes → b.state.size = Machine.argumentSize t.platform.registry a.object threads)

theorem argumentBuffer_deals (hbooks : Books rest s) (hactive : s.part.active = some device) (a : Argument) :
    (Machine.argumentBuffer device threads a).Ends s fun result t =>
      Deals (Takes threads [a]) s t ∧ ∀ id, result = .ok id → Supplied threads t a id := by
  unfold Machine.argumentBuffer
  refine Action.Ends.bind_get (Action.Ends.bind_lift (fun index hindex => ?_) fun _ _ =>
    ⟨Relation.ReflTransGen.refl, nofun⟩)
  refine Action.Ends.bind_lift (fun b hb => ?_) fun _ _ => ⟨Relation.ReflTransGen.refl, nofun⟩
  have hindex := objectIndex_ok.mp hindex
  have hb := binding_ok.mp hb
  have hensure (hallowed : b.state.buffer.isSome → a.access.writes) :
      (ensureBuffer device index (Machine.argumentSize s.platform.registry a.object threads)).Ends s
        fun result t => Deals (Takes threads [a]) s t ∧ ∀ id, result = .ok id → Supplied threads t a id := by
    refine ⟨ensureBuffer_deals hactive (fun u hu => ⟨a, List.mem_singleton_self a, ?_⟩)
      fun x hx hsome hdiffers => ⟨a, List.mem_singleton_self a, ?_, x, ⟨hindex, hx⟩, hdiffers⟩,
      fun id hid => ?_⟩
    case refine_1 => rwa [objectIndex?_eq, hu, ← objectIndex?_eq]
    case refine_2 =>
      cases hb.symm.trans hx
      exact hallowed hsome
    case refine_3 =>
      obtain ⟨hu, hfurnished⟩ := ensureBuffer_upholds (P := False) hbooks hactive index
        (Machine.argumentSize s.platform.registry a.object threads)
      obtain ⟨⟨x, hx, hid, hsize⟩, _⟩ := hfurnished id hid
      refine ⟨index, x, ⟨?_, hx⟩, hid, fun _ => ?_⟩
      case refine_1 => rwa [hu.stable.objectIndex?_eq]
      case refine_2 => rw [hsize, argumentSize_of_lengths hu.stable.lengths]
  dsimp only
  split
  case h_2 hnone => exact hensure fun hsome => by rw [hnone] at hsome; cases hsome
  case h_1 buffer hbuffer =>
    split
    case isFalse hwrites => exact hensure fun _ => by simpa using hwrites
    case isTrue hreads =>
      refine ⟨Relation.ReflTransGen.refl, fun id hid => ?_⟩
      cases hid
      exact ⟨index, b, ⟨hindex, hb⟩, hbuffer, fun hwrites => by simp [hwrites] at hreads⟩

-- What was got for an argument is still there after the later ones, if they agree with it.
theorem Supplied.retained {a : Argument} (hsupplied : Supplied threads s a id)
    (hdeals : Deals (Takes threads arguments) s t) (hbooks : Books rest s)
    (hplace : s.part.activePlace? = some place) :
    (∃ index b, t.part.Places a.object.handle index b ∧ b.state.buffer = some id) ∨
      (¬(∀ later ∈ arguments, a.Agrees later) ∧ (t.device place).memory.Gone id) := by
  obtain ⟨index, b, hb, hid, hsize⟩ := hsupplied
  rcases hdeals.retains hbooks hplace hb.2 hid with
    ⟨x, hx, hxid, _⟩ | ⟨⟨later, hlater, hwrites, hindex, hdiffers⟩, hgone⟩
  case inl =>
    have hstable := (hdeals.sustains hbooks).stable
    exact .inl ⟨index, x, ⟨by rw [hstable.objectIndex?_eq]; exact hb.1, hx⟩, hxid⟩
  case inr =>
    refine .inr ⟨fun hagree => hdiffers ?_, hgone⟩
    have hsame : later.object.handle = a.object.handle :=
      (Places.handle ⟨hindex, hb.2⟩).symm.trans hb.handle
    obtain ⟨hawrites, hobject⟩ := hagree later hlater hsame hwrites
    rw [hsize hawrites, hobject]

theorem argumentBuffers_deals (hbooks : Books rest s) (hactive : s.part.active = some device)
    (hdevice : s.part.devices[device]? = some place) (arguments : List Argument) :
    (arguments.mapM (Machine.argumentBuffer device threads)).Ends s fun result t =>
      Deals (Takes threads arguments) s t ∧
        ∀ ids, result = .ok ids → t.part.Collected (t.device place).memory arguments ids := by
  induction arguments generalizing s with
  | nil =>
    refine ⟨Relation.ReflTransGen.refl, fun ids hids => ?_⟩
    cases hids
    exact .nil
  | cons a arguments ih =>
    rw [List.mapM_cons]
    have hfirst : [a] ⊆ a :: arguments := by simp
    refine (argumentBuffer_deals hbooks hactive a).bind (fun id u ⟨hu, hsupplied⟩ => ?_)
      fun _ _ ⟨hu, _⟩ => ⟨hu.mono fun _ _ h => h.mono hfirst, nofun⟩
    have hsustains := hu.sustains hbooks
    have hactive' : u.part.active = some device := by
      rw [hu.active_eq hbooks fun _ _ h => h.elim]
      exact hactive
    have hdevice' : u.part.devices[device]? = some place := hsustains.stable.devices ▸ hdevice
    have hall {v : Hosted Context} (hv : Deals (Takes threads arguments) u v) :
        Deals (Takes threads (a :: arguments)) s v :=
      (hu.mono fun _ _ h => h.mono hfirst).trans
        (hv.mono fun _ _ h => h.mono (List.subset_cons_self a arguments))
    refine (ih hsustains.books hactive' hdevice').bind (fun ids v ⟨hv, hcollected⟩ => ?_)
      fun _ _ ⟨hv, _⟩ => ⟨hall hv, nofun⟩
    refine ⟨hall hv, fun _ hids => ?_⟩
    cases hids
    exact .cons ((hsupplied id rfl).retained hv hsustains.books (activePlace?_eq hactive' hdevice'))
      (hcollected ids rfl)

-- An object has data that the host may take.
def Valid (c : Context) (index : Nat) : Prop :=
  ∃ b, c.bindings[index]? = some b ∧ b.state.isValid

-- The object with a handle has data that the host may take.
def Offers (c : Context) (h : Handle) : Prop :=
  ∃ b ∈ c.bindings, b.object.handle = h ∧ b.state.isValid

theorem Calm.valid (h : Calm s t) : t.part.Valid index ↔ s.part.Valid index := by
  rw [Valid, Valid, h.bindings]

theorem Offers.calm (hc : Calm s t) (hs : s.part.Offers h) : t.part.Offers h := by
  rw [Offers, hc.bindings]
  exact hs

-- Marks keep whatever they keep of a single state.
theorem exists_markArguments {c : Context} {Q : ObjectState → Prop} {offset : Nat}
    (hQ : ∀ st : ObjectState, Q st → Q (st.markWritten offset))
    (h : ∃ b, c.bindings[index]? = some b ∧ Q b.state) (arguments : List Argument) :
    ∃ b, (arguments.foldl (markArgument offset) c).bindings[index]? = some b ∧ Q b.state := by
  induction arguments generalizing c with
  | nil => exact h
  | cons a arguments ih =>
    refine ih ?_
    unfold markArgument
    split
    case h_2 => exact h
    case h_1 other _ =>
      split
      case isFalse => exact h
      case isTrue =>
        obtain ⟨b, hb, hstate⟩ := h
        by_cases heq : other = index
        case pos =>
          subst heq
          exact ⟨_, getElem?_modify_of_some hb _, hQ _ hstate⟩
        case neg => exact ⟨b, by simp [modifyState, heq, hb], hstate⟩

theorem objects_markArguments (c : Context) (offset : Nat) (arguments : List Argument) :
    (arguments.foldl (markArgument offset) c).objects = c.objects := by
  induction arguments generalizing c with
  | nil => rfl
  | cons a arguments ih =>
    rw [List.foldl_cons, ih]
    unfold markArgument
    split
    case h_2 => rfl
    case h_1 =>
      split
      case isTrue => exact objects_modifyState _ _ _
      case isFalse => rfl

theorem isValid_markWritten_of_isValid (offset : Nat) (st : ObjectState) (h : st.isValid) :
    (st.markWritten offset).isValid := by
  rw [ObjectState.isValid_markWritten]
  exact (Bool.and_eq_true_iff.mp h).1

theorem Valid.markWritten {c : Context} (h : c.Valid index) (t : Task) (offset : Nat) :
    (c.markWritten t offset).Valid index :=
  exists_markArguments (isValid_markWritten_of_isValid offset) h t.arguments

-- What a mark gives the state of an object, and later marks keep, is there once all results count as written.
theorem exists_markWritten {c : Context} {t : Task} {a : Argument} {Q : ObjectState → Prop} {offset : Nat}
    (hmark : ∀ st : ObjectState, st.buffer.isSome → Q (st.markWritten offset))
    (hkeep : ∀ st : ObjectState, Q st → Q (st.markWritten offset)) (ha : a ∈ t.arguments) (hwrites : a.access.writes)
    (hindex : c.objectIndex? a.object.handle = some index) (hfilled : c.Filled index) :
    ∃ b, (c.markWritten t offset).bindings[index]? = some b ∧ Q b.state := by
  obtain ⟨pre, post, hsplit⟩ := List.append_of_mem ha
  rw [Context.markWritten, hsplit, List.foldl_append, List.foldl_cons]
  have hobjects := objects_markArguments c offset pre
  have hkept : ∃ b, (pre.foldl (markArgument offset) c).bindings[index]? = some b ∧ b.state.buffer.isSome :=
    exists_markArguments (Q := (·.buffer.isSome)) (fun _ h => h) hfilled pre
  generalize pre.foldl (markArgument offset) c = c' at hobjects hkept
  refine exists_markArguments hkeep ?_ post
  have hindex' : c'.objectIndex? a.object.handle = some index := by
    rwa [objectIndex?_eq, hobjects, ← objectIndex?_eq]
  obtain ⟨b, hb, hsome⟩ := hkept
  have hmarked : markArgument offset c' a = c'.modifyState index (·.markWritten offset) := by
    simp only [markArgument, hindex', hwrites, if_true]
  rw [hmarked]
  exact ⟨_, getElem?_modify_of_some hb _, hmark b.state hsome⟩

-- What a task writes can be taken, once the results count as written.
theorem valid_markWritten {c : Context} {t : Task} {a : Argument} (ha : a ∈ t.arguments)
    (hwrites : a.access.writes) (hindex : c.objectIndex? a.object.handle = some index)
    (hfilled : c.Filled index) (offset : Nat) : (c.markWritten t offset).Valid index :=
  exists_markWritten (Q := (·.isValid)) (fun st h => by rwa [ObjectState.isValid_markWritten])
    (isValid_markWritten_of_isValid offset) ha hwrites hindex hfilled

end Context

-- What an instruction may do, when it is issued in state `s` and waits for the events of `wait`.
def Instruction.Permits (s : Hosted Context) (wait : List EventId) :
    Instruction → Hosted Context → Deal → Prop
  | .context _, _, .clear => True
  | .context device, _, .turn device' => device' = device
  | .streamIn object _ _ _, _, .attach index | .streamIn object _ _ _, _, .detach index
  | .streamIn object _ _ _, _, .miss index => index = object
  | .streamIn object offset _ _, _, .fill index offset' wait' =>
    index = object ∧ wait' = wait ∧ (offset' = offset ∨ offset' = 0)
  | .launch task _ _ _ _, _, .run t => s.part.tasks[task]? = some t
  | .launch task _ _ offset _, _, .mark t offset' => s.part.tasks[task]? = some t ∧ offset' = offset
  | .launch task _ _ _ threads, u, d =>
    ∃ t, s.part.tasks[task]? = some t ∧ Context.Takes threads t.arguments u d
  | .streamOut object offset length _, u, .deliver index offset' length'
  | .streamOutBlocking object offset length _, u, .deliver index offset' length' =>
    u = s ∧ index = object ∧ offset' = offset ∧ ∃ b, s.part.bindings[object]? = some b ∧
      length' = Machine.transferSize s.platform.registry b.object length
  | .streamOutBlocking object _ _ _, _, .own index => index = object
  | _, _, _ => False

namespace Machine

open Context

variable {rest : Nat → List (BufferId × Nat)} {s t u : Hosted Context} {m : Machine}
  {A : Hosted Context → Deal → Prop} {r : Run} {i : Instruction} {place device k object offset length : Nat}
  {wait : List EventId} {list : Option Nat}

theorem permits_of_takes {task device offset threads : Nat} {task' : Task} {d : Deal}
    (htask : s.part.tasks[task]? = some task') (h : Takes threads task'.arguments u d) :
    (Instruction.launch task device list offset threads).Permits s wait u d := by
  cases d with
  | attach | detach => exact ⟨task', htask, h⟩
  | _ => exact h.elim

-- Writing to a buffer and putting it on record: a buffer that could not be written to is as it was.
theorem fill_deals {A : Except Error (Option EventId) → Hosted Context → Deal → Prop} {tgt : Target}
    {b : Binding} {id : BufferId} {data : Bytes} (blocking : Bool) (size : Nat)
    (hplace : s.part.activePlace? = some tgt.place) (hb : s.part.bindings[object]? = some b)
    (hid : b.state.buffer = some id)
    (hdata : s.platform.registry.window b.object offset b.state.size = .ok data)
    (hmiss : ∀ e, A (.error e) s (.miss object)) (hfill : ∀ result, A result s (.fill object offset wait)) :
    (do let event ← onTarget tgt (Channel.write id data wait blocking)
        modifyContext (·.modifyState object (·.markWritten offset))
        m.count (·.countIn size)
        return some event : On (Option EventId)).Ends s fun result t => Deals (A result) s t ∧
      ∀ e, result = .ok e → ∃ b', t.part.bindings[object]? = some b' ∧ b'.object = b.object ∧
        b'.state.isValid ∧ b'.state.hostOffset = offset := by
  rcases hwrite : Channel.write id data wait blocking (s.platform.channel tgt.place) with ⟨e | event, c⟩
  case error =>
    refine Action.Ends.bind_of_error (by rw [onTarget_eq, hwrite]) ⟨?_, nofun⟩
    have hdoes : Does (.miss object) s _ := .miss hplace hb hid hdata (congrArg Prod.fst hwrite)
    rw [Platform.onChannel_apply, hwrite] at hdoes
    exact Deals.of_does hdoes (hmiss e)
  case ok =>
    refine Action.Ends.bind_of_ok (by rw [onTarget_eq, hwrite]) (Action.Ends.bind_modify ?_)
    have hdoes : Does (.fill object offset wait) s _ :=
      .fill hplace hb hid hdata (congrArg Prod.fst hwrite)
    rw [Platform.onChannel_apply, hwrite] at hdoes
    refine (Action.Keeps.bind calm_lasting (calm_count m _) (fun _ => .pure calm_lasting _) _).mono
      fun result v hv => ⟨(Deals.of_does hdoes (hfill result)).trans (Deals.of_calm hv), fun _ _ => ?_⟩
    rw [hv.bindings]
    refine ⟨_, getElem?_modify_of_some hb _, rfl, ?_, rfl⟩
    rw [ObjectState.isValid_markWritten, hid]
    rfl

-- A stream-in that does well misses nothing, and leaves its object valid, and an array with the window asked
-- for.
theorem streamIn_deals (hbooks : Books rest s) (hplaced : r.Placed s) :
    (m.streamIn r object offset length wait).Ends s fun result t =>
      Deals (fun u d => (Instruction.streamIn object offset length list).Permits s wait u d ∧
        (result.isOk → d ≠ .miss object)) s t ∧
        ∀ e, result = .ok e → ∃ b, t.part.bindings[object]? = some b ∧ b.state.isValid ∧
          (b.object.isScalar = false → b.state.hostOffset = offset) := by
  unfold streamIn
  refine Action.Ends.bind_lift (fun tgt ht => ?_) fun _ _ => ⟨Relation.ReflTransGen.refl, nofun⟩
  obtain ⟨hactive, hplace⟩ := hplaced tgt (Run.device_ok.mp ht)
  refine Action.Ends.bind_get ?_
  refine Action.Ends.bind_lift (fun b hb => ?_) fun _ _ => ⟨Relation.ReflTransGen.refl, nofun⟩
  have hb := binding_ok.mp hb
  dsimp only
  generalize hsize : transferSize s.platform.registry b.object length = size
  have hensure : (ensureBuffer tgt.index object size).Ends s fun result t =>
      (∀ result : Except Error (Option EventId),
        Deals (fun u d => (Instruction.streamIn object offset length list).Permits s wait u d ∧
          (result.isOk → d ≠ .miss object)) s t) ∧
        t.platform.registry = s.platform.registry ∧
          Upholds False rest s t ∧ ∀ id, result = .ok id → Furnished object size id s t := by
    have hdeals : (ensureBuffer tgt.index object size).Ends s fun _ t =>
        Deals (fun _ d => d = .attach object ∨ d = .detach object) s t :=
      ensureBuffer_deals hactive (fun _ _ => .inl rfl) fun _ _ _ _ => .inr rfl
    refine ⟨fun _ => Deals.mono hdeals fun _ d hd => ?_, Deals.registry_eq hdeals hbooks,
      ensureBuffer_upholds hbooks hactive object size⟩
    rcases hd with rfl | rfl <;> exact ⟨rfl, nofun⟩
  refine hensure.bind (fun id u ⟨hdeals, hregistry, hu, hfurnished⟩ => ?_) fun _ _ ⟨hdeals, _⟩ =>
    ⟨hdeals _, nofun⟩
  obtain ⟨⟨x, hx, hid, hxsize⟩, _⟩ := hfurnished id rfl
  obtain ⟨x', hx', hobject⟩ := hu.stable.binding? hb
  cases hx.symm.trans hx'
  refine Action.Ends.bind_get ?_
  rw [binding_ok.mpr hx]
  refine Action.Ends.bind_of_ok (Action.lift_apply _ u) ?_
  split
  case isTrue hskips =>
    refine ⟨hdeals _, fun _ _ => ⟨x, hx, ?_, fun harray => ?_⟩⟩
    case refine_1 =>
      rw [(hu.books.tidy x (List.mem_of_getElem? hx)).isValid_eq]
      exact hskips.2.1
    case refine_2 =>
      rw [hobject] at harray
      simp [harray] at hskips
  case isFalse =>
    refine Action.Ends.bind_get (Action.Ends.bind_lift (fun data hdata => ?_) fun _ _ => ⟨hdeals _, nofun⟩)
    rw [← hregistry, ← hobject, ← hxsize] at hdata
    have hoffset : (if b.object.isScalar then 0 else offset) = offset ∨
        (if b.object.isScalar then 0 else offset) = 0 := by
      split
      case isTrue => exact .inr rfl
      case isFalse => exact .inl rfl
    have hplace' : u.part.activePlace? = some tgt.place :=
      activePlace?_eq (hu.active.trans hactive) (hu.stable.devices ▸ hplace)
    refine (fill_deals _ size hplace' hx hid (hobject ▸ hdata) (fun _ => ⟨rfl, nofun⟩)
      fun _ => ⟨⟨rfl, rfl, hobject ▸ hoffset⟩, nofun⟩).mono
      fun result t ⟨hfill, hok⟩ => ⟨(hdeals result).trans hfill, fun e he => ?_⟩
    obtain ⟨b', hb', hobject', hvalid, hfrom⟩ := hok e he
    refine ⟨b', hb', hvalid, fun harray => ?_⟩
    rw [hobject', hobject] at harray
    rw [hfrom, harray]
    rfl

theorem calm_record (index : Nat) (event : Option EventId) : (m.record r index event).Keeps Calm := by
  have hR := calm_lasting
  unfold record
  exact .bind hR (calm_count m _) fun _ => .pure hR _

theorem calm_checkLaunch (device : Nat) (t : Task) (event : EventId) :
    (checkLaunch device t event).Keeps Calm := by
  have hR := calm_lasting
  unfold checkLaunch
  refine .bind hR (calm_onDevice (Channel.calm_wait _) device) fun _ =>
    .bind hR (calm_onDevice (Channel.calm_resolve _) device) fun _ => ?_
  split
  case h_1 => exact .throw hR _
  case h_2 => exact .pure hR _

theorem calm_synchronize {call : List EventId → Action Channel EventId}
    (hcall : ∀ events, (call events).Keeps Channel.Calm) (index : Nat) (list : Option Nat) :
    (m.synchronize r index call list).Keeps Calm := by
  have hR := calm_lasting
  unfold synchronize
  exact .bind hR (.lift hR _) fun _ => .bind hR (calm_onPlatform (hcall _) _) fun _ =>
    .bind hR (calm_count m _) fun _ => calm_record _ _

-- The results of a launch count as written, if all arguments have buffers.
theorem mark_deals {task threads : Nat} {t : Task} (ht : s.part.tasks[task]? = some t)
    (hdeals : Deals ((Instruction.launch task device list offset threads).Permits s wait) s u)
    (hobjects : u.part.objects = s.part.objects)
    (hfilled : ∀ a ∈ t.arguments, ∀ index, u.part.objectIndex? a.object.handle = some index →
      u.part.Filled index) :
    Deals ((Instruction.launch task device list offset threads).Permits s wait) s
        { u with part := u.part.markWritten t offset } ∧
      ∀ a ∈ t.arguments, a.access.writes → ∀ index,
        s.part.objectIndex? a.object.handle = some index → (u.part.markWritten t offset).Valid index := by
  refine ⟨hdeals.trans (Deals.of_does (.mark hfilled) ⟨ht, rfl⟩), fun a ha hwrites index hfound => ?_⟩
  rw [objectIndex?_eq, ← hobjects, ← objectIndex?_eq] at hfound
  exact valid_markWritten ha hwrites hfound (hfilled a ha index hfound) offset

-- A launch that does well leaves all that its task writes valid.
theorem launch_deals {task threads : Nat} (hbooks : Books rest s) (hactive : s.part.active = some device)
    (hdevice : s.part.devices[device]? = some place) :
    (m.launch task device offset threads wait).Ends s fun result t =>
      Deals ((Instruction.launch task device list offset threads).Permits s wait) s t ∧
        ∀ e, result = .ok e → ∃ task', s.part.tasks[task]? = some task' ∧
          ∀ a ∈ task'.arguments, a.access.writes → ∀ index,
            s.part.objectIndex? a.object.handle = some index → t.part.Valid index := by
  unfold launch
  refine (calm_kernel device task s).bind (fun kernel u hu => ?_) fun _ _ hu => ⟨.of_calm hu, nofun⟩
  have hstill := hu.still.upholds hbooks
  have hdeals := Deals.of_calm (A := (Instruction.launch task device list offset threads).Permits s wait) hu
  have hactive' : u.part.active = some device := hu.active.trans hactive
  have hdevice' : u.part.devices[device]? = some place := hu.devices ▸ hdevice
  refine Action.Ends.bind_get (Action.Ends.bind_lift (fun _ _ => ?_) fun _ _ => ⟨hdeals, nofun⟩)
  refine Action.Ends.bind_get (Action.Ends.bind_lift (fun t ht => ?_) fun _ _ => ⟨hdeals, nofun⟩)
  have ht : s.part.tasks[task]? = some t := hu.tasks ▸ task_ok.mp ht
  have hbuffers : (t.arguments.mapM (argumentBuffer device threads)).Ends u fun result v =>
      (Deals (Takes threads t.arguments) u v ∧
        ∀ ids, result = .ok ids → v.part.Collected (v.device place).memory t.arguments ids) ∧
      Upholds False rest u v ∧ ∀ ids, result = .ok ids →
        (∀ other, u.part.Filled other → v.part.Filled other) ∧
          ∀ a ∈ t.arguments, ∀ index, u.part.objectIndex? a.object.handle = some index →
            v.part.Filled index :=
    ⟨argumentBuffers_deals hstill.books hactive' hdevice' t.arguments,
      argumentBuffers_upholds hstill.books hactive' threads t.arguments⟩
  have hall {v : Hosted Context} (hv : Deals (Takes threads t.arguments) u v) :
      Deals ((Instruction.launch task device list offset threads).Permits s wait) s v :=
    hdeals.trans (hv.mono fun _ _ h => permits_of_takes ht h)
  refine hbuffers.bind (fun ids v ⟨⟨hv, hcollected⟩, hupholds, hfilled⟩ => ?_) fun _ _ ⟨⟨hv, _⟩, _⟩ =>
    ⟨hall hv, nofun⟩
  refine Action.Ends.bind_get (Action.Ends.bind_lift (fun geometry _ => ?_) fun _ _ => ⟨hall hv, nofun⟩)
  obtain ⟨_, hfilled⟩ := hfilled ids rfl
  have hstable := hupholds.stable
  have hdevice'' : v.part.devices[device]? = some place := hstable.devices ▸ hdevice'
  have htasks : v.part.tasks = s.part.tasks := hstable.tasks.trans hu.tasks
  have hmember : t ∈ v.part.tasks := htasks ▸ List.mem_of_getElem? ht
  have hrun : Does (.run t) v _ := .run kernel geometry wait
    (activePlace?_eq (hupholds.active.trans hactive') hdevice'') hmember (hcollected ids rfl)
  have hran := (hall hv).trans (Deals.of_does hrun ht)
  -- from here on nothing is done until the results count as written
  have hcount := calm_count m Counters.countLaunch
  have hmark {w : Hosted Context} (hw : Calm { v with platform := (Platform.onChannel place
        (Channel.launch kernel ids geometry wait) v.platform).2 } w) :
      Deals ((Instruction.launch task device list offset threads).Permits s wait) s
          { w with part := w.part.markWritten t offset } ∧
        ∀ a ∈ t.arguments, a.access.writes → ∀ index,
          s.part.objectIndex? a.object.handle = some index → (w.part.markWritten t offset).Valid index := by
    have hobjects : w.part.objects = u.part.objects := by
      rw [objects, hw.bindings]
      exact hstable.objects
    refine mark_deals ht (hran.trans (Deals.of_calm hw)) (hobjects.trans hstill.stable.objects) ?_
    intro a ha index hfound
    rw [objectIndex?_eq, hobjects, ← objectIndex?_eq] at hfound
    obtain ⟨b, hb, hsome⟩ := hfilled a ha index hfound
    exact ⟨b, hw.bindings ▸ hb, hsome⟩
  have hlaunch := onDevice_eq hdevice'' (Channel.launch kernel ids geometry wait)
  rcases hcall : Channel.launch kernel ids geometry wait (v.platform.channel place) with ⟨e | event, c⟩
  all_goals
    rw [hcall] at hlaunch
    rw [Platform.onChannel_apply, hcall] at hran hmark
  case error => exact Action.Ends.bind_of_error hlaunch ⟨hran, nofun⟩
  case ok =>
    refine Action.Ends.bind_of_ok hlaunch ?_
    refine (hcount _).bind (fun _ x hx => ?_) fun _ _ hx => ⟨hran.trans (Deals.of_calm hx), nofun⟩
    dsimp only
    split
    case isFalse => exact ⟨(hmark hx).1, fun _ _ => ⟨t, ht, (hmark hx).2⟩⟩
    case isTrue =>
      exact (calm_checkLaunch device t event x).bind (fun _ y hy =>
        have hmarked := hmark (calm_lasting.trans hx hy)
        ⟨hmarked.1, fun _ _ => ⟨t, ht, hmarked.2⟩⟩) fun _ _ hy =>
          ⟨hran.trans (Deals.of_calm (calm_lasting.trans hx hy)), nofun⟩

-- What a stream-out leaves to whoever waits for the execution is valid.
theorem streamOut_deals (hplaced : r.Placed s) (blocking : Bool)
    (hdeliver : ∀ b, s.part.bindings[object]? = some b →
      A s (.deliver object offset (transferSize s.platform.registry b.object length)))
    (hown : blocking = true → ∀ u, A u (.own object)) :
    (m.streamOut r object offset length wait blocking).Ends s fun result t => Deals A s t ∧
      ∀ x, result = .ok x → ∀ h ∈ x.2.pending, h ∈ r.pending ∨ t.part.Offers h := by
  unfold streamOut
  refine Action.Ends.bind_lift (fun tgt ht => ?_) fun _ _ => ⟨Relation.ReflTransGen.refl, nofun⟩
  obtain ⟨hactive, hplace⟩ := hplaced tgt (Run.device_ok.mp ht)
  refine Action.Ends.bind_get ?_
  refine Action.Ends.bind_lift (fun b hb => ?_) fun _ _ => ⟨Relation.ReflTransGen.refl, nofun⟩
  have hb := binding_ok.mp hb
  dsimp only
  split
  case h_2 => exact ⟨Relation.ReflTransGen.refl, nofun⟩
  case h_1 id hid =>
    split
    case isTrue => exact ⟨Relation.ReflTransGen.refl, nofun⟩
    case isFalse hsize =>
      have hallowed := hdeliver b hb
      generalize transferSize s.platform.registry b.object length = size at hsize hallowed ⊢
      have hvalid := ObjectState.isValid_of_validBuffer? hid
      have hread : Does (.deliver object offset size) s _ := .deliver offset wait blocking
        (activePlace?_eq hactive hplace) hb hid (Nat.le_of_not_lt hsize)
      have hdelivered := Deals.of_does hread hallowed
      have hplatform : (Hosted.onPlatform (Platform.readBack tgt.place id b.object.handle offset size wait
          blocking) : On EventId).Ends s fun _ u => u = { s with platform :=
            (Platform.readBack tgt.place id b.object.handle offset size wait blocking s.platform).2 } := rfl
      refine hplatform.bind (fun event u hu => ?_) fun _ u hu => ⟨hu ▸ hdelivered, nofun⟩
      subst hu
      refine (calm_count m _ _).bind (fun _ v hv => ?_) fun _ _ hv =>
        ⟨hdelivered.trans (Deals.of_calm hv), nofun⟩
      have hb' : v.part.bindings[object]? = some b := hv.bindings ▸ hb
      split
      case isFalse =>
        refine ⟨hdelivered.trans (Deals.of_calm hv), fun x hx h hh => ?_⟩
        cases hx
        refine (List.mem_append.mp hh).imp_right fun hnew => ?_
        exact ⟨b, List.mem_of_getElem? hb', (List.mem_singleton.mp hnew).symm, hvalid⟩
      case isTrue hblocking =>
        have howned : Does (.own object) v _ :=
          .own (hv.active.trans hactive) hb' hvalid
        refine Action.Ends.bind_modify ⟨(hdelivered.trans (Deals.of_calm hv)).trans
          (Deals.of_does howned (hown hblocking v)), fun x hx h hh => ?_⟩
        cases hx
        exact .inl hh

end Machine

-- What is valid after an instruction that did well, whatever was before it.
def Instruction.Achieves (s t : Hosted Context) : Instruction → Prop
  | .streamIn object offset _ _ => ∃ b, t.part.bindings[object]? = some b ∧ b.state.isValid ∧
      (b.object.isScalar = false → b.state.hostOffset = offset)
  | .launch task _ _ _ _ => ∃ task', s.part.tasks[task]? = some task' ∧
      ∀ a ∈ task'.arguments, a.access.writes → ∀ index,
        s.part.objectIndex? a.object.handle = some index → t.part.Valid index
  | _ => True

theorem Instruction.Achieves.calm {i : Instruction} {s t v : Hosted Context} (h : Context.Calm t v)
    (hi : i.Achieves s t) : i.Achieves s v := by
  cases i with
  | streamIn =>
    obtain ⟨b, hb, hstate⟩ := hi
    exact ⟨b, h.bindings ▸ hb, hstate⟩
  | launch =>
    obtain ⟨task, htask, hvalid⟩ := hi
    exact ⟨task, htask, fun a ha hwrites index hindex => h.valid.mpr (hvalid a ha hwrites index hindex)⟩
  | _ => trivial

namespace Context

variable {rest : Nat → List (BufferId × Nat)} {s t u : Hosted Context}

theorem activate_deals (hbooks : Books rest s) (device : Nat) (wait : List EventId) :
    (activate device).Ends s fun _ t => Deals ((Instruction.context device).Permits s wait) s t := by
  have hturn {u : Hosted Context} (hu : Deals ((Instruction.context device).Permits s wait) s u)
      (hready : u.part.held = [] ∨ u.part.active = some device) :
      Deals ((Instruction.context device).Permits s wait) s
        { u with part := { u.part with active := some device } } :=
    hu.trans (Deals.of_does (.turn hready) rfl)
  unfold activate
  refine Action.Ends.bind_get (Action.Ends.bind_lift (fun place _ => ?_) fun _ _ =>
    Relation.ReflTransGen.refl)
  refine Action.Ends.bind_get ?_
  cases hactive : s.part.active with
  | none =>
    exact hturn .refl (.inl (hbooks.housed (by rw [activePlace?, hactive]; rfl)))
  | some current =>
    dsimp only
    split
    case isTrue =>
      exact hturn (Deals.of_does .clear trivial) (.inl (held_detachAll s.part))
    case isFalse hsame => exact hturn .refl (.inr (Classical.not_not.mp hsame ▸ hactive))

-- Reading back what buffers hold, each to where it came from.
def Returns (u : Hosted Context) : Deal → Prop
  | .deliver index offset _ => ∃ b, u.part.bindings[index]? = some b ∧ b.state.hostOffset = offset
  | .own _ => True
  | _ => False

theorem syncObject_deals {device place : Nat} (hactive : s.part.active = some device)
    (hplace : s.part.devices[device]? = some place) (o : HostObject) :
    (syncObject device place o).Ends s fun _ t => Deals Returns s t := by
  unfold syncObject
  refine Action.Ends.bind_get (Action.Ends.bind_lift (fun index hindex => ?_) fun _ _ =>
    Relation.ReflTransGen.refl)
  refine Action.Ends.bind_lift (fun b hb => ?_) fun _ _ => Relation.ReflTransGen.refl
  have hb := binding_ok.mp hb
  have hobject := handle_of_objectIndex? (objectIndex_ok.mp hindex) hb
  rw [← hobject]
  split
  case h_2 => exact Relation.ReflTransGen.refl
  case h_1 id hid =>
    dsimp only
    generalize hlength : min b.state.size
      (s.platform.registry.byteLength b.object.handle - b.state.hostOffset) = length
    have hvalid := ObjectState.isValid_of_validBuffer? hid
    have hread : Does (.deliver index b.state.hostOffset length) s _ := .deliver b.state.hostOffset [] true
      (activePlace?_eq hactive hplace) hb hid (hlength ▸ Nat.min_le_left _ _)
    have hdelivered := Deals.of_does (A := Returns) hread ⟨b, hb, rfl⟩
    have hplatform : (Hosted.onPlatform (Platform.readBack place id b.object.handle b.state.hostOffset length
        [] true) : On EventId).Ends s fun _ u => u = { s with platform :=
          (Platform.readBack place id b.object.handle b.state.hostOffset length [] true s.platform).2 } := rfl
    refine hplatform.bind (Q := fun _ t => Deals Returns s t) (fun event u hu => ?_) fun _ u hu =>
      hu ▸ hdelivered
    have hactive' : u.part.active = some device := by rw [hu]; exact hactive
    have hown : Does (.own index) u _ := .own (b := b) hactive' (by rw [hu]; exact hb) hvalid
    exact (hu ▸ hdelivered).trans (Deals.of_does hown trivial)

theorem sync_deals (hbooks : Books rest s) (objects : List HostObject) :
    (sync objects).Ends s fun _ t => Deals Returns s t := by
  unfold sync
  refine Action.Ends.bind_get ?_
  dsimp only
  split
  case h_2 => exact Relation.ReflTransGen.refl
  case h_1 device hactive =>
    refine Action.Ends.bind_lift (fun place hplace => ?_) fun _ _ => Relation.ReflTransGen.refl
    have hplace := Context.place_ok.mp hplace
    induction objects generalizing s with
    | nil => exact Relation.ReflTransGen.refl
    | cons o objects ih =>
      refine Action.Ends.bind (syncObject_deals hactive hplace o) (fun _ u hu => ?_) fun _ _ hu => hu
      have hsustains := hu.sustains hbooks
      have hactive' : u.part.active = some device := by
        rw [hu.active_eq hbooks fun _ _ h => h.elim]
        exact hactive
      have hplace' : u.part.devices[device]? = some place := hsustains.stable.devices ▸ hplace
      exact (ih hsustains.books hactive' (Context.place_ok.mpr hplace') hplace').mono fun _ _ hv =>
        hu.trans hv

end Context

namespace Machine

open Context

variable {rest : Nat → List (BufferId × Nat)} {s t u : Hosted Context} {m : Machine}
  {A : Hosted Context → Deal → Prop} {r r' : Run} {i : Instruction} {is : List Instruction} {k : Nat}

theorem pending_record (r : Run) (event : Option EventId) : (r.record k event).pending = r.pending := by
  cases event <;> rfl

theorem pending_consume (r : Run) (list : Option Nat) : (r.consume list).pending = r.pending := by
  cases list <;> rfl

-- To record an event is nothing that anyone else would notice.
theorem record_ends (r : Run) (event : Option EventId) (s : Hosted Context) :
    (m.record r k event).Ends s fun result t => Calm s t ∧ ∀ r', result = .ok r' → r'.pending = r.pending :=
  ⟨calm_record k event s, fun r' hr' =>
    record_gives (·.pending = r.pending) (pending_record r event) s r' hr'⟩

-- Everything that an instruction does is among its deals.
theorem step_deals (hbooks : Books rest s) (hplaced : r.Placed s)
    (hworks : i.WorksOn (r.target.map Target.index)) :
    (m.step k i r).Ends s fun result t => Deals (i.Permits s (r.waiting i.wait?)) s t ∧
      ∀ r', result = .ok r' → i.Achieves s t ∧ ∀ h ∈ r'.pending, h ∈ r.pending ∨ t.part.Offers h := by
  have hrecord {u : Hosted Context} (r₁ : Run) (event : Option EventId)
      (hu : Deals (i.Permits s (r.waiting i.wait?)) s u) (hi : i.Achieves s u)
      (hpending : ∀ h ∈ r₁.pending, h ∈ r.pending ∨ u.part.Offers h) :
      (m.record r₁ k event).Ends u fun result t => Deals (i.Permits s (r.waiting i.wait?)) s t ∧
        ∀ r', result = .ok r' → i.Achieves s t ∧
          ∀ h ∈ r'.pending, h ∈ r.pending ∨ t.part.Offers h := by
    refine (record_ends r₁ event u).mono fun result t ⟨hcalm, hsame⟩ =>
      ⟨hu.trans (Deals.of_calm hcalm), fun r' hr' => ⟨hi.calm hcalm, fun h hh => ?_⟩⟩
    exact (hpending h (hsame r' hr' ▸ hh)).imp_right (Offers.calm hcalm)
  have hsync {call : List EventId → Action Channel EventId} (list : Option Nat)
      (hcall : ∀ events, (call events).Keeps Channel.Calm) (hachieves : ∀ t, i.Achieves s t) :
      (m.synchronize r k call list).Ends s fun result t => Deals (i.Permits s (r.waiting i.wait?)) s t ∧
        ∀ r', result = .ok r' → i.Achieves s t ∧
          ∀ h ∈ r'.pending, h ∈ r.pending ∨ t.part.Offers h := by
    refine ⟨Deals.of_calm (calm_synchronize hcall k list s), fun r' hr' => ⟨hachieves _, fun h hh => ?_⟩⟩
    have hgives : (m.synchronize r k call list).Gives (·.pending = r.pending) :=
      .bind fun _ => .bind fun _ => .bind fun _ => record_gives _
        ((pending_record _ _).trans (pending_consume r list))
    exact .inl (hgives s r' hr' ▸ hh)
  cases i with
  | begin slots tasks lists =>
    refine Action.Ends.bind_get ?_
    dsimp only
    split
    case isTrue => exact ⟨Relation.ReflTransGen.refl, nofun⟩
    case isFalse => exact hrecord r none Relation.ReflTransGen.refl trivial fun h hh => .inl hh
  | context device =>
    refine (activate_deals hbooks device _).bind (fun _ u hu => ?_) fun _ _ hu => ⟨hu, nofun⟩
    refine Action.Ends.bind_get (Action.Ends.bind_lift (fun place _ => ?_) fun _ _ => ⟨hu, nofun⟩)
    exact hrecord _ none hu trivial fun h hh => .inl hh
  | streamIn object offset length list =>
    refine (streamIn_deals hbooks hplaced).bind (fun event u ⟨hu, hvalid⟩ => ?_) fun _ _ ⟨hu, _⟩ =>
      ⟨hu.mono fun _ _ => And.left, nofun⟩
    exact hrecord _ event (hu.mono fun _ _ => And.left) (hvalid event rfl) fun h hh =>
      .inl (pending_consume r list ▸ hh)
  | launch task device list offset threads =>
    obtain ⟨tgt, ht, hdevice⟩ := Option.map_eq_some_iff.mp hworks
    obtain ⟨hactive, hplace⟩ := hdevice ▸ hplaced tgt ht
    refine (launch_deals hbooks hactive hplace).bind (fun event u ⟨hu, hvalid⟩ => ?_) fun _ _ ⟨hu, _⟩ =>
      ⟨hu, nofun⟩
    exact hrecord _ (some event) hu (hvalid event rfl) fun h hh => .inl (pending_consume r list ▸ hh)
  | streamOut object offset length list =>
    have hplaced' := hplaced.of_active (r.target_consume list) rfl rfl
    refine (streamOut_deals hplaced' false (fun b hb => ⟨rfl, rfl, rfl, b, hb, rfl⟩) nofun).bind
      (fun x u ⟨hu, hpending⟩ => ?_) fun _ _ ⟨hu, _⟩ => ⟨hu, nofun⟩
    exact hrecord x.2 x.1 hu trivial fun h hh => pending_consume r list ▸ hpending x rfl h hh
  | streamOutBlocking object offset length list =>
    have hplaced' := hplaced.of_active (r.target_consume list) rfl rfl
    refine (streamOut_deals (A := (Instruction.streamOutBlocking object offset length list).Permits s
      (r.waiting list)) hplaced' true (fun b hb => ⟨rfl, rfl, rfl, b, hb, rfl⟩) fun _ _ => rfl).bind
      (fun x u ⟨hu, hpending⟩ => ?_) fun _ _ ⟨hu, _⟩ => ⟨hu, nofun⟩
    exact hrecord x.2 x.1 hu trivial fun h hh => pending_consume r list ▸ hpending x rfl h hh
  | addDep list =>
    rw [Action.Ends]
    simp only [step]
    split
    case isTrue =>
      refine ⟨Relation.ReflTransGen.refl, fun r' hr' => ⟨trivial, fun h hh => ?_⟩⟩
      cases hr'
      exact .inl hh
    case isFalse => exact ⟨Relation.ReflTransGen.refl, fun _ herror => by cases herror⟩
  | barrier list => exact hsync list Channel.calm_barrier fun _ => trivial
  | marker list => exact hsync list Channel.calm_marker fun _ => trivial
  | finish => exact hrecord r none Relation.ReflTransGen.refl trivial fun h hh => .inl hh

-- A run that got through the first instructions is fit for the others.
theorem Reaches.fit {P : Prop} {pre : List Instruction} {s' : Hosted Context}
    (h : Reaches m k pre r s r' s') (hbooks : Books rest s)
    (hfit : Run.Fit P (pre ++ is) r s) : Sustains P rest s s' ∧ Run.Fit P is r' s' := by
  induction h with
  | done => exact ⟨hbooks.sustains, hfit⟩
  | step hstep _ ih =>
    obtain ⟨hsustains, hfits⟩ := (step_fit hbooks hfit).of_eq hstep
    exact (ih hsustains.books (hfits _ rfl).1).imp_left hsustains.trans

-- Either the first instruction did well and the others follow, or the context gives everything back.
theorem steps_cons_ends {Q : Except Error Run → Hosted Context → Prop}
    (hok : ∀ r' t, m.step k i r s = (.ok r', t) → (m.steps (k + 1) is r').Ends t Q)
    (herror : ∀ e e' t, m.step k i r s = (.error e, t) → Q (.error e') (invalidate t).2) :
    (m.steps k (i :: is) r).Ends s Q := by
  rcases hstep : m.step k i r s with ⟨e | r', t⟩
  case error =>
    rw [Action.Ends, steps_of_error hstep]
    exact herror e _ t hstep
  case ok =>
    unfold steps
    exact Action.Ends.bind_of_ok (Action.tryCatch_of_ok hstep) (hok r' t hstep)

-- A run does nothing but what its instructions may do, and gives everything back if it fails.
theorem steps_deals (hbooks : Books rest s) (hfit : Run.Fit False is r s)
    (hA : ∀ i ∈ is, ∀ s wait u d, i.Permits s wait u d → A u d) (hclear : ∀ u, A u .clear) :
    (m.steps k is r).Ends s fun _ t => Deals A s t := by
  induction is generalizing k r s with
  | nil => exact Relation.ReflTransGen.refl
  | cons i is ih =>
    have hfirst {result : Except Error Run} {t : Hosted Context} (h : m.step k i r s = (result, t)) :
        Deals A s t :=
      Deals.mono ((step_deals hbooks hfit.placed hfit.grounded.1).of_eq h).1 (hA i List.mem_cons_self _ _)
    refine steps_cons_ends (fun r' t hstep => ?_) fun e _ t hstep =>
      (hfirst hstep).trans (Deals.of_does .clear (hclear t))
    obtain ⟨hsustains, hfits⟩ := (step_fit hbooks hfit).of_eq hstep
    exact (ih hsustains.books (hfits r' rfl).1 fun j hj => hA j (List.mem_cons_of_mem i hj)).mono
      fun _ _ hrest => (hfirst hstep).trans hrest

-- What the instructions do is all that an execution does.
theorem execute_of_steps {Q : Hosted Context → Prop} (hcalm : ∀ u v, Calm u v → Q u → Q v)
    (hsteps : (m.steps 0 m.instructions (Run.start m)).Ends s fun _ t => Q t) :
    m.execute.Ends s fun _ t => Q t := by
  unfold execute
  refine hsteps.bind (fun r u hu => ?_) fun _ _ hu => hu
  refine Action.Ends.bind_lift (fun _ _ => ?_) fun _ _ => hu
  exact (Action.Keeps.bind calm_lasting (calm_count m _) (fun _ => .pure calm_lasting _) u).mono
    fun _ _ hv => hcalm _ _ hv hu

theorem execute_deals (hbooks : Books rest s) (hgrounded : Grounded none m.instructions)
    (hA : ∀ i ∈ m.instructions, ∀ s wait u d, i.Permits s wait u d → A u d) (hclear : ∀ u, A u .clear) :
    m.execute.Ends s fun _ t => Deals A s t :=
  execute_of_steps (fun _ _ hc hu => hu.trans (Deals.of_calm hc))
    (steps_deals hbooks (fit_start hgrounded) hA hclear)

end Machine
end Offload
