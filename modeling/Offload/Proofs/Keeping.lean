import Offload.Proofs.Steps
import Offload.Proofs.Transfer
import Offload.Proofs.Upkeep

/-!
What each instruction does to the books: it keeps them, as long as it works on the active device. Its
transfers have their excuses if the events it waits for are known and its window lies within its object.
-/

namespace Offload

theorem ObjectState.buffer_of_validBuffer? {st : ObjectState} {id : BufferId}
    (h : st.validBuffer? = some id) : st.buffer = some id := by
  rw [validBuffer?] at h
  split at h
  case isTrue => exact h
  case isFalse => cases h

theorem ObjectState.exists_buffer {st : ObjectState} (h : st.isValid) : ∃ id, st.buffer = some id :=
  Option.isSome_iff_exists.mp (Bool.and_eq_true_iff.mp h).1

theorem ObjectState.isValid_of_validBuffer? {st : ObjectState} {id : BufferId}
    (h : st.validBuffer? = some id) : st.isValid := by
  rw [isValid_eq_isSome_validBuffer?, h]
  rfl

namespace Registry

theorem byteLength_deliver {r : Registry} {h : Handle} {offset : Nat} {data : Bytes}
    (hfits : offset + data.length ≤ r.byteLength h) (k : Handle) :
    (r.deliver h offset data).byteLength k = r.byteLength k := by
  rw [byteLength, bytes_deliver hfits]
  by_cases heq : k = h
  case pos => rw [heq, Function.update_self, Bytes.overlayAt_length hfits, byteLength]
  case neg => rw [Function.update_of_ne heq, byteLength]

theorem window_ok {r : Registry} {o : HostObject} {offset length : Nat} {data : Bytes}
    (h : r.window o offset length = .ok data) :
    data.length = length ∧ offset + length ≤ r.byteLength o.handle := by
  unfold window at h
  dsimp only at h
  split at h <;> cases h
  case isTrue hfits => exact ⟨Bytes.window_length hfits, hfits⟩

theorem window_eq {r : Registry} {o : HostObject} {offset length : Nat} {data : Bytes}
    (h : r.window o offset length = .ok data) : data = Bytes.window offset length (r.bytes o.handle) := by
  unfold window at h
  dsimp only at h
  split at h <;> cases h
  rfl

end Registry

namespace Context

variable {P : Prop} {rest : Nat → List (BufferId × Nat)} {s t u : Hosted Context} {α : Type}
  {c : Context} {index place device size : Nat} {b : Binding} {h : Handle}

theorem objectIndex?_eq (c : Context) (h : Handle) :
    c.objectIndex? h = c.objects.findIdx? (·.handle = h) := by
  rw [objects, List.findIdx?_map]
  rfl

theorem Stable.objectIndex?_eq (hs : Stable s t) (h : Handle) :
    t.part.objectIndex? h = s.part.objectIndex? h := by
  rw [Context.objectIndex?_eq, Context.objectIndex?_eq, hs.objects]

theorem handle_of_objectIndex? (hindex : c.objectIndex? h = some index)
    (hb : c.bindings[index]? = some b) : b.object.handle = h := by
  obtain ⟨hlt, heq, _⟩ := List.findIdx?_eq_some_iff_getElem.mp hindex
  rw [List.getElem?_eq_getElem hlt] at hb
  exact Option.some.inj hb ▸ of_decide_eq_true heq

theorem objectIndex_ok : c.objectIndex h = .ok index ↔ c.objectIndex? h = some index := by
  unfold objectIndex
  cases c.objectIndex? h <;> simp [pure, Except.pure, throw, throwThe, MonadExceptOf.throw]

theorem task_ok {task : Task} : c.task index = .ok task ↔ c.tasks[index]? = some task := by
  unfold Context.task
  cases c.tasks[index]? <;> simp [pure, Except.pure, throw, throwThe, MonadExceptOf.throw]

-- The buffer of an object was filled from `offset` on.
theorem mark_upholds (hbooks : Books rest s) (hb : s.part.bindings[index]? = some b)
    (hsome : b.state.buffer.isSome) {offset : Nat}
    (hinside : P → offset ≤ s.platform.registry.byteLength b.object.handle) :
    Upholds P rest s { s with part := s.part.modifyState index (·.markWritten offset) } := by
  obtain ⟨id, hid⟩ := Option.isSome_iff_exists.mp hsome
  obtain ⟨place, hplace⟩ := hbooks.exists_place (List.mem_of_getElem? hb) hid
  exact hbooks.modify (f := (·.markWritten offset)) hb rfl (ObjectState.tidy_markWritten hsome offset) hplace
    ((Platform.local_lasting place).refl _) (hbooks.orderly place) (fun _ hothers => hothers) hinside

theorem markArgument_upholds (hbooks : Books rest s) (a : Argument) {offset : Nat}
    (hfilled : ∀ index, s.part.objectIndex? a.object.handle = some index → s.part.Filled index)
    (hinside : P → offset ≤ s.platform.registry.byteLength a.object.handle) :
    Upholds P rest s { s with part := s.part.markArgument offset a } ∧
      ∀ other, s.part.Filled other → (s.part.markArgument offset a).Filled other := by
  unfold markArgument
  cases hindex : s.part.objectIndex? a.object.handle with
  | none => exact ⟨hbooks.upholds, fun _ h => h⟩
  | some index =>
    dsimp only
    split
    case isFalse => exact ⟨hbooks.upholds, fun _ h => h⟩
    case isTrue =>
      obtain ⟨b, hb, hsome⟩ := hfilled index hindex
      refine ⟨mark_upholds hbooks hb hsome ?_, fun _ h => h.modifyState hb hsome⟩
      rwa [handle_of_objectIndex? hindex hb]

theorem markWritten_upholds (hbooks : Books rest s) (t : Task) {offset : Nat}
    (hfilled : ∀ a ∈ t.arguments, ∀ index, s.part.objectIndex? a.object.handle = some index →
      s.part.Filled index)
    (hinside : P → ∀ a ∈ t.arguments, offset ≤ s.platform.registry.byteLength a.object.handle) :
    Upholds P rest s { s with part := s.part.markWritten t offset } := by
  unfold markWritten
  generalize t.arguments = arguments at hfilled hinside
  induction arguments generalizing s with
  | nil => exact hbooks.upholds
  | cons a arguments ih =>
    obtain ⟨ha, hkeeps⟩ := markArgument_upholds (P := P) hbooks a (hfilled a List.mem_cons_self)
      fun hP => hinside hP a List.mem_cons_self
    refine ha.trans (ih ha.books (fun a' ha' index hindex => ?_) fun hP a' ha' => ?_)
    case refine_1 =>
      rw [ha.stable.objectIndex?_eq] at hindex
      exact hkeeps index (hfilled a' (List.mem_cons_of_mem a ha') index hindex)
    case refine_2 =>
      rw [ha.stable.lengths]
      exact hinside hP a' (List.mem_cons_of_mem a ha')

-- A write of all of a buffer.
theorem write_still (hbooks : Books rest s) (hactive : s.part.activePlace? = some place)
    (hb : b ∈ s.part.bindings) {id : BufferId} (hid : b.state.buffer = some id) {data : Bytes}
    (hlength : data.length = b.state.size) {wait : List EventId}
    (haware : P → (s.device place).Aware wait) (blocking : Bool) :
    (Hosted.onPlatform (Platform.onChannel place (Channel.write id data wait blocking)) : On EventId).Ends s
      fun _ t => Still P s t := by
  have hlive := hbooks.mem_live hactive hb hid
  rw [← hlength] at hlive
  exact still_channel (Channel.write id data wait blocking)
    (Device.still_write id data wait blocking _) fun hP hhonest =>
      Channel.write_honest hhonest (haware hP) (hbooks.orderly place) hlive blocking

-- A read of the front of a buffer.
theorem readBack_still (hbooks : Books rest s) (hactive : s.part.activePlace? = some place)
    (hb : b ∈ s.part.bindings) {id : BufferId} (hid : b.state.buffer = some id) {offset length : Nat}
    (hlength : length ≤ b.state.size) {wait : List EventId}
    (haware : P → (s.device place).Aware wait)
    (hinside : P → offset + length ≤ s.platform.registry.byteLength h) (blocking : Bool) :
    (Hosted.onPlatform (Platform.readBack place id h offset length wait blocking) : On EventId).Ends s
      fun _ t => Still P s t := by
  have hlive := hbooks.mem_live hactive hb hid
  generalize hsize : s.platform.registry.byteLength h = hostSize at hinside
  have hstill : Still P s (s.setChannel place
      (Channel.read id hostSize offset length wait blocking (s.platform.channel place)).2) :=
    still_channel (Channel.read id hostSize offset length wait blocking)
      (Device.still_read id hostSize offset length wait blocking _) fun hP hhonest =>
        Channel.read_honest hhonest (haware hP) (hbooks.orderly place) hlive hlength (hinside hP) blocking
  rw [Action.Ends, Hosted.onPlatform]
  rcases hread : Channel.read id hostSize offset length wait blocking (s.platform.channel place) with
    ⟨e | ⟨e, data⟩, c⟩
  all_goals rw [hread] at hstill; rw [← hsize] at hread
  case error =>
    rw [Platform.readBack_of_error hread]
    exact hstill
  case ok =>
    cases data with
    | none =>
      rw [Platform.readBack_of_none hread]
      exact hstill
    | some data =>
      have hfits : offset + data.length ≤ s.platform.registry.byteLength h :=
        Device.read_gives id _ offset length wait blocking (s.device place) (e, some data)
          (congrArg Prod.fst hread) data rfl
      rw [Platform.readBack_of_ok hread]
      exact still_lasting.trans hstill
        (.of_channels rfl (fun k => Registry.byteLength_deliver hfits k) rfl rfl rfl rfl)

-- The front of the buffer goes back to where it came from, as far as the object reaches.
theorem syncObject_upholds (hbooks : Books rest s) (hactive : s.part.active = some device)
    (hplace : s.part.devices[device]? = some place) (htrust : P → Trusted s) (o : HostObject) :
    (syncObject device place o).Ends s fun _ t => Upholds P rest s t := by
  unfold syncObject
  refine Action.Ends.bind_get (Action.Ends.bind_lift (fun index hindex => ?_) fun _ _ => hbooks.upholds)
  refine Action.Ends.bind_lift (fun b hb => ?_) fun _ _ => hbooks.upholds
  have hb := binding_ok.mp hb
  have hobject := handle_of_objectIndex? (objectIndex_ok.mp hindex) hb
  split
  case h_2 => exact hbooks.upholds
  case h_1 id hvalid =>
    have hinside (hP : P) : b.state.hostOffset ≤ s.platform.registry.byteLength o.handle :=
      hobject ▸ (htrust hP).inside b (List.mem_of_getElem? hb)
    refine Action.Ends.bind (readBack_still (P := P) hbooks (activePlace?_eq hactive hplace)
      (List.mem_of_getElem? hb) (ObjectState.buffer_of_validBuffer? hvalid) (Nat.min_le_left _ _)
      (fun hP => ⟨((htrust hP).honest place).past, by simp⟩) (fun hP => ?_) true) (fun _ u hu => ?_)
      fun _ _ hu => hu.upholds hbooks
    case refine_1 =>
      have hfits := hinside hP
      omega
    case refine_2 =>
      exact (still_lasting.trans hu (still_setOwner (P := P) o.handle device u)).upholds hbooks

theorem sync_upholds (hbooks : Books rest s) (htrust : P → Trusted s) (objects : List HostObject) :
    (sync objects).Ends s fun _ t => Upholds P rest s t := by
  unfold sync
  refine Action.Ends.bind_get ?_
  dsimp only
  split
  case h_2 => exact hbooks.upholds
  case h_1 device hactive =>
    refine Action.Ends.bind_lift (fun place hplace => ?_) fun _ _ => hbooks.upholds
    induction objects generalizing s with
    | nil => exact hbooks.upholds
    | cons o objects ih =>
      have hfound := Context.place_ok.mp hplace
      refine Action.Ends.bind (syncObject_upholds (P := P) hbooks hactive hfound htrust o)
        (fun _ u hu => ?_) fun _ _ hu => hu
      have hrest := ih hu.books (fun hP => hu.trust hP (htrust hP)) (hu.active.trans hactive)
        (hu.stable.place_ok hplace)
      exact hrest.mono fun _ _ hv => hu.trans hv

end Context

namespace Run

-- A run works on the active device of its context.
def Placed (r : Run) (s : Hosted Context) : Prop :=
  ∀ t, r.target = some t →
    s.part.active = some t.index ∧ s.part.devices[t.index]? = some t.place

-- The device that a run works on knows the events of a wait list.
def Aware (r : Run) (s : Hosted Context) (wait : List EventId) : Prop :=
  ∀ t, r.target = some t → (s.device t.place).Aware wait

theorem device_ok {r : Run} {t : Target} : r.device = .ok t ↔ r.target = some t := by
  unfold device
  cases r.target <;> simp [pure, Except.pure, throw, throwThe, MonadExceptOf.throw]

end Run

namespace Machine

open Context
open Run (device_ok)

variable {P : Prop} {rest : Nat → List (BufferId × Nat)} {s t u : Hosted Context} {m : Machine}
  {r : Run} {i : Instruction} {place device k : Nat} {tgt : Target} {wait : List EventId}

theorem still_record (index : Nat) (event : Option EventId) :
    (m.record r index event).Keeps (Still P) := by
  have hR := still_lasting (P := P)
  unfold record
  exact .bind hR (still_count m _) fun _ => .pure hR _

theorem still_checkLaunch (device : Nat) (t : Task) (event : EventId) :
    (checkLaunch device t event).Keeps (Still P) :=
  checkLaunch_keeps still_lasting (still_onDevice (Channel.still_wait _) device)
    (still_onDevice (Channel.still_resolve _) device) t

theorem still_synchronize {call : List EventId → Action Channel EventId}
    (hcall : ∀ events, (call events).Keeps Channel.Still) (index : Nat) (list : Option Nat) :
    (m.synchronize r index call list).Keeps (Still P) := by
  have hR := still_lasting (P := P)
  unfold synchronize
  exact .bind hR (.lift hR _) fun _ => .bind hR (still_onPlatform (hcall _) _) fun _ =>
    .bind hR (still_count m _) fun _ => still_record _ _

theorem streamIn_upholds (hbooks : Books rest s) (hplaced : r.Placed s)
    (haware : P → r.Aware s wait) (object offset length : Nat) :
    (m.streamIn r object offset length wait).Ends s fun _ t => Upholds P rest s t := by
  unfold streamIn
  refine Action.Ends.bind_lift (fun tgt ht => ?_) fun _ _ => hbooks.upholds
  obtain ⟨hactive, hplace⟩ := hplaced tgt (device_ok.mp ht)
  refine Action.Ends.bind_get ?_
  refine Action.Ends.bind_lift (fun b hb => ?_) fun _ _ => hbooks.upholds
  have hb := binding_ok.mp hb
  refine (ensureBuffer_upholds (P := P) hbooks hactive object _).bind (fun id u ⟨hu, hfurnished⟩ => ?_)
    fun _ _ ⟨hu, _⟩ => hu
  obtain ⟨⟨x, hx, hid, hsize⟩, _⟩ := hfurnished id rfl
  obtain ⟨x', hx', hobject⟩ := hu.stable.binding? hb
  cases hx.symm.trans hx'
  refine Action.Ends.bind_get ?_
  rw [binding_ok.mpr hx]
  refine Action.Ends.bind_of_ok (Action.lift_apply _ u) ?_
  dsimp only
  split
  case isTrue => exact hu
  case isFalse =>
    refine Action.Ends.bind_get (Action.Ends.bind_lift (fun data hdata => ?_) fun _ _ => hu)
    obtain ⟨hlength, hinside⟩ := Registry.window_ok hdata
    have hplace' : u.part.activePlace? = some tgt.place :=
      activePlace?_eq (hu.active.trans hactive) (hu.stable.devices ▸ hplace)
    have hwrite := write_still (P := P) hu.books hplace' (List.mem_of_getElem? hx) hid
      (hlength.trans hsize.symm) (fun hP => (hu.stable.onward _).aware (haware hP tgt (device_ok.mp ht)))
      b.object.isScalar
    refine Action.Ends.bind hwrite (fun event v hv => ?_) fun _ v hv => hu.trans (hv.upholds hu.books)
    have hv' := hv.upholds hu.books
    have hx'' : v.part.bindings[object]? = some x := by rw [hv.bindings, hx]
    have hreaches : (if b.object.isScalar then 0 else offset) ≤
        v.platform.registry.byteLength x.object.handle := by
      rw [hv.lengths, hu.stable.lengths, hobject]
      exact Nat.le_trans (Nat.le_add_right _ _) hinside
    have hmark := mark_upholds (P := P) hv'.books hx'' (by rw [hid]; rfl) fun _ => hreaches
    refine Action.Ends.bind_modify ?_
    exact Action.Keeps.bind still_lasting (still_count m _) (fun _ => .pure still_lasting _) _ |>.mono
      fun _ _ hw => hu.trans (hv'.trans (hmark.trans (hw.upholds hmark.books)))

-- Whatever becomes of an argument, the objects that had buffers have them still if it gets one.
theorem argumentBuffer_upholds (hbooks : Books rest s) (hactive : s.part.active = some device)
    (threads : Nat) (a : Argument) :
    (argumentBuffer device threads a).Ends s fun result t => Upholds P rest s t ∧
      ∀ id, result = .ok id → (∀ other, s.part.Filled other → t.part.Filled other) ∧
        ∀ index, s.part.objectIndex? a.object.handle = some index → t.part.Filled index := by
  unfold argumentBuffer
  refine Action.Ends.bind_get (Action.Ends.bind_lift (fun index hindex => ?_) fun _ _ =>
    ⟨hbooks.upholds, nofun⟩)
  refine Action.Ends.bind_lift (fun b hb => ?_) fun _ _ => ⟨hbooks.upholds, nofun⟩
  have hindex := objectIndex_ok.mp hindex
  have hensure (size : Nat) : (ensureBuffer device index size).Ends s fun result t =>
      Upholds P rest s t ∧ ∀ id, result = .ok id → (∀ other, s.part.Filled other → t.part.Filled other) ∧
        ∀ index, s.part.objectIndex? a.object.handle = some index → t.part.Filled index := by
    refine (ensureBuffer_upholds hbooks hactive index size).mono fun result t ⟨hu, hfurnished⟩ =>
      ⟨hu, fun id hid => ⟨(hfurnished id hid).others, fun index' hindex' => ?_⟩⟩
    cases hindex.symm.trans hindex'
    exact Filled.of_furnished (hfurnished id hid)
  dsimp only
  split
  case h_2 => exact hensure _
  case h_1 buffer hbuffer =>
    split
    case isFalse => exact hensure _
    case isTrue =>
      refine ⟨hbooks.upholds, fun _ _ => ⟨fun _ h => h, fun index' hindex' => ?_⟩⟩
      cases hindex.symm.trans hindex'
      exact ⟨b, binding_ok.mp hb, by rw [hbuffer]; rfl⟩

theorem argumentBuffers_upholds (hbooks : Books rest s) (hactive : s.part.active = some device)
    (threads : Nat) (arguments : List Argument) :
    (arguments.mapM (argumentBuffer device threads)).Ends s fun result t => Upholds P rest s t ∧
      ∀ ids, result = .ok ids → (∀ other, s.part.Filled other → t.part.Filled other) ∧
        ∀ a ∈ arguments, ∀ index, s.part.objectIndex? a.object.handle = some index →
          t.part.Filled index := by
  induction arguments generalizing s with
  | nil => exact ⟨hbooks.upholds, fun _ _ => ⟨fun _ h => h, nofun⟩⟩
  | cons a arguments ih =>
    rw [List.mapM_cons]
    refine (argumentBuffer_upholds (P := P) hbooks hactive threads a).bind
      (fun id u ⟨hu, hfilled⟩ => ?_) fun _ _ ⟨hu, _⟩ => ⟨hu, nofun⟩
    obtain ⟨hkeeps, hown⟩ := hfilled id rfl
    refine (ih hu.books (hu.active.trans hactive)).bind (fun ids v ⟨hv, hfilled'⟩ => ?_)
      fun _ _ ⟨hv, _⟩ => ⟨hu.trans hv, nofun⟩
    obtain ⟨hkeeps', howns⟩ := hfilled' ids rfl
    refine ⟨hu.trans hv, fun _ _ => ⟨fun other h => hkeeps' other (hkeeps other h), ?_⟩⟩
    intro a' ha' index hindex
    rcases List.mem_cons.mp ha' with rfl | ha'
    case inl => exact hkeeps' index (hown index hindex)
    case inr => exact howns a' ha' index (by rwa [hu.stable.objectIndex?_eq])

theorem launch_upholds (hbooks : Books rest s) (hactive : s.part.active = some device)
    {task offset : Nat}
    (hinside : P → ∀ t, s.part.tasks[task]? = some t → ∀ a ∈ t.arguments,
      offset ≤ s.platform.registry.byteLength a.object.handle) (threads : Nat) :
    (m.launch task device offset threads wait).Ends s fun _ t => Upholds P rest s t := by
  unfold launch
  refine (still_kernel (P := P) device task s).bind (fun kernel u hu => ?_) fun _ _ hu => hu.upholds hbooks
  have hu' := hu.upholds hbooks
  refine Action.Ends.bind_get (Action.Ends.bind_lift (fun place _ => ?_) fun _ _ => hu')
  refine Action.Ends.bind_get (Action.Ends.bind_lift (fun t ht => ?_) fun _ _ => hu')
  refine (argumentBuffers_upholds (P := P) hu'.books (hu'.active.trans hactive) threads t.arguments).bind
    (fun ids v ⟨hv, hfilled⟩ => ?_) fun _ _ ⟨hv, _⟩ => hu'.trans hv
  obtain ⟨_, hfilled⟩ := hfilled ids rfl
  have hv' := hu'.trans hv
  refine Action.Ends.bind_get (Action.Ends.bind_lift (fun geometry _ => ?_) fun _ _ => hv')
  -- nothing from here on touches a buffer or a record, until the results count as written
  have hmark {w : Hosted Context} (hw : Still P v w) :
      Upholds P rest s { w with part := w.part.markWritten t offset } := by
    have hw' := hv'.trans (hw.upholds hv.books)
    refine hw'.trans (markWritten_upholds hw'.books t (fun a ha index hindex => ?_) fun hP a ha => ?_)
    case refine_1 =>
      rw [hw.toStable.objectIndex?_eq, hv.stable.objectIndex?_eq] at hindex
      obtain ⟨b, hb, hsome⟩ := hfilled a ha index hindex
      exact ⟨b, hw.bindings ▸ hb, hsome⟩
    case refine_2 =>
      rw [hw'.stable.lengths]
      exact hinside hP t (hu.tasks ▸ task_ok.mp ht) a ha
  have hstill {w : Hosted Context} (hw : Still P v w) : Upholds P rest s w :=
    hv'.trans (hw.upholds hv.books)
  refine (still_onDevice (P := P) (Channel.still_launch _ _ _ _) device v).bind (fun event w hw => ?_)
    fun _ _ hw => hstill hw
  refine (still_count (P := P) m _ w).bind (fun _ x hx => ?_) fun _ _ hx =>
    hstill (still_lasting.trans hw hx)
  have hx' := still_lasting.trans hw hx
  dsimp only
  split
  case isFalse => exact hmark hx'
  case isTrue =>
    exact (still_checkLaunch (P := P) device t event x).bind
      (fun _ y hy => hmark (still_lasting.trans hx' hy)) fun _ _ hy => hstill (still_lasting.trans hx' hy)

theorem streamOut_upholds (hbooks : Books rest s) (hplaced : r.Placed s)
    (haware : P → r.Aware s wait) {object offset length : Nat}
    (hinside : P → ∀ b, s.part.bindings[object]? = some b →
      offset + transferSize s.platform.registry b.object length ≤
        s.platform.registry.byteLength b.object.handle) (blocking : Bool) :
    (m.streamOut r object offset length wait blocking).Ends s fun _ t => Upholds P rest s t := by
  unfold streamOut
  refine Action.Ends.bind_lift (fun tgt ht => ?_) fun _ _ => hbooks.upholds
  obtain ⟨hactive, hplace⟩ := hplaced tgt (device_ok.mp ht)
  refine Action.Ends.bind_get ?_
  refine Action.Ends.bind_lift (fun b hb => ?_) fun _ _ => hbooks.upholds
  have hb := binding_ok.mp hb
  dsimp only
  split
  case h_2 => exact hbooks.upholds
  case h_1 id hvalid =>
    have hid := ObjectState.buffer_of_validBuffer? hvalid
    split
    case isTrue => exact hbooks.upholds
    case isFalse hsize =>
      refine Action.Ends.bind (readBack_still (P := P) hbooks (activePlace?_eq hactive hplace)
        (List.mem_of_getElem? hb) hid (Nat.le_of_not_lt hsize)
        (fun hP => haware hP tgt (device_ok.mp ht)) (fun hP => hinside hP b hb) blocking)
        (fun event u hu => ?_) fun _ _ hu => hu.upholds hbooks
      refine (still_count (P := P) m _ u).bind (fun _ v hv => ?_) fun _ _ hv =>
        (still_lasting.trans hu hv).upholds hbooks
      have hv' := still_lasting.trans hu hv
      split
      case isFalse => exact hv'.upholds hbooks
      case isTrue =>
        exact (still_setOwner (P := P) b.object.handle tgt.index v).bind
          (fun _ _ hw => (still_lasting.trans hv' hw).upholds hbooks)
          fun _ _ hw => (still_lasting.trans hv' hw).upholds hbooks

end Machine
end Offload
