import Offload.Proofs.Batches
import Offload.Proofs.Filling

/-!
How large the buffers are. Whoever brings something to an object sees to a buffer of the right size for it, and that
is the one that is there until somebody wants another size.
-/

namespace Offload

namespace Context

variable {rest : Nat → List (BufferId × Nat)} {s t : Hosted Context} {c : Context} {A : Hosted Context → Deal → Prop}
  {d : Deal} {index size threads device place : Nat} {arguments : List Argument}

-- The object has a buffer of that size.
def Stocked (c : Context) (index size : Nat) : Prop :=
  ∃ b, c.bindings[index]? = some b ∧ b.state.buffer.isSome ∧ b.state.size = size

-- Whatever buffers there are stay as they are.
def Stocks (s t : Hosted Context) : Prop :=
  ∀ index size, s.part.Stocked index size → t.part.Stocked index size

theorem stocks_lasting : Action.Lasting Stocks :=
  ⟨fun _ _ _ => id, fun h h' index size hs => h' index size (h index size hs)⟩

theorem stocks_of_bindings (hbindings : t.part.bindings = s.part.bindings) : Stocks s t := by
  intro index size hs
  rwa [Stocked, hbindings]

theorem Stocked.modifyState {other : Nat} {f : ObjectState → ObjectState}
    (hf : ∀ st : ObjectState, (f st).buffer = st.buffer ∧ (f st).size = st.size) (h : c.Stocked index size) :
    (c.modifyState other f).Stocked index size := by
  obtain ⟨b, hb, hbuffer, hsize⟩ := h
  by_cases heq : other = index
  case neg => exact ⟨b, (bindings_modifyState_ne heq c f).trans hb, hbuffer, hsize⟩
  case pos =>
    subst heq
    exact ⟨_, getElem?_modify_of_some hb _, (hf b.state).1 ▸ hbuffer, (hf b.state).2.trans hsize⟩

theorem Stocked.markWritten (h : c.Stocked index size) (t : Task) (offset : Nat) :
    (c.markWritten t offset).Stocked index size :=
  exists_markArguments (Q := fun st => st.buffer.isSome ∧ st.size = size) (fun _ h => h) h t.arguments

-- A buffer that is there is not replaced but by giving it back first.
theorem Does.stocked (hdoes : Does d s t) (h : s.part.Stocked index size) :
    t.part.Stocked index size ∨ d = .detach index ∨ d = .clear := by
  cases hdoes with
  | @attach _ other _ _ b _ _ _ hb hnone =>
    refine .inl ?_
    obtain ⟨x, hx, hbuffer, hsize⟩ := h
    have hne : other ≠ index := fun heq => by
      subst heq
      cases hx.symm.trans hb
      rw [hnone] at hbuffer
      cases hbuffer
    exact ⟨x, (bindings_modifyState_ne hne _ _).trans hx, hbuffer, hsize⟩
  | @detach _ other =>
    by_cases heq : other = index
    case pos => exact .inr (.inl (heq ▸ rfl))
    case neg =>
      obtain ⟨x, hx, hstate⟩ := h
      exact .inl ⟨x, (bindings_modifyState_ne heq _ _).trans hx, hstate⟩
  | fill => exact .inl (h.modifyState fun _ => ⟨rfl, rfl⟩)
  | mark => exact .inl (h.markWritten _ _)
  | clear => exact .inr (.inr rfl)
  | _ => exact .inl h

theorem Deals.stocked (hdeals : Deals A s t) (hbooks : Books rest s) (h : s.part.Stocked index size)
    (hA : ∀ u d, Stable s u → u.part.Stocked index size → A u d → d ≠ .detach index ∧ d ≠ .clear) :
    t.part.Stocked index size :=
  hdeals.keep (I := fun u => u.part.Stocked index size) hbooks h (fun _ _ hc => stocks_of_bindings hc.bindings _ _)
    fun d u _ hsustains hd hdoes hu => (hdoes.stocked hu).resolve_right fun hgone =>
      hgone.elim (hA u d hsustains.stable hu hd).1 (hA u d hsustains.stable hu hd).2

-- An argument takes a buffer away only to get one of another size.
theorem Takes.not_detach (h : Stable s t) {d : Deal} (hd : Takes threads arguments t d)
    (hstocked : t.part.Stocked index size)
    (hsizes : ∀ a ∈ arguments, a.access.writes → s.part.objectIndex? a.object.handle = some index →
      Machine.argumentSize s.platform.registry a.object threads = size) : d ≠ .detach index ∧ d ≠ .clear := by
  cases d with
  | detach other =>
    refine ⟨fun heq => ?_, nofun⟩
    cases heq
    obtain ⟨a, ha, hwrites, b, hplaces, hdiffers⟩ := hd
    obtain ⟨x, hx, -, hsize⟩ := hstocked
    cases hx.symm.trans hplaces.2
    rw [argumentSize_of_lengths h.lengths, hsizes a ha hwrites (h.objectIndex?_eq _ ▸ hplaces.1)] at hdiffers
    exact hdiffers hsize
  | clear => exact hd.elim
  | _ => exact ⟨nofun, nofun⟩

-- What the arguments that write an object agree about is what it gets.
theorem argumentBuffers_stock (hbooks : Books rest s) (hactive : s.part.active = some device)
    (hsizes : ∀ a ∈ arguments, a.access.writes → s.part.objectIndex? a.object.handle = some index →
      Machine.argumentSize s.platform.registry a.object threads = size)
    (h : s.part.Stocked index size ∨
      ∃ a ∈ arguments, a.access.writes ∧ s.part.objectIndex? a.object.handle = some index) :
    (arguments.mapM (Machine.argumentBuffer device threads)).Ends s fun result t =>
      ∀ ids, result = .ok ids → t.part.Stocked index size := by
  induction arguments generalizing s with
  | nil =>
    rcases h with h | ⟨_, hmem, _⟩
    case inl => exact fun _ _ => h
    case inr => cases hmem
  | cons a arguments ih =>
    obtain ⟨hown, hrest⟩ := List.forall_mem_cons.mp hsizes
    rw [List.mapM_cons]
    refine (argumentBuffer_deals hbooks hactive a).bind (fun id u ⟨hdeals, hsupplied⟩ => ?_) fun _ _ _ => nofun
    have hsustains := hdeals.sustains hbooks
    have hstable := hsustains.stable
    have hsizes' : ∀ a' ∈ arguments, a'.access.writes → u.part.objectIndex? a'.object.handle = some index →
        Machine.argumentSize u.platform.registry a'.object threads = size := fun a' ha' hwrites hindex => by
      rw [argumentSize_of_lengths hstable.lengths]
      exact hrest a' ha' hwrites (hstable.objectIndex?_eq _ ▸ hindex)
    have hstocked : u.part.Stocked index size ∨
        ∃ a ∈ arguments, a.access.writes ∧ u.part.objectIndex? a.object.handle = some index := by
      rcases h with h | ⟨a', ha', hwrites, hindex⟩
      case inl =>
        refine .inl (hdeals.stocked hbooks h fun v d hv hstocked hd => Takes.not_detach hv hd hstocked ?_)
        exact List.forall_mem_singleton.mpr hown
      case inr =>
        have hindex' := (hstable.objectIndex?_eq a'.object.handle).trans hindex
        rcases List.mem_cons.mp ha' with rfl | hlater
        case inr => exact .inr ⟨a', hlater, hwrites, hindex'⟩
        case inl =>
          obtain ⟨other, b, hplaces, hid, hsize⟩ := hsupplied id rfl
          cases hindex'.symm.trans hplaces.1
          refine .inl ⟨b, hplaces.2, by rw [hid]; rfl, ?_⟩
          rw [hsize hwrites, argumentSize_of_lengths hstable.lengths]
          exact hown hwrites hindex
    have hactive' := hdeals.active_eq hbooks (fun u device hturn => hturn.elim) |>.trans hactive
    exact (ih hsustains.books hactive' hsizes' hstocked).bind (fun _ _ ht _ _ => ht _ rfl) fun _ _ _ => nofun

end Context

-- What the instruction brings to the object is of that size.
def Instruction.Brings (s : Hosted Context) (index size : Nat) : Instruction → Prop
  | .streamIn object _ length _ => object = index → ∀ o, s.part.objects[index]? = some o →
      Machine.transferSize s.platform.registry o length = size
  | .launch task _ _ _ threads => ∀ t, s.part.tasks[task]? = some t → ∀ a ∈ t.arguments, a.access.writes →
      s.part.objectIndex? a.object.handle = some index →
      Machine.argumentSize s.platform.registry a.object threads = size
  | _ => True

namespace Machine

open Context

variable {rest : Nat → List (BufferId × Nat)} {s t : Hosted Context} {m : Machine} {r r' : Run} {i : Instruction}
  {is : List Instruction} {k index size offset length device : Nat} {wait : List EventId}

theorem brings_of_stable (h : Stable s t) (hi : i.Brings s index size) : i.Brings t index size := by
  cases i with
  | streamIn =>
    intro heq o ho
    rw [transferSize_of_lengths h.lengths]
    exact hi heq o (h.objects ▸ ho)
  | launch =>
    intro task htask a ha hwrites hindex
    rw [argumentSize_of_lengths h.lengths]
    exact hi task (h.tasks ▸ htask) a ha hwrites (h.objectIndex?_eq _ ▸ hindex)
  | _ => trivial

theorem stocks_of_still {α : Type} {act : On α} (h : act.Keeps (Still False)) : act.Keeps Stocks :=
  fun s => (h s).mono fun _ _ ht => stocks_of_bindings ht.bindings

theorem streamIn_stocks (hbooks : Books rest s) (hplaced : r.Placed s)
    (hbrings : ∀ o, s.part.objects[index]? = some o → transferSize s.platform.registry o length = size) :
    (m.streamIn r index offset length wait).Ends s fun result t =>
      ∀ e, result = .ok e → t.part.Stocked index size := by
  have hR := stocks_lasting
  unfold streamIn
  refine Action.Ends.bind_lift (fun tgt htgt => Action.Ends.bind_get (Action.Ends.bind_lift (fun b hb => ?_)
    fun _ _ => nofun)) fun _ _ => nofun
  refine (ensureBuffer_upholds (P := False) hbooks (hplaced tgt (Run.device_ok.mp htgt)).1 index _).bind
    (fun id u ⟨_, hfurnished⟩ => ?_) fun _ _ _ => nofun
  obtain ⟨⟨x, hx, hid, hxsize⟩, _⟩ := hfurnished id rfl
  have hsize := hbrings b.object (getElem?_objects (binding_ok.mp hb))
  have hstocked : u.part.Stocked index size := ⟨x, hx, by rw [hid]; rfl, hxsize.trans hsize⟩
  have hmark (offset : Nat) : (modifyContext (·.modifyState index (·.markWritten offset))).Keeps Stocks :=
    .modify fun _ _ _ hs => hs.modifyState fun _ => ⟨rfl, rfl⟩
  suffices hkeeps : (_ : On (Option EventId)).Keeps Stocks from (hkeeps u).mono fun _ _ ht _ _ => ht _ _ hstocked
  refine .bind hR (.get hR) fun _ => .bind hR (.lift hR _) fun _ => ?_
  dsimp only
  split
  case isTrue => exact .pure hR _
  case isFalse =>
    refine .bind hR (.lift hR _) fun _ => .bind hR (fun _ => stocks_of_bindings rfl) fun _ =>
      .bind hR (hmark _) fun _ => .bind hR (stocks_of_still (still_count m _)) fun _ => .pure hR _

theorem launch_stocks {task offset threads : Nat} {t' : Task} (hbooks : Books rest s)
    (hactive : s.part.active = some device) (ht : s.part.tasks[task]? = some t')
    (hsizes : ∀ a ∈ t'.arguments, a.access.writes → s.part.objectIndex? a.object.handle = some index →
      argumentSize s.platform.registry a.object threads = size)
    (h : ∃ a ∈ t'.arguments, a.access.writes ∧ s.part.objectIndex? a.object.handle = some index) :
    (m.launch task device offset threads wait).Ends s fun result t =>
      ∀ e, result = .ok e → t.part.Stocked index size := by
  have hR := stocks_lasting
  unfold launch
  refine (still_kernel (P := False) device task s).bind (fun kernel u hu => ?_) fun _ _ _ => nofun
  have hbooks' := (hu.upholds hbooks).books
  have hstable := hu.toStable
  refine Action.Ends.bind_get (Action.Ends.bind_lift (fun _ _ => ?_) fun _ _ => nofun)
  refine Action.Ends.bind_get (Action.Ends.bind_lift (fun t₁ ht₁ => ?_) fun _ _ => nofun)
  cases (hstable.tasks ▸ task_ok.mp ht₁).symm.trans ht
  have hsizes' : ∀ a ∈ t'.arguments, a.access.writes → u.part.objectIndex? a.object.handle = some index →
      argumentSize u.platform.registry a.object threads = size := fun a ha hwrites hindex => by
    rw [argumentSize_of_lengths hstable.lengths]
    exact hsizes a ha hwrites (hstable.objectIndex?_eq _ ▸ hindex)
  obtain ⟨a, ha, hwrites, hindex⟩ := h
  refine (argumentBuffers_stock hbooks' (hu.active.trans hactive) hsizes'
    (.inr ⟨a, ha, hwrites, (hstable.objectIndex?_eq _).trans hindex⟩)).bind (fun ids v hv => ?_) fun _ _ _ => nofun
  have hmark : (modifyContext (·.markWritten t' offset)).Keeps Stocks :=
    .modify fun _ _ _ hs => hs.markWritten t' offset
  suffices hkeeps : (_ : On EventId).Keeps Stocks from (hkeeps v).mono fun _ _ ht _ _ => ht _ _ (hv ids rfl)
  refine .bind hR (.get hR) fun _ => .bind hR (.lift hR _) fun _ =>
    .bind hR (stocks_of_still (still_onDevice (Channel.still_launch _ _ _ _) device)) fun event =>
      .bind hR (stocks_of_still (still_count m _)) fun _ => ?_
  dsimp only
  split
  case isTrue =>
    exact .bind hR (stocks_of_still (still_checkLaunch device t' event)) fun _ => .bind hR hmark fun _ => .pure hR _
  case isFalse => exact .bind hR hmark fun _ => .pure hR _

theorem stocked_of_replaces (hbooks : Books rest s) (hplaced : r.Placed s)
    (hworks : i.WorksOn (r.target.map Target.index)) (hbrings : i.Brings s index size)
    (hstep : m.step k i r s = (.ok r', t)) (hreplaces : i.Replaces s index) : t.part.Stocked index size := by
  have hrecord {r₁ : Run} {event : Option EventId} {u : Hosted Context} (hu : u.part.Stocked index size)
      (h : m.record r₁ k event u = (.ok r', t)) : t.part.Stocked index size :=
    stocks_of_still (still_record (P := False) k event) |>.of_eq h index size hu
  cases i with
  | streamIn object offset length list =>
    cases hreplaces
    obtain ⟨event, u, hstreamIn, h⟩ := Action.bind_ok.mp hstep
    exact hrecord ((streamIn_stocks hbooks hplaced (hbrings rfl)).of_eq hstreamIn event rfl) h
  | launch task device list offset threads =>
    obtain ⟨t', ht, hwriter⟩ := hreplaces
    obtain ⟨tgt, htgt, hdevice⟩ := Option.map_eq_some_iff.mp hworks
    have hactive : s.part.active = some device := hdevice ▸ (hplaced tgt htgt).1
    obtain ⟨event, u, hlaunch, h⟩ := Action.bind_ok.mp hstep
    exact hrecord ((launch_stocks hbooks hactive ht (hbrings t' ht) hwriter).of_eq hlaunch event rfl) h
  | _ => exact hreplaces.elim

-- An instruction that does well leaves a buffer of the right size for what it brings, and takes no other one away.
theorem step_stocked (hi : i.opcode ≠ .context) (hbooks : Books rest s) (hplaced : r.Placed s)
    (hworks : i.WorksOn (r.target.map Target.index)) (hbrings : i.Brings s index size)
    (hstep : m.step k i r s = (.ok r', t)) (h : s.part.Stocked index size ∨ i.Replaces s index) :
    t.part.Stocked index size := by
  by_cases hreplaces : i.Replaces s index
  case pos => exact stocked_of_replaces hbooks hplaced hworks hbrings hstep hreplaces
  case neg =>
    refine ((step_deals (m := m) (k := k) hbooks hplaced hworks).of_eq hstep).1.stocked hbooks
      (h.resolve_right hreplaces) fun u d hu hstocked hd => ?_
    cases i with
    | context => exact absurd rfl hi
    | streamIn object =>
      have hne : index ≠ object := hreplaces
      cases d with
      | detach other => exact ⟨fun heq => hne (by cases heq; exact hd), nofun⟩
      | clear => exact hd.elim
      | _ => exact ⟨nofun, nofun⟩
    | launch task device list offset threads =>
      cases d with
      | detach other =>
        obtain ⟨t', ht, htakes⟩ := hd
        exact Takes.not_detach hu htakes hstocked (hbrings t' ht)
      | clear =>
        obtain ⟨_, _, htakes⟩ := hd
        exact htakes.elim
      | _ => exact ⟨nofun, nofun⟩
    | _ => cases d <;> first | exact hd.elim | exact ⟨nofun, nofun⟩

-- What every instruction keeps, and comes with whatever replaces the data of an object, is there after any number of
-- instructions if it was there before or one of them replaced the data.
theorem Reaches.brought {P : Hosted Context → Prop} {Q : Hosted Context → Instruction → Prop} {s' : Hosted Context}
    {pre : List Instruction} (h : Reaches m k pre r s r' s') (hbooks : Books rest s)
    (hfit : Run.Fit False (pre ++ is) r s) (hQ : ∀ i ∈ pre, Q s i)
    (hstable : ∀ u v i, Stable u v → Q u i → Q v i)
    (hstep : ∀ k i r r' u v, Books rest u → r.Placed u → i.WorksOn (r.target.map Target.index) → Q u i →
      m.step k i r u = (.ok r', v) → P u ∨ i.Replaces u index → P v)
    (hs : P s ∨ ∃ i ∈ pre, i.Replaces s index) : P s' := by
  induction h with
  | done => exact hs.elim id fun ⟨_, hmem, _⟩ => nomatch hmem
  | @step k i pre r r₁ r' s s₁ s' hi _ ih =>
    obtain ⟨hfirst, hQ⟩ := List.forall_mem_cons.mp hQ
    obtain ⟨hsustains, hfits⟩ := (step_fit hbooks hfit).of_eq hi
    have hone := hstep k i r r₁ s s₁ hbooks hfit.placed hfit.grounded.1 hfirst hi
    refine ih hsustains.books (hfits r₁ rfl).1 (fun j hj => hstable s s₁ j hsustains.stable (hQ j hj)) ?_
    rcases hs with hs | ⟨j, hj, hreplaces⟩
    case inl => exact .inl (hone (.inl hs))
    case inr =>
      rcases List.mem_cons.mp hj with rfl | hj
      case inl => exact .inl (hone (.inr hreplaces))
      case inr => exact .inr ⟨j, hj, (replaces_of_stable hsustains.stable).mpr hreplaces⟩

-- So it is with the size, if all instructions want the same one.
theorem Reaches.stocked {s' : Hosted Context} {pre : List Instruction} (h : Reaches m k pre r s r' s')
    (hbooks : Books rest s) (hfit : Run.Fit False (pre ++ is) r s) (hpre : ∀ i ∈ pre, i.opcode ≠ .context)
    (hbrings : ∀ i ∈ pre, i.Brings s index size)
    (hs : s.part.Stocked index size ∨ ∃ i ∈ pre, i.Replaces s index) : s'.part.Stocked index size :=
  h.brought (P := fun u => u.part.Stocked index size) (Q := fun u i => i.opcode ≠ .context ∧ i.Brings u index size)
    hbooks hfit (fun i hi => ⟨hpre i hi, hbrings i hi⟩) (fun _ _ _ hstable => And.imp_right (brings_of_stable hstable))
    (fun _ _ _ _ _ _ hbooks hplaced hworks hi => step_stocked hi.1 hbooks hplaced hworks hi.2) hs

end Machine

namespace Pass

variable {r : Registry} {c : Context} {p : Pass} {passes : List Pass}

theorem Tiles.covers {size total first count : Nat} (h : Tiles size total first passes count) (hp : p ∈ passes) :
    ∃ first count, p.Covers size total first count := by
  induction h with
  | nil => cases hp
  | cons hcovers _ ih =>
    rcases List.mem_cons.mp hp with rfl | hp
    case inl => exact ⟨_, _, hcovers⟩
    case inr => exact ih hp

-- Objects that are worked on in batches have a common shape.
theorem plan_shape {batch : Nat} (h : plan r c (some batch) = .ok passes) :
    ∃ shape : BatchShape, ∀ b ∈ c.bindings,
      b.object.kind = .array shape.element ∧ r.byteLength b.object.handle = shape.total := by
  simp only [plan] at h
  split at h
  case isTrue => cases h
  obtain ⟨shape, hshape, h⟩ := bind_eq_ok.mp h
  cases shape with
  | none => cases h
  | some shape => exact ⟨shape, (commonShape_agrees hshape).2⟩

-- A pass copies as much of an object as its threads work on, if there is no part of an element to it.
theorem argumentSize_eq {batch : Option Nat} (h : plan r c batch = .ok passes) (hp : p ∈ passes) {o : HostObject}
    (ho : o ∈ c.objects) (helements : ∀ e, o.kind = .array e → e.size ∣ r.byteLength o.handle) :
    Machine.argumentSize r o p.threads = Machine.transferSize r o p.length := by
  cases batch with
  | none =>
    cases h
    cases List.mem_singleton.mp hp
    unfold Machine.argumentSize
    cases o.kind <;> rfl
  | some batch =>
    obtain ⟨shape, hshape⟩ := plan_shape h
    have hobjects : ∀ x ∈ c.objects, x.kind = .array shape.element ∧ r.byteLength x.handle = shape.total :=
      List.forall_mem_map.mpr hshape
    obtain ⟨hkind, htotal⟩ := hobjects o ho
    have hdvd := htotal ▸ helements _ hkind
    obtain ⟨_, _, hcovers⟩ := (tiles_plan hobjects hdvd h).covers hp
    unfold Machine.argumentSize Machine.transferSize
    rw [hkind, htotal]
    exact hcovers.threads.trans hcovers.length.symm

end Pass
end Offload
