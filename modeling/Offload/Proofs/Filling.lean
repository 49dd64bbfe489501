import Offload.Proofs.Customs
import Offload.Proofs.Landing
import Offload.Proofs.Records
import Offload.Proofs.Waits

/-!
What launches find in the buffers. Data comes from a copy or from an earlier launch, and as long as a run goes
well it stays until the next CONTEXT. A launch takes what there is: nobody asks whether it is data, other than
when something is brought out.
-/

namespace Offload

namespace Context

variable {rest : Nat → List (BufferId × Nat)} {s t : Hosted Context} {c c' : Context} {index other : Nat}
  {d : Deal}

theorem valid_modifyState_ne (hne : other ≠ index) (f : ObjectState → ObjectState) :
    (c.modifyState other f).Valid index ↔ c.Valid index := by
  rw [Valid, Valid, bindings_modifyState_ne hne]

theorem valid_of_markArguments {offset : Nat} {arguments : List Argument}
    (h : (arguments.foldl (markArgument offset) c).Valid index) :
    c.Valid index ∨ ∃ a ∈ arguments, a.access.writes ∧ c.objectIndex? a.object.handle = some index := by
  induction arguments generalizing c with
  | nil => exact .inl h
  | cons a arguments ih =>
    have hobjects : (markArgument offset c a).objects = c.objects := objects_markArguments c offset [a]
    rcases ih h with hfirst | ⟨x, hx, hwrites, hindex⟩
    case inr =>
      rw [objectIndex?_eq, hobjects, ← objectIndex?_eq] at hindex
      exact .inr ⟨x, List.mem_cons_of_mem a hx, hwrites, hindex⟩
    case inl =>
      unfold markArgument at hfirst
      split at hfirst
      case h_2 => exact .inl hfirst
      case h_1 other hother =>
        split at hfirst
        case isFalse => exact .inl hfirst
        case isTrue hwrites =>
          by_cases heq : other = index
          case pos => exact .inr ⟨a, List.mem_cons_self, hwrites, heq ▸ hother⟩
          case neg => exact .inl ((valid_modifyState_ne heq _).mp hfirst)

-- Data comes from a copy, or from a task that writes.
theorem Does.valid_from (hdoes : Does d s t) (hvalid : t.part.Valid index) :
    s.part.Valid index ∨ (∃ offset wait, d = .fill index offset wait) ∨
      ∃ task offset, d = .mark task offset ∧ ∃ a ∈ task.arguments, a.access.writes ∧
        s.part.objectIndex? a.object.handle = some index := by
  cases hdoes with
  | @attach _ other size place b id memory hplace hb =>
    by_cases heq : other = index
    case neg => exact .inl ((valid_modifyState_ne heq _).mp hvalid)
    case pos =>
      subst heq
      obtain ⟨x, hx, hstate⟩ := hvalid
      cases hx.symm.trans (getElem?_modify_of_some hb _)
      rw [ObjectState.isValid_attach] at hstate
      cases hstate
  | @detach _ other place b id hplace hb =>
    by_cases heq : other = index
    case neg => exact .inl ((valid_modifyState_ne heq _).mp hvalid)
    case pos =>
      subst heq
      obtain ⟨x, hx, hstate⟩ := hvalid
      cases hx.symm.trans (getElem?_modify_of_some hb _)
      cases hstate
  | @fill _ other offset place b id data wait =>
    by_cases heq : other = index
    case neg => exact .inl ((valid_modifyState_ne heq _).mp hvalid)
    case pos => exact .inr (.inl ⟨offset, wait, by rw [heq]⟩)
  | mark => exact (valid_of_markArguments hvalid).imp_right fun h => .inr ⟨_, _, rfl, h⟩
  | clear =>
    obtain ⟨x, hx, hstate⟩ := hvalid
    obtain ⟨b, _, rfl⟩ := List.mem_map.mp (List.mem_of_getElem? hx)
    cases hstate
  | _ => exact .inl hvalid

end Context

namespace Machine

open Context

variable {rest : Nat → List (BufferId × Nat)} {s t : Hosted Context} {m : Machine} {r r' : Run}
  {i : Instruction} {is : List Instruction} {k index : Nat} {wait : List EventId}

theorem replaces_of_stable (h : Stable s t) : i.Replaces t index ↔ i.Replaces s index := by
  cases i with
  | launch => simp only [Instruction.Replaces, h.tasks, h.objectIndex?_eq]
  | _ => rfl

theorem valid_from_deals (hbooks : Books rest s) (hdeals : Deals (i.Permits s wait) s t)
    (hvalid : t.part.Valid index) : s.part.Valid index ∨ i.Replaces s index := by
  refine hdeals.keep (I := fun u => u.part.Valid index → s.part.Valid index ∨ i.Replaces s index) hbooks .inl
    (fun _ _ hc hu hv => hu (hc.valid.mp hv)) (fun d u v hsustains hd hdoes hu hv => ?_) hvalid
  rcases hdoes.valid_from hv with hbefore | ⟨offset, wait, rfl⟩ | ⟨task, offset, rfl, a, ha, hwrites, hindex⟩
  case inl => exact hu hbefore
  case inr.inl =>
    refine .inr ?_
    cases i with
    | streamIn => exact hd.1
    | launch =>
      obtain ⟨_, _, htakes⟩ := hd
      exact htakes.elim
    | _ => exact hd.elim
  case inr.inr =>
    refine .inr ?_
    cases i with
    | launch => exact ⟨task, hd.1, a, ha, hwrites, hsustains.stable.objectIndex?_eq _ ▸ hindex⟩
    | _ => exact hd.elim

-- After an instruction that does well there is the data that was there before, and what it brought.
theorem step_valid (hi : i.opcode ≠ .context) (hbooks : Books rest s) (hplaced : r.Placed s)
    (hworks : i.WorksOn (r.target.map Target.index)) (hstep : m.step k i r s = (.ok r', t)) :
    t.part.Valid index ↔ s.part.Valid index ∨ i.Replaces s index := by
  obtain ⟨hdeals, hok⟩ := (step_deals (m := m) (k := k) hbooks hplaced hworks).of_eq hstep
  have hachieves := (hok r' rfl).1
  constructor
  case mp => exact valid_from_deals hbooks hdeals
  case mpr =>
    rintro (hvalid | hreplaces)
    case inl => exact (valid_or_replaces hi hbooks hdeals hvalid).elim id fun h => Replaces.valid h hachieves
    case inr => exact Replaces.valid hreplaces hachieves

-- CONTEXT finds data only if it turns to the device that has it.
theorem step_context_valid {device : Nat} (hbooks : Books rest s)
    (hstep : m.step k (.context device) r s = (.ok r', t)) :
    t.part.Valid index ↔ s.part.active = some device ∧ s.part.Valid index := by
  obtain ⟨_, u, hactivate, h⟩ := Action.bind_ok.mp hstep
  obtain ⟨_, _, hget, h⟩ := Action.bind_ok.mp h
  cases hget
  obtain ⟨place, _, hplace, h⟩ := Action.bind_ok.mp h
  obtain ⟨_, rfl⟩ := Action.lift_eq_ok.mp hplace
  rw [((calm_record (m := m) k none).of_eq h).valid]
  unfold activate at hactivate
  obtain ⟨_, _, hget, hactivate⟩ := Action.bind_ok.mp hactivate
  cases hget
  obtain ⟨_, _, hplace, hactivate⟩ := Action.bind_ok.mp hactivate
  obtain ⟨_, rfl⟩ := Action.lift_eq_ok.mp hplace
  obtain ⟨_, _, hget, hactivate⟩ := Action.bind_ok.mp hactivate
  cases hget
  cases hactive : s.part.active with
  | none =>
    rw [hactive] at hactivate
    cases hactivate
    refine ⟨fun hvalid => ?_, fun h => by cases h.1⟩
    obtain ⟨b, hb, hstate⟩ := hvalid
    have hb : s.part.bindings[index]? = some b := hb
    obtain ⟨id, hid⟩ := ObjectState.exists_buffer hstate
    obtain ⟨place, hplace⟩ := hbooks.exists_place (List.mem_of_getElem? hb) hid
    rw [activePlace?, hactive] at hplace
    cases hplace
  | some current =>
    rw [hactive] at hactivate
    dsimp only at hactivate
    split at hactivate
    case isTrue hother =>
      cases hactivate
      refine ⟨fun hvalid => ?_, fun h => absurd (Option.some.inj h.1) hother⟩
      obtain ⟨b, hb, hstate⟩ := hvalid
      obtain ⟨x, _, rfl⟩ := List.mem_map.mp (List.mem_of_getElem? hb)
      cases hstate
    case isFalse hsame =>
      cases hactivate
      rw [Classical.not_not.mp hsame]
      exact (and_iff_right rfl).symm

-- So it is with any number of instructions.
theorem Reaches.valid {pre : List Instruction} {s' : Hosted Context} (h : Reaches m k pre r s r' s')
    (hbooks : Books rest s) (hfit : Run.Fit False (pre ++ is) r s) (hpre : ∀ i ∈ pre, i.opcode ≠ .context) :
    s'.part.Valid index ↔ s.part.Valid index ∨ ∃ i ∈ pre, i.Replaces s index := by
  induction h with
  | done => simp
  | @step k i pre r r₁ r' s s₁ s' hstep _ ih =>
    obtain ⟨hi, hpre⟩ := List.forall_mem_cons.mp hpre
    obtain ⟨hsustains, hfits⟩ := (step_fit hbooks hfit).of_eq hstep
    rw [ih hsustains.books (hfits r₁ rfl).1 hpre, step_valid hi hbooks hfit.placed hfit.grounded.1 hstep]
    simp only [replaces_of_stable hsustains.stable, List.exists_mem_cons_iff, or_assoc]

end Machine

-- The instruction brings data of the object to its buffer, or leaves some there.
def Instruction.Fills (c : Context) (h : Handle) : Instruction → Prop
  | .streamIn index _ _ _ => ∃ o, c.objects[index]? = some o ∧ o.handle = h
  | .launch task _ _ _ _ => ∃ t, c.tasks[task]? = some t ∧ ∃ a ∈ t.arguments, a.access.writes ∧
      a.object.handle = h
  | _ => False

-- As `Instruction.Fills`, of the steps that a graph is built of.
def Step.Fills (h : Handle) : Step → Prop
  | .streamIn o => o.handle = h
  | .task t => ∃ a ∈ t.arguments, a.access.writes ∧ a.object.handle = h
  | .streamOut _ => False

namespace Context

variable {c : Context} {h : Handle} {index : Nat}

theorem exists_of_objectIndex? (hindex : c.objectIndex? h = some index) :
    ∃ b, c.bindings[index]? = some b ∧ b.object.handle = h := by
  obtain ⟨hlt, _⟩ := List.findIdx?_eq_some_iff_getElem.mp hindex
  have hb := List.getElem?_eq_getElem hlt
  exact ⟨_, hb, handle_of_objectIndex? hindex hb⟩

theorem Distinct.index_of_handle (hdistinct : c.Distinct) (hindex : c.objectIndex? h = some index) {other : Nat}
    {b : Binding} (hb : c.bindings[other]? = some b) (hh : b.object.handle = h) : other = index :=
  Option.some.inj ((hdistinct.objectIndex?_eq hb).symm.trans (hh ▸ hindex))

theorem offers_iff_valid (hdistinct : c.Distinct) (hindex : c.objectIndex? h = some index) :
    c.Offers h ↔ c.Valid index := by
  constructor
  case mp =>
    rintro ⟨b, hb, hh, hstate⟩
    obtain ⟨other, hother⟩ := List.getElem?_of_mem hb
    exact ⟨b, hdistinct.index_of_handle hindex hother hh ▸ hother, hstate⟩
  case mpr =>
    rintro ⟨b, hb, hstate⟩
    exact ⟨b, List.mem_of_getElem? hb, handle_of_objectIndex? hindex hb, hstate⟩

theorem fills_iff_replaces {s : Hosted Context} (hdistinct : s.part.Distinct)
    (hindex : s.part.objectIndex? h = some index) (i : Instruction) :
    i.Fills s.part h ↔ i.Replaces s index := by
  obtain ⟨b, hb, hh⟩ := exists_of_objectIndex? hindex
  cases i with
  | streamIn object =>
    constructor
    case mp =>
      rintro ⟨o, ho, rfl⟩
      obtain ⟨x, hx, rfl⟩ := getElem?_objects_iff.mp ho
      exact (hdistinct.index_of_handle hindex hx rfl).symm
    case mpr =>
      rintro rfl
      exact ⟨b.object, getElem?_objects hb, hh⟩
  | launch task =>
    constructor
    case mp =>
      rintro ⟨t, ht, a, ha, hwrites, rfl⟩
      exact ⟨t, ht, a, ha, hwrites, hindex⟩
    case mpr =>
      rintro ⟨t, ht, a, ha, hwrites, hfound⟩
      exact ⟨t, ht, a, ha, hwrites, (handle_of_objectIndex? hfound hb).symm.trans hh⟩
  | _ => exact Iff.rfl

end Context

namespace Machine

open Context

variable {rest : Nat → List (BufferId × Nat)} {s t : Hosted Context} {m : Machine} {r : Run} {h : Handle}
  {pre post : List Instruction} {task device offset threads : Nat} {list : Option Nat}

-- Where an execution comes to a launch, there is data of an object if the device had it from the beginning, or
-- if it was brought on the way.
theorem Suits.offers (hsuits : m.Suits s.platform.registry s.part) (hbooks : Books rest s)
    (hdistinct : s.part.Distinct) (hsplit : m.instructions = pre ++ .launch task device list offset threads :: post)
    (hreach : Reaches m 0 pre (Run.start m) s r t) (hbound : h ∈ s.part.objects.map HostObject.handle) :
    t.part.Offers h ↔
      s.part.active = some device ∧ s.part.Offers h ∨ ∃ i ∈ pre, i.Fills s.part h := by
  have hfit : Run.Fit False m.instructions (Run.start m) s := fit_start hsuits.grounded
  have hstable := (hreach.fit hbooks (hsplit ▸ hfit)).1.stable
  obtain ⟨o, ho, rfl⟩ := List.mem_map.mp hbound
  obtain ⟨b, hb, rfl⟩ := List.mem_map.mp ho
  obtain ⟨index, hindex⟩ := List.getElem?_of_mem hb
  have hfound := hdistinct.objectIndex?_eq hindex
  have hdistinct' : t.part.Distinct := by
    rw [Distinct, hstable.objects]
    exact hdistinct
  rw [offers_iff_valid hdistinct' (hstable.objectIndex?_eq _ ▸ hfound), offers_iff_valid hdistinct hfound]
  simp only [fills_iff_replaces hdistinct hfound]
  obtain ⟨slots, tasks, lists, current, is, his, hall⟩ := hsuits
  rw [hsplit] at hfit his
  -- BEGIN and CONTEXT come before any launch
  obtain ⟨mid, rfl, rfl⟩ : ∃ mid, pre = .begin slots tasks lists :: .context current :: mid ∧
      is = mid ++ .launch task device list offset threads :: post := by
    rcases pre with _ | ⟨_, _ | ⟨_, mid⟩⟩ <;> cases his
    exact ⟨mid, rfl, rfl⟩
  obtain ⟨_, hworks, _⟩ := hall _ (List.mem_append_right _ List.mem_cons_self)
  cases hworks
  cases hreach with
  | step hbegin hreach =>
    have hcontext : (Instruction.begin slots tasks lists).opcode ≠ .context := by simp [Instruction.opcode]
    have hupholds := step_upholds (P := False) (m := m) (k := 0) hbooks hfit.placed hfit.grounded.1 hcontext
      False.elim
    have hactive := (hupholds.of_eq hbegin).active
    obtain ⟨hfirst, hfits⟩ := (step_fit hbooks hfit).of_eq hbegin
    have hfit₁ := (hfits _ rfl).1
    cases hreach with
    | step hactivates hreach =>
      obtain ⟨hsecond, hfits⟩ := (step_fit hfirst.books hfit₁).of_eq hactivates
      have hboth := (hfirst.trans hsecond).stable
      rw [hreach.valid hsecond.books (hfits _ rfl).1 fun i hi => (hall i (List.mem_append_left _ hi)).1,
        step_context_valid hfirst.books hactivates,
        step_valid hcontext hbooks hfit.placed hfit.grounded.1 hbegin, hactive]
      simp only [replaces_of_stable hboth, List.exists_mem_cons_iff]
      simp [Instruction.Replaces]

end Machine

theorem split_of_forall₂ {α β : Type} {R : α → β → Prop} {xs xs' : List α} {ys : List β}
    (h : List.Forall₂ R (xs ++ xs') ys) :
    ∃ zs zs', ys = zs ++ zs' ∧ List.Forall₂ R xs zs ∧ List.Forall₂ R xs' zs' := by
  refine ⟨ys.take xs.length, ys.drop xs.length, (List.take_append_drop _ _).symm, ?_, ?_⟩
  case refine_1 => simpa using List.forall₂_take xs.length h
  case refine_2 => simpa using List.forall₂_drop xs.length h

namespace Compile

variable {g : Graph} {l : Layout} {passes : List Pass} {pass : Pass} {id : Nat} {i : Instruction}
  {is : List Instruction} {sites : List Site} {c c' : Context} {h : Handle}

theorem Laid.exists_issued (hlaid : Laid g l passes sites is) {site : Site} (hsite : site ∈ sites) :
    ∃ i ∈ is, ∃ pass, Issued g l pass site.node i := by
  induction hlaid with
  | nil => cases hsite
  | cons _ hissued _ ih =>
    rcases List.mem_cons.mp hsite with rfl | hrest
    case inl => exact ⟨_, List.mem_append_left _ List.mem_cons_self, _, hissued⟩
    case inr =>
      obtain ⟨i, hi, hlater⟩ := ih hrest
      exact ⟨i, List.mem_append_right _ hi, hlater⟩

-- What a step fills, its instruction does.
theorem Issued.fills (hissued : Issued g l pass id i) {kind : NodeKind} (hkind : g.kind? id = some kind)
    {step : Step} (hdoes : Wiring.Does c kind step) (hobjects : c.objects <+: c'.objects)
    (htasks : c.tasks <+: c'.tasks) (hfills : step.Fills h) : i.Fills c' h := by
  replace hdoes := hdoes.mono hobjects htasks
  rcases hissued.cases with ⟨task, hnode, rfl⟩ | ⟨object, hnode, rfl⟩ | ⟨object, hnode, rfl | rfl⟩ <;>
    cases hkind.symm.trans hnode <;> cases step <;> try exact hdoes.elim
  case inl.refl.task t => exact ⟨t, hdoes, hfills⟩
  case inr.inl.refl.streamIn o =>
    obtain ⟨x, hx, hsame⟩ := hdoes
    exact ⟨x, hx, hsame.trans hfills⟩
  case inr.inr.inl.refl.streamOut => exact hfills.elim
  case inr.inr.inr.refl.streamOut => exact hfills.elim

end Compile

-- A launch stands for a task among the steps, and what the steps before it fill is filled by the
-- instructions before it.
theorem Machine.Stems.launches {R : List Step → Prop} {c : Context} {m : Machine} (h : m.Stems R c) :
    ∃ steps, R steps ∧ ∀ pre task device list offset threads post,
      m.instructions = pre ++ .launch task device list offset threads :: post →
      ∃ before t after, steps = before ++ .task t :: after ∧ c.tasks[task]? = some t ∧
        ∀ k, (∃ step ∈ before, step.Fills k) → ∃ i ∈ pre, i.Fills c k := by
  obtain ⟨_, r, c₀, batch, config, config', program, ⟨w, steps, hR, rfl, hfollows, hwired, hobjects, htasks⟩,
    hcompile, hcreate⟩ := h
  obtain ⟨place, d, l, passes, hmade⟩ := Compile.made_of_compile hcompile hcreate
  refine ⟨steps, hR, fun pre task device list offset threads post hsplit => ?_⟩
  have hget : m.instructions[pre.length]? = some (.launch task device list offset threads) := by simp [hsplit]
  obtain ⟨site, nodes, tasks, lists, blocks, rest, seen, later, pass, _, his, hlength, horder, hlaid, _,
    hissued⟩ := position_of_node hmade hget rfl
  rw [hwired.order_eq hmade.dependencies hmade.order] at horder
  have hpre : pre = .begin nodes tasks lists :: .context l.device :: blocks :=
    (List.append_inj (hsplit.symm.trans his) (by simp [hlength])).1
  rw [Wiring.Follows, horder] at hfollows
  obtain ⟨before, steps', rfl, hbefore, hfrom⟩ := split_of_forall₂ hfollows
  obtain ⟨step, after, ⟨kind, hkind, hdoes⟩, _, rfl⟩ := List.forall₂_cons_left_iff.mp hfrom
  have hnode : w.graph.kind? site.node = some (.task task) := by
    rcases hissued.cases with ⟨_, hnode, heq⟩ | ⟨_, _, heq⟩ | ⟨_, _, heq | heq⟩ <;> cases heq
    exact hnode
  cases hkind.symm.trans hnode
  cases step with
  | streamIn | streamOut => exact hdoes.elim
  | task t =>
    refine ⟨before, t, after, rfl, WaitLists.getElem?_of_prefix htasks hdoes, fun k hfilled => ?_⟩
    obtain ⟨step, hstep, hfills⟩ := hfilled
    obtain ⟨id, hid, kind, hkind, hdoes⟩ := exists_of_forall₂ hbefore hstep
    have hsite : (⟨site.pass, id⟩ : Compile.Site) ∈
        Compile.sites l.order site.pass ++ Compile.passSites seen site.pass :=
      List.mem_append_right _ (List.mem_map_of_mem hid)
    obtain ⟨i, hi, _, hissued⟩ := hlaid.exists_issued hsite
    refine ⟨i, ?_, hissued.fills hkind hdoes hobjects htasks hfills⟩
    rw [hpre]
    exact List.mem_cons_of_mem _ (List.mem_cons_of_mem _ hi)

namespace Context

variable {rest : Nat → List (BufferId × Nat)} {s t : Hosted Context} {objects : List HostObject}

theorem syncObject_offers {device place : Nat} {o : HostObject} {x : Unit}
    (h : syncObject device place o s = (.ok x, t)) : s.part.Offers o.handle := by
  unfold syncObject at h
  obtain ⟨_, _, hget, h⟩ := Action.bind_ok.mp h
  cases hget
  obtain ⟨index, _, hfound, h⟩ := Action.bind_ok.mp h
  obtain ⟨hindex, rfl⟩ := Action.lift_eq_ok.mp hfound
  obtain ⟨b, _, hfound, h⟩ := Action.bind_ok.mp h
  obtain ⟨hbinding, rfl⟩ := Action.lift_eq_ok.mp hfound
  have hb := binding_ok.mp hbinding
  cases hid : b.state.validBuffer? with
  | none =>
    rw [hid] at h
    cases h
  | some id =>
    exact ⟨b, List.mem_of_getElem? hb, handle_of_objectIndex? (objectIndex_ok.mp hindex) hb,
      ObjectState.isValid_of_validBuffer? hid⟩

theorem syncObjects_offers {device place : Nat} (hbooks : Books rest s) (hactive : s.part.active = some device)
    (hplace : s.part.devices[device]? = some place)
    (h : objects.forM (syncObject device place) s = (.ok ⟨⟩, t)) : ∀ o ∈ objects, s.part.Offers o.handle := by
  induction objects generalizing s with
  | nil => exact nofun
  | cons o objects ih =>
    obtain ⟨_, u, hfirst, hrest⟩ := Action.bind_ok.mp h
    have hdeals : Deals Returns s u := (syncObject_deals hactive hplace o).of_eq hfirst
    obtain ⟨hbindings, hsame⟩ := hdeals.same hbooks fun _ _ => Returns.reads
    have hsustains := hdeals.sustains hbooks
    have hlater := ih hsustains.books (hsame.trans hactive) (hsustains.stable.devices ▸ hplace) hrest
    refine List.forall_mem_cons.mpr ⟨syncObject_offers hfirst, fun x hx => ?_⟩
    have hoffers := hlater x hx
    rwa [Offers, hbindings] at hoffers

-- Whoever asks for objects is given data of all of them.
theorem sync_offers (hbooks : Books rest s) (h : sync objects s = (.ok ⟨⟩, t)) :
    ∀ o ∈ objects, s.part.Offers o.handle := by
  unfold sync at h
  obtain ⟨_, _, hget, h⟩ := Action.bind_ok.mp h
  cases hget
  cases hactive : s.part.active with
  | none =>
    rw [hactive] at h
    cases h
  | some device =>
    rw [hactive] at h
    obtain ⟨place, _, hfound, h⟩ := Action.bind_ok.mp h
    obtain ⟨hplace, rfl⟩ := Action.lift_eq_ok.mp hfound
    exact syncObjects_offers hbooks hactive (Context.place_ok.mp hplace) h

end Context

namespace Machine

open Context

variable {s t : Hosted Context} {m : Machine} {r r' : Run} {object offset length k : Nat} {list : Option Nat}
  {wait : List EventId} {blocking : Bool}

theorem streamOut_valid {x : Option EventId × Run}
    (h : m.streamOut r object offset length wait blocking s = (.ok x, t)) : s.part.Valid object := by
  unfold streamOut at h
  obtain ⟨_, _, hfound, h⟩ := Action.bind_ok.mp h
  obtain ⟨_, rfl⟩ := Action.lift_eq_ok.mp hfound
  obtain ⟨_, _, hget, h⟩ := Action.bind_ok.mp h
  cases hget
  obtain ⟨b, _, hfound, h⟩ := Action.bind_ok.mp h
  obtain ⟨hb, rfl⟩ := Action.lift_eq_ok.mp hfound
  cases hid : b.state.validBuffer? with
  | none =>
    rw [hid] at h
    cases h
  | some id => exact ⟨b, binding_ok.mp hb, ObjectState.isValid_of_validBuffer? hid⟩

theorem step_streamOut_valid {i : Instruction} (hi : i = .streamOut object offset length list ∨
    i = .streamOutBlocking object offset length list) (h : m.step k i r s = (.ok r', t)) :
    s.part.Valid object := by
  rcases hi with rfl | rfl
  case inl =>
    obtain ⟨_, _, hout, _⟩ := Action.bind_ok.mp h
    exact streamOut_valid hout
  case inr =>
    obtain ⟨_, _, hout, _⟩ := Action.bind_ok.mp h
    exact streamOut_valid hout

end Machine

namespace House

open Context Machine

variable {h : House} {moves : List Move} {t : Tenant} {m : Machine}

-- Wherever an execution of a program comes to a launch, there is data of an argument exactly if its device had
-- some when the execution began, or if it was brought on the way; so there is, if a step before the task in the
-- graph brings the object in or writes it. What is brought out is data in any case.
theorem run_reads (hfresh : h.Fresh) (ht : t ∈ (h.run moves).tenants) (hm : m ∈ t.machines) :
    (∃ k device steps, Move.act k (.build device steps) ∈ moves ∧
      ∀ pre task device list offset threads post r s,
        m.instructions = pre ++ .launch task device list offset threads :: post →
        Reaches m 0 pre (Run.start m) ⟨(h.run moves).platform, t.context⟩ r s →
        ∃ before task' after, steps = before ++ .task task' :: after ∧ s.part.tasks[task]? = some task' ∧
          ∀ a ∈ task'.arguments,
            (s.part.Offers a.object.handle ↔
              t.context.active = some device ∧ t.context.Offers a.object.handle ∨
                ∃ i ∈ pre, i.Fills t.context a.object.handle) ∧
            ((∃ step ∈ before, step.Fills a.object.handle) → s.part.Offers a.object.handle)) ∧
    (∀ k i r s r' u object offset length list, Reaches m 0 (m.instructions.take k) (Run.start m)
        ⟨(h.run moves).platform, t.context⟩ r s →
      i = .streamOut object offset length list ∨ i = .streamOutBlocking object offset length list →
      m.step k i r s = (.ok r', u) → s.part.Valid object) ∧
    ∀ objects u, Context.sync objects ⟨(h.run moves).platform, t.context⟩ = (.ok ⟨⟩, u) →
      ∀ o ∈ objects, t.context.Offers o.handle := by
  obtain ⟨k, hk⟩ := List.getElem?_of_mem ht
  have hlodged := ((run_sound hfresh.sound moves).perm (perm_cons_eraseIdx hk)).lodged
  have hsuits := hlodged.suits m hm
  let R (steps : List Step) : Prop := ∃ k device, Move.act k (.build device steps) ∈ moves
  have hbuilds : ∀ move ∈ moves, move.Meets (Tenant.Deed.Builds R) := by
    intro move hmove
    match move with
    | .act k (.build device steps) => exact ⟨k, device, hmove⟩
    | .act _ (.bind _) | .act _ (.compile ..) | .act _ (.execute _) | .act _ (.sync _) | .act _ .invalidate |
      .enter .. | .leave _ => trivial
  have hrooted := run_rooted hfresh hbuilds ht
  refine ⟨?_, fun k i r s r' u object offset length list _ hi hstep => step_streamOut_valid hi hstep,
    fun objects u hsync => sync_offers hlodged.books hsync⟩
  obtain ⟨steps, ⟨k, device, hmove⟩, hlaunches⟩ := (hrooted.machines m hm).launches
  refine ⟨k, device, steps, hmove, fun pre task device list offset threads post r s hsplit hreach => ?_⟩
  obtain ⟨before, task', after, hsteps, htask, hfills⟩ := hlaunches _ _ _ _ _ _ _ hsplit
  have hfit : Run.Fit False m.instructions (Run.start m) ⟨(h.run moves).platform, t.context⟩ :=
    fit_start hsuits.grounded
  have hstable := (hreach.fit hlodged.books (hsplit ▸ hfit)).1.stable
  refine ⟨before, task', after, hsteps, hstable.tasks ▸ htask, fun a ha => ?_⟩
  have hoffers := hsuits.offers hlodged.books hrooted.distinct hsplit hreach
    (hlodged.binds task' (List.mem_of_getElem? htask) a ha)
  exact ⟨hoffers, fun hbefore => hoffers.mpr (.inr (hfills _ hbefore))⟩

-- Somebody comes, builds a graph and has a program made for it.
def lesson (steps : List Step) : List Move :=
  [.enter "one" [0], .act 0 (.build 0 steps), .act 0 (.compile 0 none {} {})]

-- An execution gets as far as to an instruction of the program.
theorem lesson_reaches (steps : List Step) (pre : List Instruction) (i : Instruction) (post : List Instruction)
    (hprograms : (inn.run (lesson steps)).tenants.map (fun t => t.machines.map Machine.instructions) =
      [[pre ++ i :: post]])
    (hok : ∀ t ∈ (inn.run (lesson steps)).tenants, ∀ m ∈ t.machines,
      (m.steps 0 pre (Run.start m) ⟨(inn.run (lesson steps)).platform, t.context⟩).1.isOk) :
    ∃ t ∈ (inn.run (lesson steps)).tenants, ∃ m ∈ t.machines, m.instructions = pre ++ i :: post ∧
      ∃ r, Reaches m 0 pre (Run.start m) ⟨(inn.run (lesson steps)).platform, t.context⟩ r
        (m.steps 0 pre (Run.start m) ⟨(inn.run (lesson steps)).platform, t.context⟩).2 := by
  obtain ⟨t, htenants, hmachines⟩ := List.map_eq_singleton_iff.mp hprograms
  obtain ⟨m, hmachine, hinstructions⟩ := List.map_eq_singleton_iff.mp hmachines
  have ht : t ∈ (inn.run (lesson steps)).tenants := htenants ▸ List.mem_singleton_self t
  have hm : m ∈ t.machines := hmachine ▸ List.mem_singleton_self m
  refine ⟨t, ht, m, hm, hinstructions, ?_⟩
  have hreached := hok t ht m hm
  rcases hsteps : m.steps 0 pre (Run.start m) ⟨(inn.run (lesson steps)).platform, t.context⟩ with ⟨e | r, s⟩
  case error =>
    rw [hsteps] at hreached
    cases hreached
  case ok => exact ⟨r, steps_ok.mp hsteps⟩

-- The object is brought in before the task counts it up.
def bringing : List Move :=
  lesson [.streamIn first, .task (calling "increment" first)]

def brought : List Instruction :=
  [.begin 2 1 2, .context 0, .streamIn 0 0 0 none, .addDep 0]

theorem inn_fresh : inn.Fresh :=
  ⟨rfl, by simp [inn], by simp [inn], by decide⟩

theorem inn_reads : inn.Fresh ∧ ∃ t ∈ (inn.run bringing).tenants, ∃ m ∈ t.machines, ∃ r s post,
    m.instructions = brought ++ .launch 0 0 (some 0) 0 0 :: post ∧
      Reaches m 0 brought (Run.start m) ⟨(inn.run bringing).platform, t.context⟩ r s ∧
      s.part.tasks[0]? = some (calling "increment" first) ∧ ¬t.context.Offers first.handle ∧
      s.part.Offers first.handle := by
  obtain ⟨t, ht, m, hm, hsplit, r, hreach⟩ := lesson_reaches
    [.streamIn first, .task (calling "increment" first)] brought (.launch 0 0 (some 0) 0 0)
    [.addDep 1, .barrier (some 1), .finish]
    (by decide +kernel) (by decide +kernel)
  have hnothing : ∀ t ∈ (inn.run bringing).tenants, ∀ b ∈ t.context.bindings, b.state.isValid = false := by
    decide +kernel
  have hobjects : ∀ t ∈ (inn.run bringing).tenants, t.context.objects[0]? = some first := by decide +kernel
  have htasks : ∀ t ∈ (inn.run bringing).tenants, ∀ m ∈ t.machines,
      (m.steps 0 brought (Run.start m) ⟨(inn.run bringing).platform, t.context⟩).2.part.tasks[0]? =
        some (calling "increment" first) := by decide +kernel
  obtain ⟨⟨_, _, _, _, hlaunch⟩, _⟩ := run_reads inn_fresh ht hm
  obtain ⟨_, task', _, _, htask, harguments⟩ := hlaunch _ _ _ _ _ _ _ _ _ hsplit hreach
  cases (htasks t ht m hm).symm.trans htask
  refine ⟨inn_fresh, t, ht, m, hm, r, _, _, hsplit, hreach, htask, ?_, ?_⟩
  case refine_1 =>
    rintro ⟨b, hb, _, hvalid⟩
    rw [hnothing t ht b hb] at hvalid
    cases hvalid
  case refine_2 =>
    have hfills : (Instruction.streamIn 0 0 0 none).Fills t.context first.handle :=
      ⟨first, hobjects t ht, rfl⟩
    exact (harguments _ List.mem_cons_self).1.mpr (.inr ⟨_, by simp [brought], hfills⟩)

-- Nobody brings the object in.
def groping : List Move :=
  lesson [.task (calling "increment" first)]

def groped : List Instruction :=
  [.begin 1 1 1, .context 0]

-- The task counts up what it finds in a new buffer, and nobody objects.
theorem inn_gropes : inn.Fresh ∧ ∃ t ∈ (inn.run groping).tenants, ∃ m ∈ t.machines, ∃ r s post,
    m.instructions = groped ++ .launch 0 0 none 0 0 :: post ∧
      Reaches m 0 groped (Run.start m) ⟨(inn.run groping).platform, t.context⟩ r s ∧
      s.part.tasks[0]? = some (calling "increment" first) ∧ ¬s.part.Offers first.handle ∧
      (m.execute ⟨(inn.run groping).platform, t.context⟩).1.isOk ∧
      (((m.execute ⟨(inn.run groping).platform, t.context⟩).2.platform.channel 0).journal.take 3 =
        [.lookup "increment" (some 0), .allocate 2 (.ok ⟨1⟩),
          .launch 0 [⟨1⟩] { global := [2], group := [2] } [] (.ok ⟨1⟩)]) ∧
      (m.execute ⟨(inn.run groping).platform, t.context⟩).2.bytes? 0 first.handle = some [1, 1] := by
  obtain ⟨t, ht, m, hm, hsplit, r, hreach⟩ := lesson_reaches
    [.task (calling "increment" first)] groped (.launch 0 0 none 0 0)
    [.addDep 0, .barrier (some 0), .finish]
    (by decide +kernel) (by decide +kernel)
  have htasks : ∀ t ∈ (inn.run groping).tenants, ∀ m ∈ t.machines,
      (m.steps 0 groped (Run.start m) ⟨(inn.run groping).platform, t.context⟩).2.part.tasks[0]? =
        some (calling "increment" first) := by decide +kernel
  have hnothing : ∀ t ∈ (inn.run groping).tenants, ∀ m ∈ t.machines,
      ∀ b ∈ (m.steps 0 groped (Run.start m) ⟨(inn.run groping).platform, t.context⟩).2.part.bindings,
        b.state.isValid = false := by decide +kernel
  have hexecuted : ∀ t ∈ (inn.run groping).tenants, ∀ m ∈ t.machines,
      (m.execute ⟨(inn.run groping).platform, t.context⟩).1.isOk ∧
      ((m.execute ⟨(inn.run groping).platform, t.context⟩).2.platform.channel 0).journal.take 3 =
        [.lookup "increment" (some 0), .allocate 2 (.ok ⟨1⟩),
          .launch 0 [⟨1⟩] { global := [2], group := [2] } [] (.ok ⟨1⟩)] ∧
      (m.execute ⟨(inn.run groping).platform, t.context⟩).2.bytes? 0 first.handle = some [1, 1] := by
    decide +kernel
  refine ⟨inn_fresh, t, ht, m, hm, r, _, _, hsplit, hreach, htasks t ht m hm, ?_, hexecuted t ht m hm⟩
  rintro ⟨b, hb, _, hvalid⟩
  rw [hnothing t ht m hm b hb] at hvalid
  cases hvalid

end House

end Offload
