import Offload.Proofs.House
import Offload.Proofs.Returning

/-!
Tenants that spare an object: no task of theirs has to do with it, and what they copy back of it is what they
brought. The host's bytes stay as they are, and the buffers that hold the object are mirrors of them.
-/

namespace Offload

def Step.Avoids (k : Handle) : Step → Prop
  | .task t => t.Avoids k
  | _ => True

instance (k : Handle) : DecidablePred (Step.Avoids k) := fun step =>
  match step with
  | .task t => inferInstanceAs (Decidable (t.Avoids k))
  | .streamIn _ | .streamOut _ => isTrue trivial

namespace Tenant

namespace Deed

def Avoids (k : Handle) : Deed → Prop
  | .build _ steps => ∀ step ∈ steps, step.Avoids k
  | _ => True

instance (k : Handle) : DecidablePred (Deed.Avoids k) := fun deed =>
  match deed with
  | .build _ steps => inferInstanceAs (Decidable (∀ step ∈ steps, step.Avoids k))
  | .bind _ | .compile .. | .execute _ | .sync _ | .invalidate => isTrue trivial

-- Every program is made of one pass.
def Whole : Deed → Prop
  | .compile _ batch _ _ => batch = none
  | _ => True

instance : DecidablePred Deed.Whole := fun deed =>
  match deed with
  | .compile _ batch _ _ => inferInstanceAs (Decidable (batch = none))
  | .bind _ | .build .. | .execute _ | .sync _ | .invalidate => isTrue trivial

-- In every graph the object is brought in before it is brought out.
def Refills (k : Handle) : Deed → Prop
  | .build _ steps => Step.Refills k steps
  | _ => True

end Deed

end Tenant

namespace Context

variable {c c' : Context} {k : Handle} {g : Graph} {s : Hosted Context} {p : Platform}

-- Wherever the object is bound, the graph brings it in before it brings it out.
def Refilled (k : Handle) (c : Context) (g : Graph) : Prop :=
  ∀ (object : Nat) (o : HostObject), c.objects[object]? = some o → o.handle = k → g.Refills object

theorem Refilled.mono (hcovers : c.Covers g) (hobjects : c.objects <+: c'.objects) (h : c.Refilled k g) :
    c'.Refilled k g := by
  intro object o ho hk
  cases hold : c.objects[object]? with
  | some x =>
    cases ho.symm.trans (WaitLists.getElem?_of_prefix hobjects hold)
    exact h object o hold hk
  | none =>
    intro pre id post hnodes hkind
    obtain ⟨kind, hkind', hrefers⟩ := hcovers id (by rw [hnodes]; simp)
    cases hkind.symm.trans hkind'
    obtain ⟨x, hx⟩ := hrefers
    cases hold.symm.trans hx

theorem Grown.mirrors (h : Grown s.part c') (hmirrors : Mirrors k s) : Mirrors k { s with part := c' } := by
  have hplace : c'.activePlace? = s.part.activePlace? := h.activePlace?
  refine h.forall_bindings (Q := fun o st => o.handle = k → st.isValid →
    Binding.Mirrors ⟨o, st⟩ { s with part := c' }) (fun _ _ => Iff.rfl) (fun _ _ => nofun) ?_
  intro b hb hhandle hvalid
  obtain ⟨place, id, hactive, hrest⟩ := hmirrors b hb hhandle hvalid
  exact ⟨place, id, hplace.trans hactive, hrest⟩

-- What is not touched stays a mirror.
theorem Mirrors.frame (hmirrors : Mirrors k s) (hbytes : p.registry.bytes k = s.platform.registry.bytes k)
    (hcontents : ∀ place id size, (id, size) ∈ s.part.heldAt place →
      (p.channel place).device.memory.contents? id = (s.device place).memory.contents? id) :
    Mirrors k { s with platform := p } := by
  intro b hb hhandle hvalid
  obtain ⟨place, id, hplace, hid, hinside, hsame⟩ := hmirrors b hb hhandle hvalid
  have hheld : (id, b.state.size) ∈ s.part.heldAt place := by
    rw [heldAt, if_pos hplace]
    exact mem_held hb hid
  refine ⟨place, id, hplace, hid, ?_, (hcontents place id _ hheld).trans ?_⟩
  case refine_1 => rwa [hhandle, Registry.byteLength, hbytes, ← hhandle]
  case refine_2 => rw [hsame, hhandle, hbytes]

-- Binding and building keep objects apart, and the tasks are those there were and those of the steps.
theorem building_avoids (k : Handle) : Wiring.Building (Task.Avoids k) fun c c' =>
    (c.Distinct → c'.Distinct) ∧ ((∀ t ∈ c.tasks, t.Avoids k) → ∀ t ∈ c'.tasks, t.Avoids k) where
  lasting := ⟨fun _ => ⟨id, id⟩, fun h h' => ⟨h'.1 ∘ h.1, h'.2 ∘ h.2⟩⟩
  bind c o := by
    have hbound := Bound.bindOne c o
    exact ⟨hbound.distinct, hbound.tasks ▸ id⟩
  modifyState c index f _ := ⟨fun h => h.modifyState index f, id⟩
  addTask c t ht := by
    have hbound := Bound.bindEach c (t.arguments.map Argument.object)
    refine ⟨hbound.distinct, fun hall t' ht' => ?_⟩
    rcases List.mem_append.mp ht' with hold | hnew
    case inl => exact hall t' (hbound.tasks ▸ hold)
    case inr => exact List.mem_singleton.mp hnew ▸ ht

end Context

namespace Tenant

open Context

variable {B : Prop} {k : Handle} {rest : Nat → List (BufferId × Nat)} {s t u : Hosted Tenant} {c : Context}
  {p : Platform}

-- What a tenant does about the object, where with `B` every graph refills it, and without `B` every
-- program is made of one pass.
def Deed.Spares (B : Prop) (k : Handle) (deed : Deed) : Prop :=
  deed.Avoids k ∧ (B → deed.Refills k) ∧ (¬B → deed.Whole)

structure Sparing (B : Prop) (k : Handle) (t : Tenant) : Prop where
  distinct : t.context.Distinct
  avoids   : ∀ task ∈ t.context.tasks, task.Avoids k
  wired    : ∀ g ∈ t.graphs, g.Wired
  refills  : B → ∀ g ∈ t.graphs, t.context.Refilled k g
  returns  : ∀ m ∈ t.machines, m.Returns k t.context

-- The object is spared, and so are the buffers of the others.
structure Spares (B : Prop) (k : Handle) (rest : Nat → List (BufferId × Nat)) (s t : Hosted Tenant) :
    Prop where
  sparing : t.part.Sparing B k
  mirrors : Mirrors k ⟨t.platform, t.part.context⟩
  bytes   : t.platform.registry.bytes k = s.platform.registry.bytes k
  others  : ∀ place id size, (id, size) ∈ rest place →
    (t.platform.channel place).device.memory.contents? id =
      (s.platform.channel place).device.memory.contents? id

theorem Sparing.grown (h : s.part.Sparing B k) (hlodged : Lodged rest s) (hc : Grown s.part.context c)
    (hdistinct : c.Distinct) (havoids : ∀ task ∈ c.tasks, task.Avoids k) :
    Sparing B k { s.part with context := c } where
  distinct := hdistinct
  avoids := havoids
  wired := h.wired
  refills hB g hg := (h.refills hB g hg).mono (hlodged.covers g hg) hc.objects
  returns m hm := (h.returns m hm).mono (hlodged.suits m hm) hc.objects

theorem Sparing.stable (h : s.part.Sparing B k) (hobjects : c.objects = s.part.context.objects)
    (htasks : c.tasks = s.part.context.tasks) : Sparing B k { s.part with context := c } where
  distinct := by
    rw [Distinct, hobjects]
    exact h.distinct
  avoids := htasks ▸ h.avoids
  wired := h.wired
  refills hB g hg := by
    rw [Refilled, hobjects]
    exact h.refills hB g hg
  returns m hm := by
    obtain ⟨hprompt, hback⟩ := h.returns m hm
    exact ⟨hprompt, by rw [hobjects]; exact hback⟩

theorem onContext_spares (hlodged : Lodged rest s) (hsparing : s.part.Sparing B k)
    (hmirrors : Mirrors k ⟨s.platform, s.part.context⟩) {α : Type} {act : Context.On α}
    (hact : act.Ends ⟨s.platform, s.part.context⟩ fun _ v =>
      Deals (fun u d => d.Spares k u) ⟨s.platform, s.part.context⟩ v) :
    (onContext act).Ends s fun _ t => Spares B k rest s t := by
  obtain ⟨hbytes, hmirrors'⟩ := hact.spares hlodged.books hmirrors
  have hstable := (hact.sustains hlodged.books).stable
  exact ⟨hsparing.stable hstable.objects hstable.tasks, hmirrors', hbytes,
    fun _ _ _ hid => hact.contents_rest hlodged.books hid⟩

-- Whatever happens on no device, and to no buffer.
theorem Sparing.spares {t' : Tenant} (hsparing : t'.Sparing B k)
    (hmirrors : Mirrors k ⟨s.platform, t'.context⟩) : Spares B k rest s ⟨s.platform, t'⟩ :=
  ⟨hsparing, hmirrors, rfl, fun _ _ _ _ => rfl⟩

theorem build_spares (hlodged : Lodged rest s) (hsparing : s.part.Sparing B k)
    (hmirrors : Mirrors k ⟨s.platform, s.part.context⟩) (device : Nat) {steps : List Step}
    (havoids : ∀ step ∈ steps, step.Avoids k) (hrefills : B → Step.Refills k steps) :
    (build device steps).Ends s fun _ t => Spares B k rest s t := by
  unfold build
  refine Action.Ends.bind_get (Action.Ends.bind_lift (fun start hstart => ?_) fun _ _ =>
    hsparing.spares hmirrors)
  cases Wiring.start_ok hstart
  rcases hsteps : (steps.forM fun s => discard (Wiring.step s) : Action Wiring Unit)
    { context := s.part.context, graph := ({} : Graph).push (.context device) [] } with ⟨result, w⟩
  have hgrown : Grown s.part.context w.context := (Wiring.grows_steps steps).of_eq hsteps
  obtain ⟨hdistinct, hkept⟩ :=
    ((building_avoids k).keeps_steps fun t ht => havoids (.task t) ht).of_eq hsteps
  have hnew := hsparing.grown hlodged hgrown (hdistinct hsparing.distinct) (hkept hsparing.avoids)
  have hmirrors' : Mirrors k ⟨s.platform, w.context⟩ := hgrown.mirrors hmirrors
  refine Action.Ends.bind_modify (Action.Ends.bind_lift (fun _ hok => ?_) fun _ _ => hnew.spares hmirrors')
  subst hok
  have hwired : w.graph.Wired := (Wiring.keepsWired_steps steps).of_eq hsteps (Wiring.wired_start device)
  refine Sparing.spares (s := s) { hnew with wired := ?_, refills := fun hB => ?_ } hmirrors'
  case refine_1 => simpa [or_imp, forall_and] using ⟨hnew.wired, hwired⟩
  case refine_2 =>
    have hrefilled : w.context.Refilled k w.graph := fun object o =>
      (Wiring.follows_of_steps hsteps).refills hnew.distinct (hrefills hB)
    simpa [or_imp, forall_and] using ⟨hnew.refills hB, hrefilled⟩

theorem compile_spares (hsparing : s.part.Sparing B k) (hmirrors : Mirrors k ⟨s.platform, s.part.context⟩)
    (graph : Nat) {batch : Option Nat} (hwhole : ¬B → batch = none) (config config' : Config) :
    (compile graph batch config config').Ends s fun _ t => Spares B k rest s t := by
  unfold compile
  refine Action.Ends.bind_get ?_
  split
  case h_2 => exact hsparing.spares hmirrors
  case h_1 g hg =>
    have hg := List.mem_of_getElem? hg
    refine Action.Ends.bind_lift (fun program hprogram => ?_) fun _ _ => hsparing.spares hmirrors
    refine Action.Ends.bind_lift (fun machine hmachine => ?_) fun _ _ => hsparing.spares hmirrors
    have hreturns : machine.Returns k s.part.context :=
      Compile.returns_of_compile hprogram hmachine (hsparing.wired g hg)
        ((Classical.em B).symm.imp hwhole fun hB => hsparing.refills hB g hg)
    refine Sparing.spares (s := s) { hsparing with returns := ?_ } hmirrors
    simpa [or_imp, forall_and] using ⟨hsparing.returns, hreturns⟩

theorem execute_spares (hlodged : Lodged rest s) (hsparing : s.part.Sparing B k)
    (hmirrors : Mirrors k ⟨s.platform, s.part.context⟩) (machine : Nat) :
    (execute machine).Ends s fun _ t => Spares B k rest s t := by
  unfold execute
  refine Action.Ends.bind_get ?_
  split
  case h_2 => exact hsparing.spares hmirrors
  case h_1 m hm =>
    have hm := List.mem_of_getElem? hm
    have hrun := onContext_spares hlodged hsparing hmirrors (Machine.execute_spares hlodged.books
      (hlodged.suits m hm).grounded hsparing.avoids (hsparing.returns m hm))
    exact hrun.bind (fun _ _ ht => ht) fun _ _ ht => ht

theorem perform_spares (hlodged : Lodged rest s) (hsparing : s.part.Sparing B k)
    (hmirrors : Mirrors k ⟨s.platform, s.part.context⟩) {deed : Deed} (hdeed : deed.Spares B k) :
    (perform deed).Ends s fun _ t => Spares B k rest s t := by
  obtain ⟨havoids, hrefills, hwhole⟩ := hdeed
  cases deed with
  | bind o =>
    have hgrown := s.part.context.grown_bind o
    obtain ⟨hdistinct, hkept⟩ := (building_avoids k).bind s.part.context o
    exact (hsparing.grown hlodged hgrown (hdistinct hsparing.distinct) (hkept hsparing.avoids)).spares
      (hgrown.mirrors hmirrors)
  | build device steps => exact build_spares hlodged hsparing hmirrors device havoids hrefills
  | compile graph batch config config' => exact compile_spares hsparing hmirrors graph hwhole config config'
  | execute machine => exact execute_spares hlodged hsparing hmirrors machine
  | sync objects =>
    refine onContext_spares hlodged hsparing hmirrors ((sync_deals hlodged.books objects).mono
      fun _ _ hdeals => hdeals.mono fun u d hd => ?_)
    cases d with
    | deliver =>
      obtain ⟨b, hb, hoffset⟩ := hd
      intro x hx _
      cases hb.symm.trans hx
      exact .inl hoffset
    | own => trivial
    | _ => exact hd.elim
  | invalidate => exact onContext_spares hlodged hsparing hmirrors (Deals.of_does .clear trivial)

end Tenant

namespace House

open Context
open Tenant (Sparing Spares)

variable {B : Prop} {k : Handle} {p p' : Platform} {t t' : Tenant} {ts : List Tenant} {h : House}

def Move.Meets (Q : Tenant.Deed → Prop) : Move → Prop
  | .act _ deed => Q deed
  | _ => True

instance {Q : Tenant.Deed → Prop} [DecidablePred Q] : DecidablePred (Move.Meets Q) := fun move =>
  match move with
  | .act _ deed => inferInstanceAs (Decidable (Q deed))
  | .enter .. | .leave _ => isTrue trivial

-- All tenants spare the object.
def Spared (B : Prop) (k : Handle) (p : Platform) (ts : List Tenant) : Prop :=
  ∀ t ∈ ts, t.Sparing B k ∧ Mirrors k ⟨p, t.context⟩

theorem Spared.spares (h : Spared B k p (t :: ts)) (hspares : Spares B k (heldBy ts) ⟨p, t⟩ ⟨p', t'⟩) :
    Spared B k p' (t' :: ts) := by
  refine List.forall_mem_cons.mpr ⟨⟨hspares.sparing, hspares.mirrors⟩, fun x hx => ?_⟩
  obtain ⟨hsparing, hmirrors⟩ := h x (List.mem_cons_of_mem t hx)
  exact ⟨hsparing, hmirrors.frame hspares.bytes fun place id size hid =>
    hspares.others place id size (List.mem_flatMap.mpr ⟨x, hx, hid⟩)⟩

theorem perform_spared {n : Nat} {deed : Tenant.Deed} (hsound : Sound h.platform h.tenants)
    (hspared : Spared B k h.platform h.tenants) (ht : h.tenants[n]? = some t) (hdeed : deed.Spares B k) :
    (Tenant.perform deed).Ends ⟨h.platform, t⟩ fun _ u =>
      u.platform.registry.bytes k = h.platform.registry.bytes k ∧
        Spared B k u.platform (u.part :: h.tenants.eraseIdx n) := by
  have hperm := perm_cons_eraseIdx ht
  have hfirst : Spared B k h.platform (t :: h.tenants.eraseIdx n) := fun x hx =>
    hspared x (hperm.mem_iff.mpr hx)
  obtain ⟨hsparing, hmirrors⟩ := hfirst t List.mem_cons_self
  exact (Tenant.perform_spares (hsound.perm hperm).lodged hsparing hmirrors hdeed).mono fun _ _ hspares =>
    ⟨hspares.bytes, hfirst.spares hspares⟩

theorem step_spared (hsound : Sound h.platform h.tenants) (hspared : Spared B k h.platform h.tenants)
    {move : Move} (hmove : move.Meets (Tenant.Deed.Spares B k)) :
    (h.step move).platform.registry.bytes k = h.platform.registry.bytes k ∧
      Spared B k (h.step move).platform (h.step move).tenants := by
  cases move with
  | enter name devices =>
    simp only [step]
    split
    case isFalse => exact ⟨rfl, hspared⟩
    case isTrue =>
      refine ⟨rfl, fun t ht => ?_⟩
      rcases List.mem_append.mp ht with hold | hnew
      case inl => exact hspared t hold
      case inr =>
        cases List.mem_singleton.mp hnew
        exact ⟨⟨List.nodup_nil, List.forall_mem_nil _, List.forall_mem_nil _, fun _ => List.forall_mem_nil _,
          List.forall_mem_nil _⟩, List.forall_mem_nil _⟩
  | act n deed =>
    simp only [step]
    split
    case h_1 => exact ⟨rfl, hspared⟩
    case h_2 t ht =>
      obtain ⟨hbytes, hrest⟩ := perform_spared hsound hspared ht hmove
      exact ⟨hbytes, fun x hx => hrest x ((set_perm_cons ht _).mem_iff.mp hx)⟩
  | leave n =>
    simp only [step]
    split
    case h_1 => exact ⟨rfl, hspared⟩
    case h_2 t ht =>
      have hdeed : Tenant.Deed.Spares B k .invalidate := ⟨trivial, fun _ => trivial, fun _ => trivial⟩
      obtain ⟨hbytes, hrest⟩ := perform_spared hsound hspared ht hdeed
      exact ⟨hbytes, fun x hx => hrest x (List.mem_cons_of_mem _ hx)⟩

end House
end Offload
