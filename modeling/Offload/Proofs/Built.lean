import Offload.Proofs.Abreast
import Offload.Proofs.Wiring

/-!
What the steps of a schedule leave in the graph and the context they are wired into: one instruction node
for each step, in the order of the steps, and a table entry for everything that a step names.
-/

namespace Offload

def Step.task? : Step → Option Task
  | .task t => some t
  | .streamIn _ | .streamOut _ => none

namespace Context

variable {c c' c'' : Context} {os : List HostObject} {o : HostObject}

-- No object has a buffer.
def Empty (c : Context) : Prop :=
  ∀ x ∈ c.bindings, x.state.buffer = none

theorem Empty.buffer_eq_none (he : c.Empty) {h : Handle} {st : ObjectState} (hst : c.state? h = some st) :
    st.buffer = none := by
  obtain ⟨x, hx, rfl⟩ := Option.map_eq_some_iff.mp hst
  exact he x (List.mem_of_find?_eq_some hx)

theorem Empty.buffer?_eq_none (he : c.Empty) (h : Handle) : c.buffer? h = none := by
  cases hst : c.state? h with
  | none => rw [buffer?, hst]; rfl
  | some st => rw [buffer?, hst]; exact he.buffer_eq_none hst

-- Nothing happened but that some of the objects `os` were bound.
structure Bound (os : List HostObject) (c c' : Context) : Prop where
  devices  : c'.devices = c.devices
  active   : c'.active = c.active
  kernels  : c'.kernels = c.kernels
  tasks    : c'.tasks = c.tasks
  objects  : c.objects <+: c'.objects
  origin   : ∀ o ∈ c'.objects, o ∈ c.objects ∨ o ∈ os
  distinct : c.Distinct → c'.Distinct
  empty    : c.Empty → c'.Empty

namespace Bound

theorem refl (c : Context) : Bound os c c :=
  ⟨rfl, rfl, rfl, rfl, List.prefix_rfl, fun _ h => .inl h, id, id⟩

theorem trans (h : Bound os c c') (h' : Bound os c' c'') : Bound os c c'' where
  devices := h'.devices.trans h.devices
  active := h'.active.trans h.active
  kernels := h'.kernels.trans h.kernels
  tasks := h'.tasks.trans h.tasks
  objects := h.objects.trans h'.objects
  origin o ho := (h'.origin o ho).elim (h.origin o) .inr
  distinct := h'.distinct ∘ h.distinct
  empty := h'.empty ∘ h.empty

theorem bind (ho : o ∈ os) : Bound os c (c.bind o).2 := by
  unfold Context.bind
  cases hindex : c.objectIndex? o.handle with
  | some index => exact refl c
  | none =>
    have hnew : ∀ x ∈ c.bindings, x.object.handle ≠ o.handle := fun x hx => by
      simpa using List.findIdx?_eq_none_iff.mp hindex x hx
    have hobjects : ({ c with bindings := c.bindings ++ [{ object := o }] } : Context).objects =
        c.objects ++ [o] := by simp [Context.objects]
    constructor
    case devices => rfl
    case active => rfl
    case kernels => rfl
    case tasks => rfl
    case objects =>
      rw [hobjects]
      exact List.prefix_append _ _
    case origin =>
      intro o' ho'
      rw [hobjects] at ho'
      refine (List.mem_append.mp ho').imp_right fun hlast => ?_
      rw [List.mem_singleton.mp hlast]
      exact ho
    case distinct =>
      intro hd
      rw [Distinct, hobjects, List.map_append]
      refine List.nodup_append.mpr ⟨hd, List.nodup_singleton _, fun h hh k hk heq => ?_⟩
      obtain ⟨o', ho', rfl⟩ := List.mem_map.mp hh
      obtain ⟨x, hx, rfl⟩ := List.mem_map.mp ho'
      exact hnew x hx (heq.trans (List.mem_singleton.mp hk))
    case empty =>
      intro he x hx
      rcases List.mem_append.mp hx with hold | hlast
      case inl => exact he x hold
      case inr => rw [List.mem_singleton.mp hlast]

theorem bindAll {objects : List HostObject} (hos : objects ⊆ os) : Bound os c (c.bindAll objects) := by
  unfold Context.bindAll
  induction objects generalizing c with
  | nil => exact refl c
  | cons o objects ih =>
    have ⟨ho, hrest⟩ := List.cons_subset.mp hos
    exact (bind ho).trans (ih hrest)

theorem bindOne (c : Context) (o : HostObject) : Bound [o] c (c.bind o).2 :=
  bind (List.mem_singleton_self o)

theorem bindEach (c : Context) (os : List HostObject) : Bound os c (c.bindAll os) :=
  bindAll (List.Subset.refl os)

theorem modifyState (index : Nat) {f : ObjectState → ObjectState}
    (hf : ∀ st, (f st).buffer = st.buffer) : Bound os c (c.modifyState index f) where
  devices := rfl
  active := rfl
  kernels := rfl
  tasks := rfl
  objects := objects_modifyState c index f ▸ List.prefix_rfl
  origin o ho := .inl (by rwa [objects_modifyState] at ho)
  distinct := fun hd => hd.modifyState index f
  empty := by
    intro he x hx
    obtain ⟨place, hplace⟩ := List.getElem?_of_mem hx
    simp only [Context.modifyState, List.getElem?_modify] at hplace
    obtain ⟨y, hy, rfl⟩ := Option.map_eq_some_iff.mp hplace
    split
    case isTrue => exact (hf y.state).trans (he y (List.mem_of_getElem? hy))
    case isFalse => exact he y (List.mem_of_getElem? hy)

end Bound

-- What was bound is found at its index.
theorem objects_bind (c : Context) (o : HostObject) :
    ∃ x, (c.bind o).2.objects[(c.bind o).1]? = some x ∧ x.handle = o.handle := by
  obtain ⟨hlt, hhandle, _⟩ := List.findIdx?_eq_some_iff_getElem.mp (c.objectIndex?_bind o)
  refine ⟨_, ?_, by simpa using hhandle⟩
  simp [objects, hlt]

theorem mem_objects_bindAll {objects : List HostObject} (ho : o ∈ objects) (c : Context) :
    o.handle ∈ (c.bindAll objects).objects.map HostObject.handle := by
  unfold bindAll
  induction objects generalizing c with
  | nil => cases ho
  | cons o' objects ih =>
    rcases List.mem_cons.mp ho with rfl | hrest
    case inr => exact ih hrest _
    case inl =>
      obtain ⟨x, hx, heq⟩ := c.objects_bind o
      have hfront := (Bound.bindEach (c.bind o).2 objects).objects
      rw [← heq]
      exact List.mem_map_of_mem (hfront.subset (List.mem_of_getElem? hx))

end Context

namespace Graph

variable {g : Graph} {kind : NodeKind} {inputs : List Nat}

theorem kind?_push {id : Nat} {k : NodeKind} (h : g.kind? id = some k) :
    (g.push kind inputs).kind? id = some k := by
  obtain ⟨n, hn, _⟩ := Option.map_eq_some_iff.mp h
  rw [kind?_push_of_lt (List.getElem?_eq_some_iff.mp hn).1, h]

theorem idsWhere_push (p : NodeKind → Bool) :
    (g.push kind inputs).idsWhere p = g.idsWhere p ++ if p kind then [g.size] else [] := by
  unfold idsWhere
  rw [size_push, List.range_succ, List.filter_append]
  congr 1
  case e_a =>
    refine List.filter_congr fun id hid => ?_
    rw [kind?_push_of_lt (List.mem_range.mp hid)]
  case e_a =>
    rw [List.filter_singleton, kind?_push_size, Option.any_some]
    cases p kind <;> rfl

theorem instructionNodes_push : (g.push kind inputs).instructionNodes =
    g.instructionNodes ++ if kind.isInstruction then [g.size] else [] :=
  idsWhere_push NodeKind.isInstruction

end Graph

namespace Wiring

open Context (Bound)

variable {os : List HostObject} {w w' w'' : Wiring}

-- Objects were bound, and data dependencies were added.
structure Prepared (os : List HostObject) (w w' : Wiring) : Prop where
  bound        : Bound os w.context w'.context
  kinds        : ∀ {id kind}, w.graph.kind? id = some kind → w'.graph.kind? id = some kind
  instructions : w'.graph.instructionNodes = w.graph.instructionNodes

theorem prepared_lasting (os : List HostObject) : Action.Lasting (Prepared os) where
  refl w := ⟨.refl w.context, id, rfl⟩
  trans h h' := ⟨h.bound.trans h'.bound, h'.kinds ∘ h.kinds, h'.instructions.trans h.instructions⟩

theorem addNode_ok {kind : NodeKind} {inputs : List Nat} {id : Nat}
    (h : addNode kind inputs w = (.ok id, w')) :
    id = w.graph.size ∧ w' = { w with graph := w.graph.push kind inputs } := by
  unfold addNode at h
  obtain ⟨_, _, hget, h⟩ := Action.bind_ok.mp h
  cases hget
  obtain ⟨g, _, hlift, h⟩ := Action.bind_ok.mp h
  obtain ⟨hg, rfl⟩ := Action.lift_eq_ok.mp hlift
  obtain ⟨rfl, _⟩ := Graph.add_ok hg
  cases h
  exact ⟨rfl, rfl⟩

theorem prepared_addNode (producer : Nat) :
    (addNode (.dataDependency producer) []).Keeps (Prepared os) := by
  intro w
  unfold addNode
  refine .bind_get (.bind_lift (fun g hg => ?_) fun _ _ => (prepared_lasting os).refl w)
  obtain ⟨rfl, _⟩ := Graph.add_ok hg
  have hpush : (w.graph.push (.dataDependency producer) []).instructionNodes =
      w.graph.instructionNodes := by simp [Graph.instructionNodes_push, NodeKind.isInstruction]
  exact ⟨.refl _, Graph.kind?_push, hpush⟩

theorem prepared_bind {o : HostObject} (ho : o ∈ os) : (bind o).Keeps (Prepared os) :=
  fun _ => ⟨.bind ho, id, rfl⟩

theorem prepared_modifyState (index : Nat) {f : ObjectState → ObjectState}
    (hf : ∀ st, (f st).buffer = st.buffer) : (modifyState index f).Keeps (Prepared os) :=
  .modify fun _ => ⟨.modifyState index hf, id, rfl⟩

theorem sought_prepared (os : List HostObject) : Sought os (Prepared os) where
  lasting := prepared_lasting os
  bind _ ho := prepared_bind ho
  link := prepared_addNode

-- What a node of that kind does in a context.
def Does (c : Context) : NodeKind → Step → Prop
  | .task index, .task t => c.tasks[index]? = some t
  | .streamIn index, .streamIn o | .streamOut index, .streamOut o =>
    ∃ x, c.objects[index]? = some x ∧ x.handle = o.handle
  | _, _ => False

theorem Does.mono {c c' : Context} (hobjects : c.objects <+: c'.objects) (htasks : c.tasks <+: c'.tasks)
    {kind : NodeKind} {step : Step} (h : Does c kind step) : Does c' kind step := by
  have hobject {index : Nat} {o : HostObject} : (∃ x, c.objects[index]? = some x ∧ x.handle = o.handle) →
      ∃ x, c'.objects[index]? = some x ∧ x.handle = o.handle :=
    fun ⟨x, hx, heq⟩ => ⟨x, WaitLists.getElem?_of_prefix hobjects hx, heq⟩
  cases kind <;> cases step <;> first | exact h.elim | exact hobject h | skip
  exact WaitLists.getElem?_of_prefix htasks h

-- There is one instruction node for each step, and it does what the step says.
def Follows (w : Wiring) (steps : List Step) : Prop :=
  List.Forall₂ (fun id step => ∃ kind, w.graph.kind? id = some kind ∧ Does w.context kind step)
    w.graph.instructionNodes steps

-- The graph and the context so far are those of the steps.
structure Traced (c : Context) (steps : List Step) (w : Wiring) : Prop where
  devices  : w.context.devices = c.devices
  active   : w.context.active = c.active
  kernels  : w.context.kernels = c.kernels
  nodes    : w.Follows steps
  tasks    : ∀ t ∈ w.context.tasks, .task t ∈ steps ∧
    ∀ a ∈ t.arguments, a.object.handle ∈ w.context.objects.map HostObject.handle
  objects  : ∀ o ∈ w.context.objects, ∃ step ∈ steps, o ∈ step.objects
  distinct : w.context.Distinct
  empty    : w.context.Empty

-- From one step to the next the context grows, and there is one more instruction node.
structure Extended (step : Step) (w w' : Wiring) : Prop where
  devices  : w'.context.devices = w.context.devices
  active   : w'.context.active = w.context.active
  kernels  : w'.context.kernels = w.context.kernels
  objects  : w.context.objects <+: w'.context.objects
  tasks    : w'.context.tasks = w.context.tasks ++ step.task?.toList
  origin   : ∀ o ∈ w'.context.objects, o ∈ w.context.objects ∨ o ∈ step.objects
  new      : ∀ t ∈ w'.context.tasks, t ∈ w.context.tasks ∨ step = .task t ∧
    ∀ a ∈ t.arguments, a.object.handle ∈ w'.context.objects.map HostObject.handle
  distinct : w.context.Distinct → w'.context.Distinct
  empty    : w.context.Empty → w'.context.Empty
  node     : ∃ (g : Graph) (kind : NodeKind) (inputs : List Nat),
    (∀ {id k}, w.graph.kind? id = some k → g.kind? id = some k) ∧
    g.instructionNodes = w.graph.instructionNodes ∧ w'.graph = g.push kind inputs ∧
    kind.isInstruction ∧ Does w'.context kind step

theorem Extended.follows {steps : List Step} {step : Step} (he : Extended step w w') (h : w.Follows steps) :
    w'.Follows (steps ++ [step]) := by
  obtain ⟨g, kind, inputs, hkinds, hinstructions, hgraph, hkind, hdoes⟩ := he.node
  rw [Follows, hgraph, Graph.instructionNodes_push, hinstructions, if_pos hkind]
  refine List.rel_append ?_ (.cons ⟨kind, g.kind?_push_size kind inputs, hdoes⟩ .nil)
  refine h.imp fun id step' ⟨k, hk, hdoes'⟩ => ?_
  exact ⟨k, Graph.kind?_push (hkinds hk), hdoes'.mono he.objects (he.tasks ▸ List.prefix_append _ _)⟩

theorem Traced.extend {c : Context} {steps : List Step} {step : Step} (h : Traced c steps w)
    (he : Extended step w w') : Traced c (steps ++ [step]) w' := by
  constructor
  case devices => rw [he.devices, h.devices]
  case active => rw [he.active, h.active]
  case kernels => rw [he.kernels, h.kernels]
  case nodes => exact he.follows h.nodes
  case tasks =>
    intro t ht
    rcases he.new t ht with hold | ⟨rfl, hbound⟩
    case inr => exact ⟨by simp, hbound⟩
    case inl =>
      have ⟨hstep, hbound⟩ := h.tasks t hold
      exact ⟨List.mem_append_left _ hstep, fun a ha =>
        (he.objects.map HostObject.handle).subset (hbound a ha)⟩
  case objects =>
    intro o ho
    rcases he.origin o ho with hold | hnew
    case inl =>
      obtain ⟨step', hstep, ho'⟩ := h.objects o hold
      exact ⟨step', List.mem_append_left _ hstep, ho'⟩
    case inr => exact ⟨step, by simp, hnew⟩
  case distinct => exact he.distinct h.distinct
  case empty => exact he.empty h.empty

-- A transfer adds no task.
theorem Extended.of_bound {step : Step} (hstep : step.task? = none) {w₂ : Wiring}
    (h : Prepared step.objects w w₂) {kind : NodeKind} {inputs : List Nat} (hcontext : w'.context = w₂.context)
    (hgraph : w'.graph = w₂.graph.push kind inputs) (hkind : kind.isInstruction)
    (hdoes : Does w₂.context kind step) : Extended step w w' where
  devices := hcontext ▸ h.bound.devices
  active := hcontext ▸ h.bound.active
  kernels := hcontext ▸ h.bound.kernels
  objects := hcontext ▸ h.bound.objects
  tasks := by rw [hcontext, h.bound.tasks, hstep, Option.toList_none, List.append_nil]
  origin := hcontext ▸ h.bound.origin
  new := by
    rw [hcontext, h.bound.tasks]
    exact fun t ht => .inl ht
  distinct := hcontext ▸ h.bound.distinct
  empty := hcontext ▸ h.bound.empty
  node := ⟨w₂.graph, kind, inputs, h.kinds, h.instructions, hgraph, hkind, hcontext ▸ hdoes⟩

theorem extended_streamIn {o : HostObject} {id : Nat} (h : streamIn o w = (.ok id, w')) :
    Extended (.streamIn o) w w' := by
  unfold streamIn at h
  obtain ⟨index, w₁, hbind, h⟩ := Action.bind_ok.mp h
  obtain ⟨_, w₂, hmodify, h⟩ := Action.bind_ok.mp h
  obtain ⟨node, w₃, hnode, h⟩ := Action.bind_ok.mp h
  obtain ⟨rfl, rfl⟩ := addNode_ok hnode
  cases h
  have hR := prepared_lasting [o]
  have hbound : Prepared [o] w w₁ := (prepared_bind (by simp)).of_eq hbind
  have hmodified : Prepared [o] w₁ w₂ :=
    (prepared_modifyState index (f := fun st => { st with streamIn := true }) fun _ => rfl).of_eq hmodify
  refine .of_bound rfl (hR.trans hbound hmodified) rfl rfl rfl ?_
  cases hbind
  obtain ⟨x, hx, heq⟩ := w.context.objects_bind o
  exact ⟨x, WaitLists.getElem?_of_prefix hmodified.bound.objects hx, heq⟩

theorem extended_streamOut {o : HostObject} {id : Nat} (h : streamOut o w = (.ok id, w')) :
    Extended (.streamOut o) w w' := by
  unfold streamOut at h
  obtain ⟨index, w₁, hbind, h⟩ := Action.bind_ok.mp h
  obtain ⟨_, w₂, hmodify, h⟩ := Action.bind_ok.mp h
  obtain ⟨found, w₃, hsource, h⟩ := Action.bind_ok.mp h
  have hR := prepared_lasting [o]
  have hbound : Prepared [o] w w₁ := (prepared_bind (by simp)).of_eq hbind
  have hmodified : Prepared [o] w₁ w₂ :=
    (prepared_modifyState index (f := fun st => { st with streamOut := true }) fun _ => rfl).of_eq hmodify
  have hrest : Prepared [o] w₁ w₃ := hR.trans hmodified (((sought_prepared [o]).source index).of_eq hsource)
  obtain ⟨inputs, hnode⟩ : ∃ inputs, addNode (.streamOut index) inputs w₃ = (.ok id, w') := by
    cases found with
    | none => exact ⟨_, h⟩
    | some node => exact ⟨_, h⟩
  obtain ⟨rfl, rfl⟩ := addNode_ok hnode
  refine .of_bound rfl (hR.trans hbound hrest) rfl rfl rfl ?_
  cases hbind
  obtain ⟨x, hx, heq⟩ := w.context.objects_bind o
  exact ⟨x, WaitLists.getElem?_of_prefix hrest.bound.objects hx, heq⟩

theorem extended_task {t : Task} {id : Nat} (h : task t w = (.ok id, w')) :
    Extended (.task t) w w' := by
  unfold task at h
  obtain ⟨_, _, hget, h⟩ := Action.bind_ok.mp h
  cases hget
  obtain ⟨_, _, hset, h⟩ := Action.bind_ok.mp h
  cases hset
  obtain ⟨inputs, w₂, hsources, h⟩ := Action.bind_ok.mp h
  obtain ⟨node, w₃, hnode, h⟩ := Action.bind_ok.mp h
  obtain ⟨rfl, rfl⟩ := addNode_ok hnode
  cases h
  have hos : t.arguments.map Argument.object ⊆ (Step.task t).objects := List.Subset.refl _
  have hbound : Bound (Step.task t).objects w.context
    (w.context.bindAll (t.arguments.map Argument.object)) := .bindAll hos
  have hrest := ((sought_prepared _).argumentSources hos _).of_eq hsources
  have htasks : w₂.context.tasks = w.context.tasks ++ [t] := by
    rw [hrest.bound.tasks, ← hbound.tasks]
  constructor
  case devices => exact hrest.bound.devices.trans hbound.devices
  case active => exact hrest.bound.active.trans hbound.active
  case kernels => exact hrest.bound.kernels.trans hbound.kernels
  case objects => exact hbound.objects.trans hrest.bound.objects
  case tasks => exact htasks
  case origin =>
    intro o ho
    exact (hrest.bound.origin o ho).elim (hbound.origin o) .inr
  case new =>
    intro t' ht'
    rw [htasks] at ht'
    refine (List.mem_append.mp ht').imp_right fun hlast => ?_
    cases List.mem_singleton.mp hlast
    refine ⟨rfl, fun a ha => (hrest.bound.objects.map HostObject.handle).subset ?_⟩
    exact Context.mem_objects_bindAll (List.mem_map_of_mem ha) w.context
  case distinct => exact fun hd => hrest.bound.distinct (hbound.distinct hd)
  case empty => exact fun he => hrest.bound.empty (hbound.empty he)
  case node =>
    refine ⟨w₂.graph, _, inputs, hrest.kinds, hrest.instructions, rfl, rfl, ?_⟩
    change w₂.context.tasks[(w.context.bindAll _).tasks.length]? = some t
    rw [htasks, hbound.tasks, List.getElem?_concat_length]

theorem extended_step {step : Step} {id : Nat} (h : Wiring.step step w = (.ok id, w')) :
    Extended step w w' := by
  cases step with
  | streamIn o => exact extended_streamIn h
  | task t => exact extended_task h
  | streamOut o => exact extended_streamOut h

-- From one step to the next whatever is true of what was built so far.
theorem steps_induction {I : List Step → Wiring → Prop} {done steps : List Step}
    (hstep : ∀ {done step w w'}, Extended step w w' → I done w → I (done ++ [step]) w')
    (hw : I done w) (h : (steps.forM fun s => discard (step s) : Action Wiring Unit) w = (.ok ⟨⟩, w')) :
    I (done ++ steps) w' := by
  induction steps generalizing done w with
  | nil =>
    cases h
    rwa [List.append_nil]
  | cons s steps ih =>
    obtain ⟨_, w₁, hfirst, hrest⟩ := Action.bind_ok.mp h
    obtain ⟨id, _, hstep', hpure⟩ := Action.bind_ok.mp hfirst
    cases hpure
    have hall := ih (hstep (extended_step hstep') hw) hrest
    rwa [List.append_assoc] at hall

theorem traced_steps {c : Context} {done steps : List Step} (ht : Traced c done w)
    (h : (steps.forM fun s => discard (step s) : Action Wiring Unit) w = (.ok ⟨⟩, w')) :
    Traced c (done ++ steps) w' :=
  steps_induction (fun he ht => ht.extend he) ht h

-- There is one task for each step that has one.
theorem tasks_of_build {c : Context} {device : Nat} {steps : List Step} (h : build c device steps = .ok w) :
    w.context.tasks = c.tasks ++ steps.filterMap Step.task? := by
  have hadds {done : List Step} {step : Step} {w w' : Wiring} (he : Extended step w w')
      (hw : w.context.tasks = c.tasks ++ done.filterMap Step.task?) :
      w'.context.tasks = c.tasks ++ (done ++ [step]).filterMap Step.task? := by
    rw [he.tasks, hw, List.append_assoc, List.filterMap_append]
    cases step <;> rfl
  have hstart : c.tasks = c.tasks ++ [].filterMap Step.task? := (List.append_nil _).symm
  exact steps_induction (I := fun done w => w.context.tasks = c.tasks ++ done.filterMap Step.task?) hadds hstart
    (build_ok h)

-- The graph and the context that steps were wired into, if nothing was bound before.
theorem traced_of_build {c : Context} {device : Nat} {steps : List Step} (hempty : c.bindings = [])
    (htasks : c.tasks = []) (h : build c device steps = .ok w) : Traced c steps w := by
  have hstart : Traced c [] { context := c, graph := ({} : Graph).push (.context device) [] } := by
    constructor
    case devices => rfl
    case active => rfl
    case kernels => rfl
    case nodes => exact .nil
    case tasks =>
      intro t ht
      rw [htasks] at ht
      cases ht
    case objects =>
      intro o ho
      simp [Context.objects, hempty] at ho
    case distinct => simp [Context.Distinct, Context.objects, hempty]
    case empty =>
      intro x hx
      rw [hempty] at hx
      cases hx
  have htraced := traced_steps hstart (build_ok h)
  rwa [List.nil_append] at htraced

-- A node stands for its step, but for what the step says of an object besides its handle.
theorem step?_of_does {b : Bench} {g : Graph} {id : Nat} {kind : NodeKind} {step : Step}
    (hkind : g.kind? id = some kind) {c : Context} (hobjects : b.objects = c.objects)
    (htasks : b.tasks = c.tasks) (h : Does c kind step) :
    ∃ step', b.step? g id = some step' ∧ step'.Alike step := by
  unfold Bench.step?
  cases kind <;> cases step <;> try exact h.elim
  case task.task index t =>
    have htask : c.tasks[index]? = some t := h
    exact ⟨.task t, by simp [hkind, htasks, htask], rfl⟩
  case streamIn.streamIn index o =>
    obtain ⟨x, hx, heq⟩ := h
    exact ⟨.streamIn x, by simp [hkind, hobjects, hx], heq⟩
  case streamOut.streamOut index o =>
    obtain ⟨x, hx, heq⟩ := h
    exact ⟨.streamOut x, by simp [hkind, hobjects, hx], heq⟩

-- Nodes that do what some steps say are these steps, up to what is said of the objects.
theorem steps_of_nodes {g : Graph} {c : Context} {nodes : List Nat} {steps : List Step}
    (h : List.Forall₂ (fun id step => ∃ kind, g.kind? id = some kind ∧ Does c kind step) nodes steps) {b : Bench}
    (hobjects : b.objects = c.objects) (htasks : b.tasks = c.tasks) :
    (∀ id ∈ nodes, ∃ step, b.step? g id = some step) ∧
      List.Forall₂ Step.Alike (nodes.filterMap (b.step? g)) steps := by
  induction h with
  | nil => exact ⟨nofun, .nil⟩
  | cons hnode _ ih =>
    obtain ⟨kind, hkind, hdoes⟩ := hnode
    obtain ⟨step', hstep, halike⟩ := step?_of_does hkind hobjects htasks hdoes
    have ⟨hall, hrest⟩ := ih
    refine ⟨List.forall_mem_cons.mpr ⟨⟨step', hstep⟩, hall⟩, ?_⟩
    rw [List.filterMap_cons, hstep]
    exact .cons halike hrest

theorem Traced.steps {c : Context} {steps : List Step} (h : Traced c steps w) {b : Bench}
    (hobjects : b.objects = w.context.objects) (htasks : b.tasks = w.context.tasks) :
    (∀ id ∈ w.graph.instructionNodes, ∃ step, b.step? w.graph id = some step) ∧
      List.Forall₂ Step.Alike (w.graph.instructionNodes.filterMap (b.step? w.graph)) steps :=
  steps_of_nodes h.nodes hobjects htasks

-- The steps are what the graph was built from.
theorem follows_of_steps {c : Context} {device : Nat} {steps : List Step}
    (h : (steps.forM fun s => discard (step s) : Action Wiring Unit)
      { context := c, graph := ({} : Graph).push (.context device) [] } = (.ok ⟨⟩, w)) : w.Follows steps :=
  have hstart : Follows { context := c, graph := ({} : Graph).push (.context device) [] } [] := List.Forall₂.nil
  steps_induction (I := fun done w => w.Follows done) (fun he hw => he.follows hw) hstart h

end Wiring

-- Each node needs earlier ones only, so that they are issued as they were built.
theorem Graph.Wired.order_of_dependencies {g : Graph} (hg : g.Wired) {d : Graph.Dependencies}
    (hd : g.dependencies = .ok d) : g.order d = .ok g.instructionNodes :=
  Graph.order_of_ascending fun id _ _ hdep =>
    ⟨Graph.Dependencies.of_subset hd id hdep, hg.feeds_lt ((Graph.Dependencies.mem_of_iff hd).mp hdep)⟩

theorem Graph.Wired.order_eq {g : Graph} (hg : g.Wired) {d : Graph.Dependencies} {order : List Nat}
    (hd : g.dependencies = .ok d) (horder : g.order d = .ok order) : order = g.instructionNodes :=
  Except.ok.inj (horder.symm.trans (hg.order_of_dependencies hd))

-- The order of the nodes is that of the steps.
theorem Wiring.order_eq {w : Wiring} {c : Context} {device : Nat} {steps : List Step}
    (h : build c device steps = .ok w) {d : Graph.Dependencies} {order : List Nat}
    (hd : w.graph.dependencies = .ok d) (horder : w.graph.order d = .ok order) :
    order = w.graph.instructionNodes :=
  (wired_of_build h).order_eq hd horder

end Offload
