import Offload.Proofs.Built
import Offload.Proofs.Suited
import Offload.Proofs.Upkeep

/-!
Contexts that grow: binding objects and building graphs adds entries to the tables, and leaves the buffers
and what is on record about them alone.
-/

namespace Offload

-- One of many, and the others.
section
variable {α : Type} {xs : List α} {x : α} {k : Nat}

theorem perm_cons_eraseIdx (h : xs[k]? = some x) : xs.Perm (x :: xs.eraseIdx k) := by
  obtain ⟨hlt, rfl⟩ := List.getElem?_eq_some_iff.mp h
  exact (List.getElem_cons_eraseIdx_perm hlt).symm

theorem set_perm_cons (h : xs[k]? = some x) (y : α) : (xs.set k y).Perm (y :: xs.eraseIdx k) := by
  obtain ⟨hlt, _⟩ := List.getElem?_eq_some_iff.mp h
  have hperm := perm_cons_eraseIdx (List.getElem?_set_self hlt : (xs.set k y)[k]? = some y)
  rwa [List.eraseIdx_set_eq] at hperm

end

-- A state but for what the graph does with its object.
def ObjectState.core (st : ObjectState) : ObjectState :=
  { st with streamIn := false, streamOut := false }

theorem ObjectState.tidy_core {st : ObjectState} : st.core.Tidy ↔ st.Tidy :=
  ⟨fun h => ⟨h.blank, h.agree⟩, fun h => ⟨h.blank, h.agree⟩⟩

namespace Context

variable {P : Prop} {rest : Nat → List (BufferId × Nat)} {c c' : Context} {s : Hosted Context}

-- The bound objects, with what is on record about their buffers.
def sheet (c : Context) : List (HostObject × ObjectState) :=
  c.bindings.map fun b => (b.object, b.state.core)

-- There may be more entries than before, which are blank.
structure Grown (c c' : Context) : Prop where
  devices : c'.devices = c.devices
  active  : c'.active = c.active
  tasks   : c.tasks <+: c'.tasks
  sheet   : ∃ new : List HostObject, c'.sheet = c.sheet ++ new.map fun o => (o, ({} : ObjectState))
  binds   : c.Binds → c'.Binds

theorem grown_lasting : Action.Lasting Grown where
  refl c := ⟨rfl, rfl, List.prefix_rfl, ⟨[], by simp⟩, id⟩
  trans := by
    intro c c' c'' h h'
    obtain ⟨new, hnew⟩ := h.sheet
    obtain ⟨new', hnew'⟩ := h'.sheet
    exact ⟨h'.devices.trans h.devices, h'.active.trans h.active, h.tasks.trans h'.tasks,
      ⟨new ++ new', by rw [hnew', hnew, List.map_append, List.append_assoc]⟩, h'.binds ∘ h.binds⟩

theorem objects_eq_sheet (c : Context) : c.objects = c.sheet.map Prod.fst := by
  simp [objects, sheet, Function.comp_def]

theorem held_eq_sheet (c : Context) :
    c.held = c.sheet.filterMap fun x => x.2.buffer.map (·, x.2.size) := by
  rw [sheet, List.filterMap_map]
  rfl

theorem Grown.objects (h : Grown c c') : c.objects <+: c'.objects := by
  obtain ⟨new, hnew⟩ := h.sheet
  rw [objects_eq_sheet, objects_eq_sheet, hnew, List.map_append]
  exact List.prefix_append _ _

theorem Grown.held (h : Grown c c') : c'.held = c.held := by
  obtain ⟨new, hnew⟩ := h.sheet
  rw [held_eq_sheet, held_eq_sheet, hnew, List.filterMap_append]
  simp

theorem Grown.activePlace? (h : Grown c c') : c'.activePlace? = c.activePlace? := by
  rw [Context.activePlace?, h.active, h.devices]
  rfl

-- What is true of all records, and of blank ones, is true after some were added.
theorem Grown.forall_bindings {Q : HostObject → ObjectState → Prop} (h : Grown c c')
    (hcore : ∀ o st, Q o st.core ↔ Q o st) (hblank : ∀ o, Q o {})
    (hall : ∀ b ∈ c.bindings, Q b.object b.state) : ∀ b ∈ c'.bindings, Q b.object b.state := by
  obtain ⟨new, hnew⟩ := h.sheet
  intro b hb
  have hmem : (b.object, b.state.core) ∈ c'.sheet := List.mem_map_of_mem hb
  rw [hnew] at hmem
  rw [← hcore]
  rcases List.mem_append.mp hmem with hold | hnew
  case inl =>
    obtain ⟨b', hb', heq⟩ := List.mem_map.mp hold
    obtain ⟨hobject, hstate⟩ := Prod.mk.inj heq
    rw [← hobject, ← hstate, hcore]
    exact hall b' hb'
  case inr =>
    obtain ⟨o, _, heq⟩ := List.mem_map.mp hnew
    obtain ⟨hobject, hstate⟩ := Prod.mk.inj heq
    rw [← hobject, ← hstate]
    exact hblank o

theorem Grown.books (h : Grown s.part c') (hbooks : Books rest s) : Books rest { s with part := c' } where
  attached place hplace := hbooks.attached place (h.devices ▸ hplace)
  orderly := hbooks.orderly
  balanced place := by
    rw [heldAt, h.activePlace?, h.held]
    exact hbooks.balanced place
  housed := by
    rw [h.activePlace?, h.held]
    exact hbooks.housed
  tidy := h.forall_bindings (fun _ _ => ObjectState.tidy_core) (fun _ => ObjectState.tidy_default)
    hbooks.tidy

theorem Grown.trusted (h : Grown s.part c') (htrust : Trusted s) : Trusted { s with part := c' } where
  honest := htrust.honest
  inside := h.forall_bindings
    (Q := fun o st => st.hostOffset ≤ s.platform.registry.byteLength o.handle) (fun _ _ => Iff.rfl)
    (fun _ => Nat.zero_le _) htrust.inside

theorem grown_bind (c : Context) (o : HostObject) : Grown c (c.bind o).2 := by
  unfold Context.bind
  cases c.objectIndex? o.handle with
  | some index => exact grown_lasting.refl c
  | none =>
    refine ⟨rfl, rfl, List.prefix_rfl, ⟨[o], by simp [sheet]; rfl⟩, fun hbinds t ht a ha => ?_⟩
    have hobjects : ({ c with bindings := c.bindings ++ [{ object := o }] } : Context).objects =
        c.objects ++ [o] := by simp [Context.objects]
    rw [hobjects, List.map_append]
    exact List.mem_append_left _ (hbinds t ht a ha)

theorem grown_bindAll (c : Context) (objects : List HostObject) : Grown c (c.bindAll objects) := by
  unfold bindAll
  induction objects generalizing c with
  | nil => exact grown_lasting.refl c
  | cons o objects ih => exact grown_lasting.trans (grown_bind c o) (ih _)

theorem grown_modifyState (c : Context) (index : Nat) {f : ObjectState → ObjectState}
    (hf : ∀ st, (f st).core = st.core) : Grown c (c.modifyState index f) := by
  have hsheet : (c.modifyState index f).sheet = c.sheet := by
    refine List.ext_getElem? fun i => ?_
    simp only [sheet, modifyState, List.getElem?_map, List.getElem?_modify]
    split <;> cases c.bindings[i]? <;> simp [hf]
  refine ⟨rfl, rfl, List.prefix_rfl, ⟨[], by simp [hsheet]⟩, fun hbinds => ?_⟩
  rwa [Binds, objects_modifyState]

theorem grown_addTask (c : Context) (t : Task) : Grown c (c.addTask t).2 := by
  have hgrown := grown_bindAll c (t.arguments.map Argument.object)
  refine ⟨hgrown.devices, hgrown.active, ?_, hgrown.sheet, fun hbinds t' ht' a ha => ?_⟩
  case refine_1 => exact hgrown.tasks.trans (List.prefix_append _ _)
  case refine_2 =>
    rcases List.mem_append.mp ht' with hold | hnew
    case inl => exact hgrown.binds hbinds t' hold a ha
    case inr =>
      cases List.mem_singleton.mp hnew
      exact mem_objects_bindAll (List.mem_map_of_mem ha) c

theorem Refers.mono (hobjects : c.objects <+: c'.objects) (htasks : c.tasks <+: c'.tasks) {kind : NodeKind}
    (h : c.Refers kind) : c'.Refers kind := by
  cases kind with
  | task index =>
    obtain ⟨t, ht⟩ := h
    exact ⟨t, WaitLists.getElem?_of_prefix htasks ht⟩
  | streamIn | streamOut =>
    obtain ⟨o, ho⟩ := h
    exact ⟨o, WaitLists.getElem?_of_prefix hobjects ho⟩
  | _ => trivial

theorem Covers.mono (hobjects : c.objects <+: c'.objects) (htasks : c.tasks <+: c'.tasks) {g : Graph}
    (h : c.Covers g) : c'.Covers g := by
  intro id hid
  obtain ⟨kind, hkind, hrefers⟩ := h id hid
  exact ⟨kind, hkind, hrefers.mono hobjects htasks⟩

end Context

namespace Wiring

open Context (Grown grown_lasting)

variable {w w' : Wiring}

-- What is kept by all that building does to a context, where the tasks are such as `Q` says.
structure Building (Q : Task → Prop) (R : Context → Context → Prop) : Prop where
  lasting : Action.Lasting R
  bind : ∀ c o, R c (c.bind o).2
  modifyState : ∀ c index f, (∀ st : ObjectState, (f st).core = st.core) → R c (c.modifyState index f)
  addTask : ∀ c t, Q t → R c (c.addTask t).2

section

variable {Q : Task → Prop} {R : Context → Context → Prop}

-- The contexts of two wirings are so related.
def Grows (R : Context → Context → Prop) (w w' : Wiring) : Prop :=
  R w.context w'.context

namespace Building

theorem grows (h : Building Q R) : Action.Lasting (Grows R) where
  refl w := h.lasting.refl w.context
  trans h₁ h₂ := h.lasting.trans h₁ h₂

theorem keeps_addNode (h : Building Q R) (kind : NodeKind) (inputs : List Nat) :
    (addNode kind inputs).Keeps (Grows R) := by
  have hR := h.grows
  unfold addNode
  intro w
  refine .bind_get (.bind_lift (fun g _ => ?_) fun _ _ => hR.refl w)
  exact hR.refl w

theorem keeps_bind (h : Building Q R) (o : HostObject) : (Wiring.bind o).Keeps (Grows R) :=
  fun w => h.bind w.context o

theorem keeps_modifyState (h : Building Q R) (index : Nat) {f : ObjectState → ObjectState}
    (hf : ∀ st, (f st).core = st.core) : (Wiring.modifyState index f).Keeps (Grows R) :=
  .modify fun w => h.modifyState w.context index f hf

theorem sought (h : Building Q R) (os : List HostObject) : Sought os (Grows R) where
  lasting := h.grows
  bind o _ := h.keeps_bind o
  link _ := h.keeps_addNode _ _

theorem keeps_step (h : Building Q R) {step : Step} (hstep : ∀ t, step = .task t → Q t) :
    (Wiring.step step).Keeps (Grows R) := by
  have hR := h.grows
  cases step with
  | streamIn o =>
    exact .bind hR (h.keeps_bind o) fun _ => .bind hR (h.keeps_modifyState _ fun _ => rfl) fun _ =>
      .bind hR (h.keeps_addNode _ _) fun _ =>
        .bind hR (.modify fun w => h.lasting.refl w.context) fun _ => .pure hR _
  | streamOut o =>
    refine .bind hR (h.keeps_bind o) fun _ => .bind hR (h.keeps_modifyState _ fun _ => rfl) fun _ =>
      .bind hR ((h.sought []).source _) fun found => ?_
    split
    case h_1 => exact h.keeps_addNode _ _
    case h_2 => exact h.keeps_addNode _ _
  | task t =>
    intro w
    refine .bind_get (.bind_set (Action.Ends.mono ?_ fun _ _ hrest =>
      h.lasting.trans (h.addTask w.context t (hstep t rfl)) hrest))
    refine Action.Keeps.bind hR ((h.sought _).argumentSources (List.Subset.refl _) _) (fun _ => ?_) _
    refine .bind hR (h.keeps_addNode _ _) fun _ => .bind hR (.modify fun w => ?_) fun _ => .pure hR _
    exact h.lasting.refl w.context

theorem keeps_steps (h : Building Q R) {steps : List Step} (hsteps : ∀ t, .task t ∈ steps → Q t) :
    (steps.forM fun s => discard (step s) : Action Wiring Unit).Keeps (Grows R) := by
  have hR := h.grows
  induction steps with
  | nil => exact .pure hR _
  | cons s steps ih =>
    have hstep := h.keeps_step fun t ht => hsteps t (List.mem_cons.mpr (.inl ht.symm))
    exact .bind hR (.bind hR hstep fun _ => .pure hR _) fun _ =>
      ih fun t ht => hsteps t (List.mem_cons_of_mem s ht)

end Building
end

-- Building leaves the buffers of the context alone.
theorem building_grown : Building (fun _ => True) Grown where
  lasting := grown_lasting
  bind := Context.grown_bind
  modifyState c index _ hf := c.grown_modifyState index hf
  addTask c t _ := c.grown_addTask t

theorem grows_steps (steps : List Step) :
    (steps.forM fun s => discard (step s) : Action Wiring Unit).Keeps (Grows Grown) :=
  building_grown.keeps_steps fun _ _ => trivial

theorem covers_start (c : Context) (device : Nat) :
    c.Covers (({} : Graph).push (.context device) []) := by
  intro id hid
  rw [Graph.instructionNodes_push] at hid
  cases hid

-- Whatever a node stands for was bound before it was added.
theorem covers_extended {step : Step} (he : Extended step w w') (hcovers : w.context.Covers w.graph) :
    w'.context.Covers w'.graph := by
  obtain ⟨g, kind, inputs, hkinds, hinstructions, hgraph, hkind, hdoes⟩ := he.node
  intro j hj
  rw [hgraph, Graph.instructionNodes_push, hinstructions, if_pos hkind] at hj
  rw [hgraph]
  rcases List.mem_append.mp hj with hold | hnew
  case inl =>
    obtain ⟨kind', hkind', hrefers⟩ := hcovers j hold
    exact ⟨kind', Graph.kind?_push (hkinds hkind'), hrefers.mono he.objects (he.tasks ▸ List.prefix_append _ _)⟩
  case inr =>
    rw [List.mem_singleton.mp hnew]
    refine ⟨kind, g.kind?_push_size kind inputs, ?_⟩
    cases kind <;> cases step <;> first | exact hdoes.elim | trivial | skip
    case task.task => exact ⟨_, hdoes⟩
    all_goals
      obtain ⟨o, ho, _⟩ := hdoes
      exact ⟨o, ho⟩

theorem covers_steps {steps : List Step}
    (h : (steps.forM fun s => discard (step s) : Action Wiring Unit) w = (.ok ⟨⟩, w'))
    (hcovers : w.context.Covers w.graph) : w'.context.Covers w'.graph := by
  let I (_ : List Step) (w : Wiring) : Prop := w.context.Covers w.graph
  have hall : I ([] ++ steps) w' := steps_induction covers_extended hcovers h
  exact hall

end Wiring
end Offload
