import Offload.Proofs.Dependencies
import Offload.Wiring

/-!
What the graphs are like that steps are wired into: every node depends on earlier ones only, and a
stream-in on none.
-/

namespace Offload

open Wiring (contextNode)

structure Graph.Wired (g : Graph) : Prop where
  context  : ∃ device, g.kind? contextNode = some (.context device)
  inputs   : ∀ {id n}, g.node? id = some n → ∀ input ∈ n.inputs, input < id
  links    : ∀ {id p}, g.kind? id = some (.dataDependency p) → p < id
  streamIn : ∀ {id n object}, g.node? id = some n → n.kind = .streamIn object →
    n.inputs = [contextNode]

namespace Graph

variable {g g' : Graph}

theorem add_ok {kind : NodeKind} {inputs : List Nat} (h : g.add kind inputs = .ok g') :
    g' = g.push kind inputs ∧ (∀ input ∈ inputs, input < g.size) ∧
      ∀ p, kind = .dataDependency p → p < g.size := by
  unfold add at h
  split at h
  case h_1 => cases h
  case h_2 hfault =>
    cases h
    unfold additionFault at hfault
    cases hfind : inputs.find? (g.size ≤ ·) with
    | some input => simp [hfind] at hfault
    | none =>
      refine ⟨rfl, by simpa using hfind, fun p hp => ?_⟩
      simpa [hfind, hp] using hfault

theorem node?_push {kind : NodeKind} {inputs : List Nat} {id : Nat} {n : Node}
    (h : (g.push kind inputs).node? id = some n) :
    g.node? id = some n ∨ id = g.size ∧ n = { id := g.size, inputs, kind } := by
  unfold push node? at h
  rcases Nat.lt_trichotomy id g.nodes.length with hlt | heq | hgt
  case inl => exact .inl (by rwa [List.getElem?_append_left hlt] at h)
  case inr.inl =>
    subst heq
    simp only [List.getElem?_concat_length, Option.some.injEq] at h
    exact .inr ⟨rfl, h.symm⟩
  case inr.inr =>
    rw [List.getElem?_eq_none (by simp; omega)] at h
    cases h

namespace Wired

theorem push (h : g.Wired) {kind : NodeKind} {inputs : List Nat}
    (hinputs : ∀ input ∈ inputs, input < g.size) (hlink : ∀ p, kind = .dataDependency p → p < g.size)
    (hstreamIn : ∀ object, kind = .streamIn object → inputs = [contextNode]) :
    (g.push kind inputs).Wired := by
  constructor
  case context =>
    obtain ⟨device, hdevice⟩ := h.context
    have ⟨n, hn, _⟩ := Option.map_eq_some_iff.mp hdevice
    have hlt := (List.getElem?_eq_some_iff.mp hn).1
    exact ⟨device, by rw [kind?_push_of_lt hlt, hdevice]⟩
  case inputs =>
    intro id n hn
    rcases node?_push hn with hold | ⟨rfl, rfl⟩
    case inl => exact h.inputs hold
    case inr => exact hinputs
  case links =>
    intro id p hkind
    obtain ⟨n, hn, hp⟩ := Option.map_eq_some_iff.mp hkind
    rcases node?_push hn with hold | ⟨rfl, rfl⟩
    case inl => exact h.links (by rw [kind?, hold, Option.map_some, hp])
    case inr => exact hlink p hp
  case streamIn =>
    intro id n object hn hkind
    rcases node?_push hn with hold | ⟨rfl, rfl⟩
    case inl => exact h.streamIn hold hkind
    case inr => exact hstreamIn object hkind

theorem resolves_le (h : g.Wired) {id p : Nat} (hp : g.Resolves id p) : p ≤ id := by
  induction hp with
  | node => exact Nat.le_refl _
  | link hkind _ ih => exact Nat.le_trans ih (Nat.le_of_lt (h.links hkind))

theorem feeds_lt (h : g.Wired) {id p : Nat} (hp : g.Feeds p id) : p < id := by
  obtain ⟨n, hn, _, input, hinput, hresolves⟩ := hp
  exact Nat.lt_of_le_of_lt (h.resolves_le hresolves) (h.inputs hn input hinput)

-- Nothing feeds a stream-in: its only input is the context.
theorem not_feeds_streamIn (h : g.Wired) {id object : Nat} (hid : g.kind? id = some (.streamIn object))
    (p : Nat) : ¬g.Feeds p id := by
  intro ⟨n, hn, _, input, hinput, hresolves⟩
  have hkind : n.kind = .streamIn object := by simpa [kind?, hn] using hid
  rw [h.streamIn hn hkind, List.mem_singleton] at hinput
  subst hinput
  obtain ⟨device, hdevice⟩ := h.context
  cases hresolves with
  | node hk hi =>
    cases hdevice.symm.trans hk
    cases hi
  | link hk _ => cases hdevice.symm.trans hk

end Wired
end Graph

namespace Wiring

-- What is kept when one of some objects is bound, and when a data dependency is added.
structure Sought (os : List HostObject) (R : Wiring → Wiring → Prop) : Prop where
  lasting : Action.Lasting R
  bind    : ∀ o ∈ os, (Wiring.bind o).Keeps R
  link    : ∀ producer, (addNode (.dataDependency producer) []).Keeps R

namespace Sought

variable {os : List HostObject} {R : Wiring → Wiring → Prop}

theorem source (h : Sought os R) (object : Nat) : (Wiring.source object).Keeps R := by
  have hR := h.lasting
  unfold Wiring.source
  refine .bind hR (.get hR) fun w => ?_
  split
  case h_1 => exact .bind hR (h.link _) fun _ => .pure hR _
  case h_2 => exact .pure hR _

theorem argumentSources (h : Sought os R) {arguments : List Argument}
    (hos : arguments.map Argument.object ⊆ os) (inputs : List Nat) :
    (Wiring.argumentSources arguments inputs).Keeps R := by
  have hR := h.lasting
  induction arguments generalizing inputs with
  | nil => exact .pure hR _
  | cons a arguments ih =>
    have ⟨ha, hrest⟩ := List.cons_subset.mp hos
    unfold Wiring.argumentSources
    refine .bind hR (h.bind _ ha) fun _ => .bind hR (h.source _) fun found => ?_
    split
    case h_1 => exact ih hrest _
    case h_2 => exact ih hrest _

end Sought

-- Whatever a step does, a graph that was wired stays so.
def KeepsWired (w w' : Wiring) : Prop :=
  w.graph.Wired → w'.graph.Wired

theorem keepsWired_lasting : Action.Lasting KeepsWired where
  refl _ := id
  trans h h' := h' ∘ h

theorem keepsWired_addNode {kind : NodeKind} {inputs : List Nat}
    (h : ∀ object, kind = .streamIn object → inputs = [contextNode]) :
    (addNode kind inputs).Keeps KeepsWired := by
  intro w
  unfold addNode
  refine .bind_get (.bind_lift (fun g hg => ?_) fun _ _ => id)
  obtain ⟨rfl, hinputs, hlink⟩ := Graph.add_ok hg
  exact fun hw => hw.push hinputs hlink h

theorem keepsWired_bind (o : HostObject) : (bind o).Keeps KeepsWired := by
  intro w
  exact id

theorem keepsWired_modifyState (index : Nat) (f : ObjectState → ObjectState) :
    (modifyState index f).Keeps KeepsWired :=
  .modify fun _ => id

theorem sought_keepsWired (os : List HostObject) : Sought os KeepsWired where
  lasting := keepsWired_lasting
  bind o _ := keepsWired_bind o
  link _ := keepsWired_addNode nofun

theorem keepsWired_step (step : Step) : (Wiring.step step).Keeps KeepsWired := by
  have hR := keepsWired_lasting
  cases step with
  | streamIn o =>
    refine .bind hR (keepsWired_bind o) fun index => .bind hR (keepsWired_modifyState _ _) fun _ =>
      .bind hR (keepsWired_addNode fun _ _ => rfl) fun _ => .bind hR (.modify fun _ => id) fun _ =>
        .pure hR _
  | task t =>
    intro w
    refine .bind_get (.bind_set ?_)
    have hrest : (do
        let inputs ← argumentSources t.arguments [contextNode]
        let node ← addNode (.task (w.context.addTask t).1) inputs
        modify fun w => { w with writers := (written w.context t).map (·, node) ++ w.writers }
        return node : Action Wiring Nat).Keeps KeepsWired :=
      .bind hR ((sought_keepsWired _).argumentSources (List.Subset.refl _) _) fun _ =>
        .bind hR (keepsWired_addNode nofun) fun _ =>
        .bind hR (.modify fun _ => id) fun _ => .pure hR _
    exact hrest { w with context := (w.context.addTask t).2 }
  | streamOut o =>
    refine .bind hR (keepsWired_bind o) fun index => .bind hR (keepsWired_modifyState _ _) fun _ =>
      .bind hR ((sought_keepsWired []).source _) fun source => ?_
    split
    case h_1 => exact keepsWired_addNode nofun
    case h_2 => exact keepsWired_addNode nofun

theorem start_ok {c : Context} {device : Nat} {w : Wiring} (h : start c device = .ok w) :
    w = { context := c, graph := ({} : Graph).push (.context device) [] } := by
  unfold start at h
  obtain ⟨_, _, h⟩ := bind_eq_ok.mp h
  obtain ⟨g, hg, h⟩ := bind_eq_ok.mp h
  obtain ⟨rfl, _, _⟩ := Graph.add_ok hg
  cases h
  rfl

theorem build_ok {c : Context} {device : Nat} {steps : List Step} {w : Wiring}
    (h : build c device steps = .ok w) :
    (steps.forM fun s => discard (step s) : Action Wiring Unit)
      { context := c, graph := ({} : Graph).push (.context device) [] } = (.ok ⟨⟩, w) := by
  unfold build at h
  obtain ⟨w₀, hstart, h⟩ := bind_eq_ok.mp h
  cases start_ok hstart
  rcases hsteps : (steps.forM fun s => discard (step s) : Action Wiring Unit)
    { context := c, graph := ({} : Graph).push (.context device) [] } with ⟨result, w'⟩
  simp only [hsteps] at h
  obtain ⟨⟨⟩, rfl, h⟩ := bind_eq_ok.mp h
  cases h
  rfl

theorem wired_start (device : Nat) : (({} : Graph).push (.context device) []).Wired := by
  have hnode {id : Nat} {n : Node} (hn : (({} : Graph).push (.context device) []).node? id = some n) :
      id = 0 ∧ n = { id := 0, inputs := [], kind := .context device } := by
    rcases Graph.node?_push hn with hold | hnew
    case inl => cases hold
    case inr => exact hnew
  constructor
  case context => exact ⟨device, rfl⟩
  case inputs =>
    intro id n hn input hinput
    cases (hnode hn).2
    cases hinput
  case links =>
    intro id p hkind
    obtain ⟨n, hn, hp⟩ := Option.map_eq_some_iff.mp hkind
    cases (hnode hn).2
    cases hp
  case streamIn =>
    intro id n object hn hkind
    cases (hnode hn).2
    cases hkind

theorem keepsWired_steps (steps : List Step) :
    (steps.forM fun s => discard (step s) : Action Wiring Unit).Keeps KeepsWired := by
  have hR := keepsWired_lasting
  induction steps with
  | nil => exact .pure hR _
  | cons s steps ih =>
    have hstep : (discard (step s) : Action Wiring Unit).Keeps KeepsWired :=
      .bind hR (keepsWired_step s) fun _ => .pure hR _
    exact .bind hR hstep fun _ => ih

theorem wired_of_build {c : Context} {device : Nat} {steps : List Step} {w : Wiring}
    (h : build c device steps = .ok w) : w.graph.Wired :=
  (keepsWired_steps steps).of_eq (build_ok h) (wired_start device)

end Wiring
end Offload
