import Offload.Proofs.Chains
import Offload.Proofs.History
import Offload.Proofs.Layout

/-!
Where the nodes of a built graph take their objects from. The tables of the builder say of each object which call wrote
it last and which one streamed it in last; a new node is given what is found there, and that is just what the analysis
finds again when the graph is complete.
-/

namespace Offload

open Wiring (contextNode)

def Step.writes (h : Handle) : Step → Bool
  | .task t => t.writesTo h
  | .streamIn _ | .streamOut _ => false

def Step.streamsIn (h : Handle) : Step → Bool
  | .streamIn o => o.handle = h
  | .task _ | .streamOut _ => false

-- Either way there is something new in the device buffer of the object.
def Step.supplies (h : Handle) (step : Step) : Bool :=
  step.writes h || step.streamsIn h

-- The objects that have to be there before a step can be done.
def Step.takes : Step → List Handle
  | .streamIn _ => []
  | .task t => t.arguments.map (·.object.handle)
  | .streamOut o => [o.handle]

-- Calls of a builder in their order, each with the node that it answered with.
namespace Calls

variable {p q : Step → Bool} {calls : List (Step × Nat)} {h : Handle} {id : Nat}

-- The node of the last call of a kind.
def latest? (p : Step → Bool) (calls : List (Step × Nat)) : Option Nat :=
  (calls.reverse.find? fun call => p call.1).map Prod.snd

def writer? (h : Handle) (calls : List (Step × Nat)) : Option Nat :=
  latest? (Step.writes h) calls

def streamIn? (h : Handle) (calls : List (Step × Nat)) : Option Nat :=
  latest? (Step.streamsIn h) calls

-- The last task that wrote the object, or, if there is none, the last stream-in of it.
def provider? (h : Handle) (calls : List (Step × Nat)) : Option Nat :=
  (writer? h calls).or (streamIn? h calls)

theorem latest?_concat (p : Step → Bool) (calls : List (Step × Nat)) (step : Step) (id : Nat) :
    latest? p (calls ++ [(step, id)]) = if p step then some id else latest? p calls := by
  unfold latest?
  rw [List.reverse_concat, List.find?_cons]
  cases p step <;> rfl

theorem latest?_eq_some : latest? p calls = some id ↔ ∃ pre step post, calls = pre ++ (step, id) :: post ∧
    p step ∧ ∀ call ∈ post, ¬p call.1 := by
  unfold latest?
  rw [Option.map_eq_some_iff]
  constructor
  case mp =>
    rintro ⟨⟨step, id⟩, hfind, rfl⟩
    obtain ⟨hp, after, before, hreverse, hafter⟩ := List.find?_eq_some_iff_append.mp hfind
    refine ⟨before.reverse, step, after.reverse, ?_, hp, fun call hcall => ?_⟩
    case refine_1 => simpa using congrArg List.reverse hreverse
    case refine_2 => simpa using hafter call (List.mem_reverse.mp hcall)
  case mpr =>
    rintro ⟨pre, step, post, rfl, hp, hpost⟩
    refine ⟨(step, id), List.find?_eq_some_iff_append.mpr ⟨hp, post.reverse, pre.reverse, by simp, ?_⟩, rfl⟩
    intro call hcall
    simpa using hpost call (List.mem_reverse.mp hcall)

theorem latest?_eq_none : latest? p calls = none ↔ ∀ call ∈ calls, ¬p call.1 := by
  simp [latest?]

-- The last call of a kind is also the last one of a narrower kind that it belongs to.
theorem latest?_narrow (hpq : ∀ step, q step → p step) (hlast : latest? p calls = some id) :
    latest? q calls = some id ∨ ∃ step, (step, id) ∈ calls ∧ p step ∧ ¬q step := by
  obtain ⟨pre, step, post, rfl, hp, hpost⟩ := latest?_eq_some.mp hlast
  by_cases hq : q step
  case pos =>
    exact .inl (latest?_eq_some.mpr ⟨pre, step, post, rfl, hq, fun call hcall h => hpost call hcall (hpq _ h)⟩)
  case neg => exact .inr ⟨step, by simp, hp, hq⟩

theorem mem_of_provider? (hprovider : provider? h calls = some id) : ∃ step, (step, id) ∈ calls ∧ step.supplies h := by
  have hmem {p : Step → Bool} (hlast : latest? p calls = some id) : ∃ step, (step, id) ∈ calls ∧ p step := by
    obtain ⟨pre, step, post, rfl, hp, _⟩ := latest?_eq_some.mp hlast
    exact ⟨step, by simp, hp⟩
  rcases Option.or_eq_some_iff.mp hprovider with hwriter | ⟨_, hstreamIn⟩
  case inl =>
    obtain ⟨step, hcall, hwrites⟩ := hmem hwriter
    exact ⟨step, hcall, Bool.or_eq_true_iff.mpr (.inl hwrites)⟩
  case inr =>
    obtain ⟨step, hcall, hstreamsIn⟩ := hmem hstreamIn
    exact ⟨step, hcall, Bool.or_eq_true_iff.mpr (.inr hstreamsIn)⟩

-- An object that was ever supplied is taken from its last writer, or from its last supplier if it has no writer.
theorem provider?_of_supplier {supplier : Nat} (hlast : latest? (Step.supplies h) calls = some supplier) :
    provider? h calls = some ((writer? h calls).getD supplier) := by
  cases hwriter : writer? h calls with
  | some writer => rw [provider?, hwriter, Option.some_or, Option.getD_some]
  | none =>
    rw [provider?, hwriter, Option.none_or, Option.getD_none]
    refine (latest?_narrow (fun step hstep => Bool.or_eq_true_iff.mpr (.inr hstep)) hlast).resolve_right ?_
    rintro ⟨step, hcall, hsupplies, hnot⟩
    exact latest?_eq_none.mp hwriter _ hcall ((Bool.or_eq_true_iff.mp hsupplies).resolve_right hnot)

end Calls

namespace Graph

variable {g g' : Graph} {id p : Nat} {kind : NodeKind} {inputs inputs' : List Nat}

theorem resolves_instruction (hid : id ∈ g.instructionNodes) : g.Resolves id p ↔ p = id := by
  obtain ⟨kind, hkind, hi⟩ := mem_instructionNodes.mp hid
  constructor
  case mpr =>
    rintro rfl
    exact .node hkind hi
  case mp =>
    intro h
    cases h with
    | node => rfl
    | link hlink =>
      cases hkind.symm.trans hlink
      cases hi

theorem lt_size_of_mem (hid : id ∈ g.instructionNodes) : id < g.size := by
  obtain ⟨_, hkind, _⟩ := mem_instructionNodes.mp hid
  exact lt_size_of_kind? hkind

theorem resolves_link {producer : Nat} (hkind : g.kind? id = some (.dataDependency producer)) :
    g.Resolves id p ↔ g.Resolves producer p := by
  constructor
  case mpr => exact .link hkind
  case mp =>
    intro h
    cases h with
    | link hlink hp =>
      cases hkind.symm.trans hlink
      exact hp
    | node hother hi =>
      cases hkind.symm.trans hother
      cases hi

-- Some input stands for what node `p` produces.
def Leads (g : Graph) (inputs : List Nat) (p : Nat) : Prop :=
  ∃ input ∈ inputs, g.Resolves input p

theorem leads_append : g.Leads (inputs ++ inputs') p ↔ g.Leads inputs p ∨ g.Leads inputs' p := by
  simp only [Leads, List.mem_append, or_and_right, exists_or]

theorem leads_singleton : g.Leads [id] p ↔ g.Resolves id p := by
  simp [Leads]

theorem node?_of_initial (h : g.nodes <+: g'.nodes) (hid : id < g.size) : g'.node? id = g.node? id := by
  obtain ⟨new, hnew⟩ := h
  rw [node?, node?, ← hnew, List.getElem?_append_left hid]

theorem kind?_of_initial (h : g.nodes <+: g'.nodes) (hid : id < g.size) : g'.kind? id = g.kind? id := by
  rw [kind?, kind?, node?_of_initial h hid]

theorem nodes_push (g : Graph) (kind : NodeKind) (inputs : List Nat) : g.nodes <+: (g.push kind inputs).nodes :=
  List.prefix_append _ _

theorem node?_push_size (g : Graph) (kind : NodeKind) (inputs : List Nat) :
    (g.push kind inputs).node? g.size = some { id := g.size, inputs, kind } := by
  simp [push, node?, size]

theorem add_of_earlier (hinputs : ∀ input ∈ inputs, input < g.size)
    (hlink : ∀ producer, kind = .dataDependency producer → producer < g.size) :
    g.add kind inputs = .ok (g.push kind inputs) := by
  have hnone : inputs.find? (g.size ≤ ·) = none := by simpa using hinputs
  have hfault : g.additionFault kind inputs = none := by
    unfold additionFault
    rw [hnone]
    cases kind with
    | dataDependency producer => simp [Nat.not_le_of_lt (hlink producer rfl)]
    | _ => rfl
  rw [add, hfault]
  rfl

namespace Wired

-- What comes later in a graph is nothing to the nodes that are there.
theorem resolves_of_initial (hg : g.Wired) (h : g.nodes <+: g'.nodes) (hid : id < g.size) :
    g'.Resolves id p ↔ g.Resolves id p := by
  constructor
  case mp =>
    intro hp
    induction hp with
    | node hkind hi => exact .node (kind?_of_initial h hid ▸ hkind) hi
    | link hkind _ ih =>
      rw [kind?_of_initial h hid] at hkind
      exact .link hkind (ih (Nat.lt_trans (hg.links hkind) hid))
  case mpr =>
    intro hp
    induction hp with
    | node hkind hi => exact .node ((kind?_of_initial h hid).trans hkind) hi
    | link hkind _ ih =>
      exact .link ((kind?_of_initial h hid).trans hkind) (ih (Nat.lt_trans (hg.links hkind) hid))

theorem leads_of_initial (hg : g.Wired) (h : g.nodes <+: g'.nodes) (hinputs : ∀ input ∈ inputs, input < g.size) :
    g'.Leads inputs p ↔ g.Leads inputs p :=
  exists_congr fun input => and_congr_right fun hinput => hg.resolves_of_initial h (hinputs input hinput)

theorem feeds_of_initial (hg : g.Wired) (h : g.nodes <+: g'.nodes) (hid : id < g.size) :
    g'.Feeds p id ↔ g.Feeds p id := by
  unfold Feeds
  rw [node?_of_initial h hid]
  refine exists_congr fun n => and_congr_right fun hn => and_congr_right fun _ => ?_
  exact hg.leads_of_initial h fun input hinput => Nat.lt_trans (hg.inputs hn input hinput) hid

theorem feeds_push (hg : g.Wired) (hinputs : ∀ input ∈ inputs, input < g.size) (hkind : kind.isInstruction) :
    (g.push kind inputs).Feeds p g.size ↔ g.Leads inputs p := by
  have hnode := g.node?_push_size kind inputs
  rw [← hg.leads_of_initial (g.nodes_push kind inputs) hinputs]
  constructor
  case mp =>
    rintro ⟨n, hn, _, hleads⟩
    cases hnode.symm.trans hn
    exact hleads
  case mpr => exact fun hleads => ⟨_, hnode, hkind, hleads⟩

theorem contextNode_lt (hg : g.Wired) : contextNode < g.size := by
  obtain ⟨_, hdevice⟩ := hg.context
  exact lt_size_of_kind? hdevice

-- The context is no producer.
theorem not_leads_contextNode (hg : g.Wired) : ¬g.Leads [contextNode] p := by
  obtain ⟨_, hdevice⟩ := hg.context
  rw [leads_singleton]
  intro h
  cases h with
  | node hkind hi =>
    cases hdevice.symm.trans hkind
    cases hi
  | link hkind => cases hdevice.symm.trans hkind

theorem arrives (hg : g.Wired) (hid : id < g.size) : g.Arrives id := by
  induction id using Nat.strongRecOn with
  | ind id ih =>
    have hkind : g.kind? id = some g.nodes[id].kind := by
      rw [kind?, node?, List.getElem?_eq_getElem hid, Option.map_some]
    cases h : g.nodes[id].kind with
    | dataDependency producer =>
      rw [h] at hkind
      have hlt := hg.links hkind
      exact .link hkind (ih producer hlt (Nat.lt_trans hlt hid))
    | _ => exact .node hkind (by simp [h])

-- The analysis of such a graph always succeeds.
theorem exists_dependencies (hg : g.Wired) : ∃ d, g.dependencies = .ok d :=
  dependencies_ok_iff.mpr fun _ _ hn _ input hinput =>
    hg.arrives (Nat.lt_trans (hg.inputs hn input hinput) (List.getElem?_eq_some_iff.mp hn).1)

end Wired
end Graph

namespace Context

variable {c c' : Context} {h : Handle} {index : Nat} {table : List (Nat × Nat)}

-- What a table by index says of an object.
def entry? (c : Context) (table : List (Nat × Nat)) (h : Handle) : Option Nat :=
  (c.objectIndex? h).bind fun index => table.lookup index

theorem entry?_of_initial (hobjects : c.objects <+: c'.objects) (htable : ∀ x ∈ table, x.1 < c.objects.length)
    (h : Handle) : c'.entry? table h = c.entry? table h := by
  obtain ⟨new, hnew⟩ := hobjects
  unfold entry?
  rw [objectIndex?_eq, objectIndex?_eq, ← hnew, List.findIdx?_append]
  cases c.objects.findIdx? (·.handle = h) with
  | some index => rfl
  | none =>
    cases new.findIdx? (·.handle = h) with
    | none => rfl
    | some place =>
      -- the object was not bound before, and the table has nothing about it
      refine List.lookup_eq_none_iff.mpr fun x hx => ?_
      exact bne_iff_ne.mpr (Nat.ne_of_gt (Nat.lt_of_lt_of_le (htable x hx) (Nat.le_add_left _ _)))

theorem exists_objectIndex? (hmem : h ∈ c.objects.map HostObject.handle) : ∃ index, c.objectIndex? h = some index := by
  obtain ⟨o, ho, rfl⟩ := List.mem_map.mp hmem
  rw [objectIndex?_eq, ← Option.isSome_iff_exists, List.findIdx?_isSome, List.any_eq_true]
  exact ⟨o, ho, decide_eq_true rfl⟩

-- Those objects are bound that have a property, at these places.
structure Marks (c : Context) (indices : List Nat) (p : Handle → Bool) : Prop where
  bound : ∀ h, p h → ∃ index, c.objectIndex? h = some index
  mem   : ∀ index, index ∈ indices ↔ ∃ h, p h ∧ c.objectIndex? h = some index

theorem Marks.none {p : Handle → Bool} (hp : ∀ h, p h = false) : c.Marks [] p where
  bound h hh := by simp [hp] at hh
  mem index := by simp [hp]

theorem Marks.one {p : Handle → Bool} (hindex : c.objectIndex? h = some index) (hp : ∀ k, p k ↔ h = k) :
    c.Marks [index] p where
  bound k hk := ⟨index, (hp k).mp hk ▸ hindex⟩
  mem index' := by simp [hp, hindex, eq_comm]

theorem lookup_map_pair (indices : List Nat) (id index : Nat) :
    (indices.map (·, id)).lookup index = if index ∈ indices then some id else none := by
  induction indices with
  | nil => rfl
  | cons first indices ih =>
    rw [List.map_cons, List.lookup_cons, ih]
    cases heq : index == first with
    | true => simp [eq_of_beq heq]
    | false => simp [ne_of_beq_false heq]

theorem entry?_marked {indices : List Nat} {p : Handle → Bool} (hmarks : c.Marks indices p) (id : Nat) (h : Handle) :
    c.entry? (indices.map (·, id) ++ table) h = if p h then some id else c.entry? table h := by
  unfold entry?
  cases hindex : c.objectIndex? h with
  | none =>
    have hnot : ¬p h := fun hp => by
      obtain ⟨index, hindex'⟩ := hmarks.bound h hp
      cases hindex.symm.trans hindex'
    simp [hnot]
  | some index =>
    have hmem : index ∈ indices ↔ p h := by
      rw [hmarks.mem]
      constructor
      case mpr => exact fun hp => ⟨h, hp, hindex⟩
      case mp =>
        rintro ⟨h', hp, hindex'⟩
        have ⟨hlt, _⟩ := List.findIdx?_eq_some_iff_getElem.mp hindex
        have hget := List.getElem?_eq_getElem hlt
        rwa [← handle_of_objectIndex? hindex hget, handle_of_objectIndex? hindex' hget]
    rw [Option.bind_some, Option.bind_some, List.lookup_append, lookup_map_pair]
    by_cases hp : p h <;> simp [hp, hmem]

end Context

namespace Wiring

variable {w w' : Wiring} {step : Step} {id : Nat}

def writer? (w : Wiring) (h : Handle) : Option Nat :=
  w.context.entry? w.writers h

def streamIn? (w : Wiring) (h : Handle) : Option Nat :=
  w.context.entry? w.streamIns h

def provider? (w : Wiring) (h : Handle) : Option Nat :=
  (w.writer? h).or (w.streamIn? h)

-- Whatever a table names is there.
def Names (w : Wiring) (table : List (Nat × Nat)) : Prop :=
  ∀ x ∈ table, x.1 < w.context.objects.length ∧ x.2 ∈ w.graph.instructionNodes

theorem Names.node {table : List (Nat × Nat)} (h : w.Names table) {index node : Nat}
    (hlookup : table.lookup index = some node) : node ∈ w.graph.instructionNodes := by
  obtain ⟨before, after, rfl, _⟩ := List.lookup_eq_some_iff.mp hlookup
  exact (h (index, node) (by simp)).2

structure Sound (w : Wiring) : Prop where
  wired     : w.graph.Wired
  contexts  : w.graph.contexts = [contextNode]
  writers   : w.Names w.writers
  streamIns : w.Names w.streamIns

-- In the course of a call objects are bound, and data dependencies are added.
structure Advanced (w w' : Wiring) : Prop where
  objects      : w.context.objects <+: w'.context.objects
  nodes        : w.graph.nodes <+: w'.graph.nodes
  wired        : w.graph.Wired → w'.graph.Wired
  contexts     : w'.graph.contexts = w.graph.contexts
  instructions : w'.graph.instructionNodes = w.graph.instructionNodes
  writers      : w'.writers = w.writers
  streamIns    : w'.streamIns = w.streamIns

theorem advanced_lasting : Action.Lasting Advanced where
  refl _ := ⟨List.prefix_rfl, List.prefix_rfl, id, rfl, rfl, rfl, rfl⟩
  trans h h' := ⟨h.objects.trans h'.objects, h.nodes.trans h'.nodes, h'.wired ∘ h.wired, h'.contexts.trans h.contexts,
    h'.instructions.trans h.instructions, h'.writers.trans h.writers, h'.streamIns.trans h.streamIns⟩

namespace Advanced

theorem names (h : Advanced w w') {table : List (Nat × Nat)} (hnames : w.Names table) : w'.Names table := by
  intro x hx
  have ⟨hlt, hmem⟩ := hnames x hx
  exact ⟨Nat.lt_of_lt_of_le hlt h.objects.length_le, h.instructions ▸ hmem⟩

theorem sound (h : Advanced w w') (hw : w.Sound) : w'.Sound where
  wired := h.wired hw.wired
  contexts := h.contexts.trans hw.contexts
  writers := h.writers ▸ h.names hw.writers
  streamIns := h.streamIns ▸ h.names hw.streamIns

theorem writer? (h : Advanced w w') (hw : w.Sound) (k : Handle) : w'.writer? k = w.writer? k := by
  unfold Wiring.writer?
  rw [h.writers]
  exact Context.entry?_of_initial h.objects (fun x hx => (hw.writers x hx).1) k

theorem streamIn? (h : Advanced w w') (hw : w.Sound) (k : Handle) : w'.streamIn? k = w.streamIn? k := by
  unfold Wiring.streamIn?
  rw [h.streamIns]
  exact Context.entry?_of_initial h.objects (fun x hx => (hw.streamIns x hx).1) k

theorem provider? (h : Advanced w w') (hw : w.Sound) (k : Handle) : w'.provider? k = w.provider? k := by
  rw [Wiring.provider?, h.writer? hw, h.streamIn? hw, Wiring.provider?]

theorem bind (w : Wiring) (o : HostObject) : Advanced w { w with context := (w.context.bind o).2 } where
  objects := (Context.Bound.bindOne w.context o).objects
  nodes := List.prefix_rfl
  wired := id
  contexts := rfl
  instructions := rfl
  writers := rfl
  streamIns := rfl

theorem addTask (w : Wiring) (t : Task) : Advanced w { w with context := (w.context.addTask t).2 } where
  objects := (Context.Bound.bindEach w.context (t.arguments.map Argument.object)).objects
  nodes := List.prefix_rfl
  wired := id
  contexts := rfl
  instructions := rfl
  writers := rfl
  streamIns := rfl

theorem modifyState (w : Wiring) (index : Nat) (f : ObjectState → ObjectState) :
    Advanced w { w with context := w.context.modifyState index f } where
  objects := Context.objects_modifyState w.context index f ▸ List.prefix_rfl
  nodes := List.prefix_rfl
  wired := id
  contexts := rfl
  instructions := rfl
  writers := rfl
  streamIns := rfl

theorem link (w : Wiring) {producer : Nat} (hproducer : producer < w.graph.size) :
    Advanced w { w with graph := w.graph.push (.dataDependency producer) [] } where
  objects := List.prefix_rfl
  nodes := w.graph.nodes_push _ _
  wired hw := hw.push nofun (fun p hp => by cases hp; exact hproducer) nofun
  contexts := by simp [Graph.contexts, Graph.idsWhere_push, NodeKind.isContext]
  instructions := by simp [Graph.instructionNodes_push, NodeKind.isInstruction]
  writers := rfl
  streamIns := rfl

end Advanced

-- The inputs take what those nodes produce of which `P` is true, directly or by way of data dependencies.
structure Draws (w : Wiring) (inputs : List Nat) (P : Nat → Prop) : Prop where
  earlier : ∀ input ∈ inputs, input < w.graph.size
  leads   : ∀ p, w.graph.Leads inputs p ↔ P p

namespace Draws

variable {inputs inputs' : List Nat} {P Q : Nat → Prop}

theorem advance (h : w.Draws inputs P) (hw : w.Sound) (ha : Advanced w w') : w'.Draws inputs P where
  earlier input hinput := Nat.lt_of_lt_of_le (h.earlier input hinput) ha.nodes.length_le
  leads p := (hw.wired.leads_of_initial ha.nodes h.earlier).trans (h.leads p)

theorem congr (h : w.Draws inputs P) (hPQ : ∀ p, P p ↔ Q p) : w.Draws inputs Q :=
  ⟨h.earlier, fun p => (h.leads p).trans (hPQ p)⟩

theorem append (h : w.Draws inputs P) (h' : w.Draws inputs' Q) : w.Draws (inputs ++ inputs') fun p => P p ∨ Q p where
  earlier input hinput := (List.mem_append.mp hinput).elim (h.earlier input) (h'.earlier input)
  leads p := Graph.leads_append.trans (or_congr (h.leads p) (h'.leads p))

-- An input that is there already is not listed again.
theorem insert {found : Option Nat} (h : w.Draws inputs P) (h' : w.Draws found.toList Q) :
    w.Draws (found.elim inputs fun node => if node ∈ inputs then inputs else inputs ++ [node])
      fun p => P p ∨ Q p := by
  cases found with
  | none => exact inputs.append_nil ▸ h.append h'
  | some node =>
    rw [Option.elim_some]
    split
    case isFalse => exact h.append h'
    case isTrue hmem =>
      refine h.congr fun p => (or_iff_left_of_imp fun hq => ?_).symm
      exact (h.leads p).mp ⟨node, hmem, Graph.leads_singleton.mp ((h'.leads p).mpr hq)⟩

theorem nil (w : Wiring) : w.Draws [] fun _ => False :=
  ⟨nofun, fun p => by simp [Graph.Leads]⟩

theorem contextNode (hw : w.Sound) : w.Draws [contextNode] fun _ => False where
  earlier _ hinput := List.mem_singleton.mp hinput ▸ hw.wired.contextNode_lt
  leads _ := iff_false_intro hw.wired.not_leads_contextNode

theorem node {id : Nat} (hid : id ∈ w.graph.instructionNodes) : w.Draws [id] fun p => some id = some p where
  earlier input hinput := List.mem_singleton.mp hinput ▸ Graph.lt_size_of_mem hid
  leads p := by rw [Graph.leads_singleton, Graph.resolves_instruction hid, Option.some.injEq, eq_comm]

theorem link {producer : Nat} (hproducer : producer ∈ w.graph.instructionNodes) :
    ({ w with graph := w.graph.push (.dataDependency producer) [] } : Wiring).Draws [w.graph.size]
      fun p => some producer = some p := by
  have hadvanced := Advanced.link w (Graph.lt_size_of_mem hproducer)
  have hlast := (node (hadvanced.instructions.symm ▸ hproducer)).leads
  refine ⟨fun input hinput => ?_, fun p => ?_⟩
  case refine_1 =>
    cases List.mem_singleton.mp hinput
    exact Nat.lt_of_lt_of_eq (Nat.lt_succ_self _) (Graph.size_push ..).symm
  case refine_2 =>
    rw [← hlast, Graph.leads_singleton, Graph.leads_singleton]
    exact Graph.resolves_link (w.graph.kind?_push_size ..)

end Draws

theorem addNode_of_earlier (kind : NodeKind) {inputs : List Nat} (hinputs : ∀ input ∈ inputs, input < w.graph.size)
    (hlink : ∀ producer, kind = .dataDependency producer → producer < w.graph.size) :
    addNode kind inputs w = (.ok w.graph.size, { w with graph := w.graph.push kind inputs }) := by
  rw [addNode_eq, Graph.add_of_earlier hinputs hlink]

-- What a node is given leads to the provider of the object, and to nothing else.
theorem source_eq (hw : w.Sound) {h : Handle} {index : Nat} (hindex : w.context.objectIndex? h = some index) :
    ∃ found w', source index w = (.ok found, w') ∧ Advanced w w' ∧
      w'.Draws found.toList fun p => w.provider? h = some p := by
  have hprovider : w.provider? h = (w.writers.lookup index).or (w.streamIns.lookup index) := by
    simp [provider?, writer?, streamIn?, Context.entry?, hindex]
  rw [source, Action.bind_of_ok (Action.get_apply w), hprovider]
  cases hwriter : w.writers.lookup index with
  | some writer =>
    have hnode := hw.writers.node hwriter
    have hadd : addNode (.dataDependency writer) [] w = _ :=
      addNode_of_earlier _ nofun fun p hp => by cases hp; exact Graph.lt_size_of_mem hnode
    exact ⟨some w.graph.size, _, Action.bind_of_ok hadd, .link w (Graph.lt_size_of_mem hnode), .link hnode⟩
  | none =>
    refine ⟨w.streamIns.lookup index, w, rfl, advanced_lasting.refl w, ?_⟩
    cases hstreamIn : w.streamIns.lookup index with
    | none => exact (Draws.nil w).congr fun p => by simp
    | some node => exact .node (hw.streamIns.node hstreamIn)

theorem bind_apply (o : HostObject) (w : Wiring) :
    Wiring.bind o w = (.ok (w.context.bind o).1, { w with context := (w.context.bind o).2 }) := (rfl)

theorem modifyState_apply (index : Nat) (f : ObjectState → ObjectState) (w : Wiring) :
    Wiring.modifyState index f w = (.ok ⟨⟩, { w with context := w.context.modifyState index f }) := (rfl)

theorem argumentSources_eq (hw : w.Sound) {inputs : List Nat} {P : Nat → Prop} (hinputs : w.Draws inputs P)
    (arguments : List Argument) :
    ∃ ids w', argumentSources arguments inputs w = (.ok ids, w') ∧ Advanced w w' ∧
      w'.Draws ids fun p => P p ∨ ∃ a ∈ arguments, w.provider? a.object.handle = some p := by
  induction arguments generalizing w inputs P with
  | nil => exact ⟨inputs, w, rfl, advanced_lasting.refl w, hinputs.congr fun p => by simp⟩
  | cons a arguments ih =>
    have hbind := Advanced.bind w a.object
    obtain ⟨found, w₂, hsource, hfound, hdraws⟩ :=
      source_eq (hbind.sound hw) (w.context.objectIndex?_bind a.object)
    have hadvanced := advanced_lasting.trans hbind hfound
    have hboth := (hinputs.advance hw hadvanced).insert hdraws
    -- what the other arguments are taken from is the same as before
    have hprovider : ∀ k, w₂.provider? k = w.provider? k := hadvanced.provider? hw
    have hstep : argumentSources (a :: arguments) inputs w =
        argumentSources arguments (found.elim inputs fun node => if node ∈ inputs then inputs else inputs ++ [node])
          w₂ := by
      refine (Action.bind_of_ok (bind_apply a.object w)).trans ((Action.bind_of_ok hsource).trans ?_)
      cases found <;> rfl
    obtain ⟨ids, w', hrun, hlater, hids⟩ := ih (hadvanced.sound hw) hboth
    refine ⟨ids, w', hstep.trans hrun, advanced_lasting.trans hadvanced hlater, hids.congr fun p => ?_⟩
    simp [hprovider, hbind.provider? hw, or_assoc]

-- The objects that a task writes are bound when it is done.
theorem marks_written {c : Context} {t : Task}
    (hbound : ∀ a ∈ t.arguments, ∃ index, c.objectIndex? a.object.handle = some index) :
    c.Marks (written c t) fun h => (Step.task t).writes h := by
  constructor
  case bound =>
    intro h hh
    obtain ⟨a, ha, hwrites⟩ := List.any_eq_true.mp hh
    simp only [Bool.and_eq_true, decide_eq_true_eq] at hwrites
    exact hwrites.1 ▸ hbound a ha
  case mem =>
    intro index
    simp only [written, List.mem_filterMap, List.mem_filter, Step.writes, Task.writesTo, List.any_eq_true,
      Bool.and_eq_true, decide_eq_true_eq]
    constructor
    case mp =>
      rintro ⟨a, ⟨ha, hwrites⟩, hindex⟩
      exact ⟨_, ⟨a, ha, rfl, hwrites⟩, hindex⟩
    case mpr =>
      rintro ⟨h, ⟨a, ha, rfl, hwrites⟩, hindex⟩
      exact ⟨a, ⟨ha, hwrites⟩, hindex⟩

-- What one call does: there is one more instruction node, which is fed by the providers of what the step takes.
structure Adds (step : Step) (w : Wiring) (id : Nat) (w' : Wiring) : Prop where
  sound        : w'.Sound
  nodes        : w.graph.nodes <+: w'.graph.nodes
  instructions : w'.graph.instructionNodes = w.graph.instructionNodes ++ [id]
  writer       : ∀ h, w'.writer? h = if step.writes h then some id else w.writer? h
  streamIn     : ∀ h, w'.streamIn? h = if step.streamsIn h then some id else w.streamIn? h
  feeds        : ∀ p, w'.graph.Feeds p id ↔ ∃ h ∈ step.takes, w.provider? h = some p

-- The wiring with one more node, which those places of the tables are given to.
def noted (w : Wiring) (kind : NodeKind) (inputs writes streamsIn : List Nat) : Wiring :=
  { w with
    graph := w.graph.push kind inputs
    writers := writes.map (·, w.graph.size) ++ w.writers
    streamIns := streamsIn.map (·, w.graph.size) ++ w.streamIns }

theorem Names.noted {kind : NodeKind} {inputs writes streamsIn places : List Nat} {table : List (Nat × Nat)}
    {p : Handle → Bool} (h : w.Names table) (hkind : kind.isInstruction) (hmarks : w.context.Marks places p) :
    (w.noted kind inputs writes streamsIn).Names (places.map (·, w.graph.size) ++ table) := by
  have hnodes : (w.noted kind inputs writes streamsIn).graph.instructionNodes =
      w.graph.instructionNodes ++ [w.graph.size] := by
    rw [Wiring.noted, Graph.instructionNodes_push, if_pos hkind]
  intro x hx
  rw [hnodes]
  rcases List.mem_append.mp hx with hnew | hold
  case inl =>
    obtain ⟨index, hindex, rfl⟩ := List.mem_map.mp hnew
    obtain ⟨k, _, hk⟩ := (hmarks.mem index).mp hindex
    rw [Context.objectIndex?_eq] at hk
    exact ⟨(List.findIdx?_eq_some_iff_getElem.mp hk).1, by simp⟩
  case inr => exact (h x hold).imp_right fun hmem => List.mem_append_left _ hmem

theorem adds_noted (hw : w.Sound) (ha : Advanced w w') (kind : NodeKind) {inputs writes streamsIn : List Nat}
    (hinputs : w'.Draws inputs fun p => ∃ h ∈ step.takes, w.provider? h = some p) (hkind : kind.isInstruction)
    (hfirst : ∀ object, kind = .streamIn object → inputs = [contextNode])
    (hwrites : w'.context.Marks writes fun h => step.writes h)
    (hstreamsIn : w'.context.Marks streamsIn fun h => step.streamsIn h) :
    Adds step w w'.graph.size (w'.noted kind inputs writes streamsIn) := by
  have hw' := ha.sound hw
  have hlink : ∀ p, kind ≠ .dataDependency p := by
    rintro p rfl
    cases hkind
  have hcontext : kind.isContext = false := by cases kind <;> first | rfl | cases hkind
  constructor
  case sound =>
    constructor
    case wired => exact hw'.wired.push hinputs.earlier (fun p hp => absurd hp (hlink p)) hfirst
    case contexts =>
      rw [noted, Graph.contexts, Graph.idsWhere_push, hcontext]
      exact (List.append_nil _).trans hw'.contexts
    case writers => exact hw'.writers.noted hkind hwrites
    case streamIns => exact hw'.streamIns.noted hkind hstreamsIn
  case nodes => exact ha.nodes.trans (w'.graph.nodes_push kind inputs)
  case instructions => rw [noted, Graph.instructionNodes_push, if_pos hkind, ha.instructions]
  case writer =>
    intro h
    rw [← ha.writer? hw]
    exact Context.entry?_marked hwrites _ h
  case streamIn =>
    intro h
    rw [← ha.streamIn? hw]
    exact Context.entry?_marked hstreamsIn _ h
  case feeds => exact fun p => (hw'.wired.feeds_push hinputs.earlier hkind).trans (hinputs.leads p)

-- A transfer has its object bound, and its part in the graph put down, before it looks for a provider.
def announced (w : Wiring) (o : HostObject) (f : ObjectState → ObjectState) : Wiring :=
  { w with context := (w.context.bind o).2.modifyState (w.context.bind o).1 f }

section

variable (w : Wiring) (o : HostObject) (f : ObjectState → ObjectState)

theorem advanced_announced : Advanced w (w.announced o f) :=
  advanced_lasting.trans (.bind w o) (.modifyState _ _ f)

theorem objectIndex?_announced : (w.announced o f).context.objectIndex? o.handle = some (w.context.bind o).1 := by
  rw [announced, Context.objectIndex?_eq, Context.objects_modifyState, ← Context.objectIndex?_eq]
  exact w.context.objectIndex?_bind o

theorem announce_apply (k : Nat → Action Wiring Nat) :
    (Wiring.bind o >>= fun index => Wiring.modifyState index f >>= fun _ => k index) w =
      k (w.context.bind o).1 (w.announced o f) := by
  rw [Action.bind_of_ok (bind_apply o w), Action.bind_of_ok (modifyState_apply _ _ _)]
  rfl

end

theorem streamIn_adds (hw : w.Sound) (o : HostObject) :
    ∃ id w', streamIn o w = (.ok id, w') ∧ Adds (.streamIn o) w id w' := by
  have hadvanced := advanced_announced w o fun st => { st with streamIn := true }
  have hinputs := Draws.contextNode (hadvanced.sound hw)
  have hindex := objectIndex?_announced w o fun st => { st with streamIn := true }
  refine ⟨_, _, ?_, adds_noted hw hadvanced (.streamIn (w.context.bind o).1)
    (hinputs.congr fun p => by simp [Step.takes]) rfl (fun _ _ => rfl) (.none fun _ => rfl)
    (.one hindex fun k => by simp [Step.streamsIn])⟩
  refine (announce_apply w o _ _).trans ?_
  exact Action.bind_of_ok (addNode_of_earlier (.streamIn _) hinputs.earlier nofun)

theorem streamOut_adds (hw : w.Sound) (o : HostObject) :
    ∃ id w', streamOut o w = (.ok id, w') ∧ Adds (.streamOut o) w id w' := by
  have hbound := advanced_announced w o fun st => { st with streamOut := true }
  obtain ⟨found, w', hsource, hfound, hdraws⟩ := source_eq (hbound.sound hw) (objectIndex?_announced w o _)
  have hadvanced := advanced_lasting.trans hbound hfound
  have hinputs := ((Draws.contextNode (hadvanced.sound hw)).append hdraws).congr
    (Q := fun p => ∃ h ∈ (Step.streamOut o).takes, w.provider? h = some p) fun p => by
      simp [Step.takes, hbound.provider? hw]
  refine ⟨_, _, ?_, adds_noted hw hadvanced (.streamOut (w.context.bind o).1) hinputs rfl nofun
    (.none fun _ => rfl) (.none fun _ => rfl)⟩
  refine (announce_apply w o _ _).trans ((Action.bind_of_ok hsource).trans ?_)
  cases found with
  | none => exact addNode_of_earlier _ hinputs.earlier nofun
  | some node => exact addNode_of_earlier _ hinputs.earlier nofun

theorem task_adds (hw : w.Sound) (t : Task) : ∃ id w', task t w = (.ok id, w') ∧ Adds (.task t) w id w' := by
  have hadd := Advanced.addTask w t
  obtain ⟨ids, w', hsources, hlater, hdraws⟩ :=
    argumentSources_eq (hadd.sound hw) (.contextNode (hadd.sound hw)) t.arguments
  have hadvanced := advanced_lasting.trans hadd hlater
  have hinputs := hdraws.congr (Q := fun p => ∃ h ∈ (Step.task t).takes, w.provider? h = some p) fun p => by
    simp [Step.takes, hadd.provider? hw]
  have hbound : ∀ a ∈ t.arguments, ∃ index, w'.context.objectIndex? a.object.handle = some index := fun a ha => by
    have hmem := Context.mem_objects_bindAll (List.mem_map_of_mem (f := Argument.object) ha) w.context
    exact Context.exists_objectIndex? ((hlater.objects.map HostObject.handle).subset hmem)
  refine ⟨_, _, ?_, adds_noted hw hadvanced (.task (w.context.addTask t).1) hinputs rfl nofun
    (marks_written hbound) (.none fun _ => rfl)⟩
  refine (Action.bind_of_ok (Action.get_apply w)).trans ((Action.bind_of_ok (Action.set_apply _ _)).trans
    ((Action.bind_of_ok hsources).trans ?_))
  exact Action.bind_of_ok (addNode_of_earlier (.task _) hinputs.earlier nofun)

theorem step_adds (hw : w.Sound) (step : Step) : ∃ id w', Wiring.step step w = (.ok id, w') ∧ Adds step w id w' := by
  cases step with
  | streamIn o => exact streamIn_adds hw o
  | task t => exact task_adds hw t
  | streamOut o => exact streamOut_adds hw o

end Wiring
end Offload
