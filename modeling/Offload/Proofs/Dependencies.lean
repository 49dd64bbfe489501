import Offload.Graph.Order
import Offload.Proofs.Action

/-!
What the dependencies of a node are: the instruction nodes that its inputs lead to by way of data
dependencies.
-/

namespace Offload

namespace Graph

variable {g : Graph}

-- Node `id` stands for what node `p` produces.
inductive Resolves (g : Graph) : (id p : Nat) → Prop
  | node {id : Nat} {kind : NodeKind} (h : g.kind? id = some kind) (hkind : kind.isInstruction) :
    Resolves g id id
  | link {id producer p : Nat} (h : g.kind? id = some (.dataDependency producer))
    (hp : Resolves g producer p) : Resolves g id p

-- Instruction node `id` takes an input, directly or by way of data dependencies, from node `p`.
def Feeds (g : Graph) (p id : Nat) : Prop :=
  ∃ n, g.node? id = some n ∧ n.kind.isInstruction ∧ ∃ input ∈ n.inputs, g.Resolves input p

theorem mem_instructionNodes {id : Nat} :
    id ∈ g.instructionNodes ↔ ∃ kind, g.kind? id = some kind ∧ kind.isInstruction := by
  have hlt : ∀ kind, g.kind? id = some kind → id < g.size := by
    intro kind h
    have ⟨n, hn, _⟩ := Option.map_eq_some_iff.mp h
    exact (List.getElem?_eq_some_iff.mp hn).1
  simp only [instructionNodes, idsWhere, List.mem_filter, List.mem_range, Option.any_eq_true]
  constructor
  case mp => exact fun h => h.2
  case mpr => exact fun ⟨kind, hkind, hi⟩ => ⟨hlt kind hkind, kind, hkind, hi⟩

theorem Resolves.mem_instructionNodes {id p : Nat} (h : g.Resolves id p) :
    p ∈ g.instructionNodes := by
  induction h with
  | node h hkind => exact Graph.mem_instructionNodes.mpr ⟨_, h, hkind⟩
  | link _ _ ih => exact ih

theorem resolves_of_producerWithin {fuel id p : Nat}
    (h : g.producerWithin fuel id = .ok (some p)) : g.Resolves id p := by
  induction fuel generalizing id with
  | zero => cases h
  | succ fuel ih =>
    unfold producerWithin at h
    cases hkind : g.kind? id with
    | none =>
      rw [hkind] at h
      cases h
    | some kind =>
      rw [hkind] at h
      cases kind
      case dataDependency producer => exact .link hkind (ih h)
      case context => cases h
      all_goals
        cases h
        exact .node hkind rfl

theorem Resolves.producerWithin_eq {fuel id p : Nat} {found : Option Nat} (hp : g.Resolves id p)
    (h : g.producerWithin fuel id = .ok found) : found = some p := by
  induction hp generalizing fuel with
  | @node id kind hkind hi =>
    cases fuel with
    | zero => cases h
    | succ fuel =>
      rw [producerWithin, hkind] at h
      cases kind <;> cases hi <;> cases h <;> rfl
  | @link id producer p hkind _ ih =>
    cases fuel with
    | zero => cases h
    | succ fuel =>
      rw [producerWithin, hkind] at h
      exact ih h

namespace Dependencies

variable {d : Dependencies}

theorem nodeDependencies_of (hd : g.dependencies = .ok d) {id : Nat} {n : Node}
    (hn : g.node? id = some n) : g.nodeDependencies n = .ok (d.of id) := by
  unfold dependencies at hd
  cases hlists : g.nodes.mapM g.nodeDependencies <;> rw [hlists] at hd <;> cases hd
  have hall := forall₂_of_mapM_ok hlists
  obtain ⟨hid, rfl⟩ := List.getElem?_eq_some_iff.mp hn
  have hid' := hall.length_eq ▸ hid
  have hlist := hall.get hid hid'
  simpa [of, List.getElem?_eq_getElem hid'] using hlist

theorem of_eq_nil (hd : g.dependencies = .ok d) {id : Nat} (hid : id ∉ g.instructionNodes) :
    d.of id = [] := by
  cases hn : g.node? id with
  | some n =>
    have hkind : ¬n.kind.isInstruction := fun h =>
      hid (mem_instructionNodes.mpr ⟨n.kind, by simp [kind?, hn], h⟩)
    have hof := nodeDependencies_of hd hn
    rw [nodeDependencies, if_neg hkind] at hof
    exact (Except.ok.inj hof).symm
  | none =>
    unfold dependencies at hd
    cases hlists : g.nodes.mapM g.nodeDependencies <;> rw [hlists] at hd <;> cases hd
    have hlength := (forall₂_of_mapM_ok hlists).length_eq
    have hnone : g.nodes.length ≤ id := List.getElem?_eq_none_iff.mp hn
    simp [of, List.getElem?_eq_none (hlength ▸ hnone)]

-- The analysis finds the nodes that feed a node, and no others.
theorem mem_of_iff (hd : g.dependencies = .ok d) {id dep : Nat} :
    dep ∈ d.of id ↔ g.Feeds dep id := by
  by_cases hid : id ∈ g.instructionNodes
  case neg =>
    have hfeeds : ¬g.Feeds dep id := fun ⟨n, hn, hkind, _⟩ =>
      hid (mem_instructionNodes.mpr ⟨n.kind, by simp [kind?, hn], hkind⟩)
    simp [of_eq_nil hd hid, hfeeds]
  case pos =>
    obtain ⟨kind, hkind, hi⟩ := mem_instructionNodes.mp hid
    obtain ⟨n, hn, rfl⟩ := Option.map_eq_some_iff.mp hkind
    have hof := nodeDependencies_of hd hn
    rw [nodeDependencies, if_pos hi] at hof
    cases hproducers : n.inputs.mapM g.producer <;> rw [hproducers] at hof
    case error => cases hof
    case ok producers =>
    rw [← Except.ok.inj hof]
    have hall := forall₂_of_mapM_ok hproducers
    simp only [List.mem_filter, List.mem_range, decide_eq_true_eq]
    constructor
    case mp =>
      rintro ⟨_, hdep⟩
      obtain ⟨place, hplace, heq⟩ := List.getElem_of_mem hdep
      have hinput := hall.get (hall.length_eq ▸ hplace) hplace
      simp only [List.get_eq_getElem, heq] at hinput
      exact ⟨n, hn, hi, _, List.getElem_mem _, resolves_of_producerWithin hinput⟩
    case mpr =>
      rintro ⟨n', hn', _, input, hinput, hresolves⟩
      cases hn.symm.trans hn'
      obtain ⟨place, hplace, rfl⟩ := List.getElem_of_mem hinput
      have hplace' := hall.length_eq ▸ hplace
      have hproducer := hall.get hplace hplace'
      obtain ⟨_, hkind', _⟩ := mem_instructionNodes.mp hresolves.mem_instructionNodes
      obtain ⟨_, hdep, _⟩ := Option.map_eq_some_iff.mp hkind'
      refine ⟨(List.getElem?_eq_some_iff.mp hdep).1, ?_⟩
      rw [← hresolves.producerWithin_eq hproducer]
      exact List.get_mem _ _

theorem of_subset (hd : g.dependencies = .ok d) (id : Nat) : d.of id ⊆ g.instructionNodes := by
  intro dep hdep
  obtain ⟨_, _, _, _, _, hresolves⟩ := (mem_of_iff hd).mp hdep
  exact hresolves.mem_instructionNodes

theorem mem_sinks_iff {id : Nat} :
    id ∈ g.sinks d ↔ id ∈ g.instructionNodes ∧ ∀ k, id ∉ d.of k := by
  have hlists : (∀ list ∈ d.lists, id ∉ list) ↔ ∀ k, id ∉ d.of k := by
    constructor
    case mp =>
      intro h k
      cases hk : d.lists[k]? with
      | none => simp [of, hk]
      | some list => simpa [of, hk] using h list (List.mem_of_getElem? hk)
    case mpr =>
      intro h list hlist
      obtain ⟨k, hk, rfl⟩ := List.getElem_of_mem hlist
      simpa [of, List.getElem?_eq_getElem hk] using h k
  simp [sinks, hlists]

end Dependencies
end Graph
end Offload
