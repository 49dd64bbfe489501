import Mathlib.Data.Finite.Defs
import Mathlib.Data.Fintype.Pigeonhole
import Mathlib.Data.List.Nodup
import Mathlib.Logic.Relation
import Offload.Proofs.Dependencies
import Offload.Proofs.Order

/-!
When the instruction nodes of a graph have an order. What no scan takes has a dependency that no scan
takes either, so that following dependencies from there never ends; and what was taken has only the
nodes in front of it to follow its dependencies to.
-/

namespace Offload.Graph

variable {g : Graph} {d : Dependencies} {candidates ids order : List Nat} {id k : Nat}

-- Instruction node `id` needs what node `dep` produces.
def DependsOn (g : Graph) (id dep : Nat) : Prop :=
  g.Feeds dep id

-- Following dependencies from node `id` can lead into a cycle.
def ReachesCycle (g : Graph) (id : Nat) : Prop :=
  ∃ k, Relation.ReflTransGen g.DependsOn id k ∧ Relation.TransGen g.DependsOn k k

theorem length_le_take (d : Dependencies) (order : List Nat) (id : Nat) :
    order.length ≤ (take d order id).length := by
  unfold take
  split
  case isTrue => exact Nat.le_refl _
  case isFalse => split <;> simp

theorem length_le_scan (d : Dependencies) (ids order : List Nat) :
    order.length ≤ (scan d ids order).length := by
  induction ids generalizing order with
  | nil => exact Nat.le_refl _
  | cons id ids ih => exact Nat.le_trans (length_le_take d order id) (ih _)

-- A scan that takes nothing has found something missing for every node that is left.
theorem missing_of_scan (h : (scan d ids order).length = order.length) (hid : id ∈ ids)
    (hnew : id ∉ order) : ∃ dep ∈ d.of id, dep ∉ order := by
  induction ids with
  | nil => cases hid
  | cons first ids ih =>
    have hfirst := length_le_take d order first
    have hrest := length_le_scan d ids (take d order first)
    rw [scan, List.foldl_cons, ← scan] at h
    by_cases hready : first ∉ order ∧ ∀ dep ∈ d.of first, dep ∈ order
    case pos =>
      have htake : take d order first = order ++ [first] := by
        rw [take, if_neg hready.1, if_pos (by simpa using hready.2)]
      rw [htake, List.length_append] at hrest
      simp only [List.length_singleton] at hrest
      rw [htake] at h
      omega
    case neg =>
      have htake : take d order first = order := by
        unfold take
        split
        case isTrue => rfl
        case isFalse hout => rw [if_neg (by simpa using fun hall => hready ⟨hout, hall⟩)]
      rw [htake] at h
      rcases List.mem_cons.mp hid with rfl | hid
      case inr => exact ih h hid
      case inl => simpa [hnew] using hready

-- Scanning ends with a scan that takes nothing, or has taken a node in each of its scans.
theorem scans_stop (d : Dependencies) (candidates : List Nat) (fuel : Nat) (order : List Nat) :
    (scan d candidates (scans d candidates fuel order)).length =
        (scans d candidates fuel order).length ∨
      order.length + fuel ≤ (scans d candidates fuel order).length := by
  induction fuel generalizing order with
  | zero => exact .inr (Nat.le_refl _)
  | succ fuel ih =>
    rw [scans]
    split
    case isTrue hstop => exact .inl hstop
    case isFalse hmore =>
      have hgrown := length_le_scan d candidates order
      refine (ih (scan d candidates order)).imp_right fun hlength => ?_
      omega

theorem partial_taken (d : Dependencies) (candidates : List Nat) :
    Partial d candidates (taken d candidates) := by
  have start : Partial d candidates [] := ⟨List.nodup_nil, List.nil_subset _, .nil⟩
  exact start.scans candidates.length

-- A node that is never taken waits for another one that is never taken.
theorem missing_of_not_taken (hid : id ∈ candidates) (hnew : id ∉ taken d candidates) :
    ∃ dep ∈ d.of id, dep ∉ taken d candidates := by
  rcases scans_stop d candidates candidates.length [] with hstop | hall
  case inl => exact missing_of_scan hstop hid hnew
  case inr =>
    have htaken := partial_taken d candidates
    rw [List.length_nil, Nat.zero_add] at hall
    -- as many nodes were taken as there are, and none of them twice
    have hperm := (List.subperm_of_subset htaken.nodup htaken.subset).perm_of_length_le hall
    exact absurd (hperm.mem_iff.mpr hid) hnew

-- Dependencies lead from a node of an order only to nodes in front of it.
theorem Respects.mem_of_transGen (h : Respects d order) (hd : g.dependencies = .ok d)
    (hdep : Relation.TransGen g.DependsOn id k) :
    ∀ pre post, order = pre ++ id :: post → k ∈ pre := by
  induction hdep using Relation.TransGen.head_induction_on with
  | single hdep =>
    intro pre post horder
    exact h pre _ post horder k ((Dependencies.mem_of_iff hd).mpr hdep)
  | @head id dep hdep _ ih =>
    intro pre post horder
    have hmem := h pre id post horder dep ((Dependencies.mem_of_iff hd).mpr hdep)
    obtain ⟨before, after, rfl⟩ := List.append_of_mem hmem
    exact List.mem_append_left _ (ih before (after ++ id :: post) (by simp [horder]))

theorem Partial.not_reachesCycle (h : Partial d candidates order) (hd : g.dependencies = .ok d)
    (hid : id ∈ order) : ¬g.ReachesCycle id := by
  intro ⟨k, hreach, hcycle⟩
  have hk : k ∈ order := by
    rcases Relation.reflTransGen_iff_eq_or_transGen.mp hreach with rfl | hreach
    case inl => exact hid
    case inr =>
      obtain ⟨pre, post, horder⟩ := List.append_of_mem hid
      rw [horder]
      exact List.mem_append_left _ (h.respects.mem_of_transGen hd hreach pre post horder)
  obtain ⟨pre, post, horder⟩ := List.append_of_mem hk
  have hpre := h.respects.mem_of_transGen hd hcycle pre post horder
  have hnodup := h.nodup
  rw [horder] at hnodup
  exact (List.nodup_append.mp hnodup).2.2 k hpre k (by simp) rfl

-- Among finitely many nodes, of which each depends on another, some node comes round again.
theorem reachesCycle_of_closed {nodes : List Nat}
    (h : ∀ id ∈ nodes, ∃ dep ∈ nodes, g.DependsOn id dep) (hid : id ∈ nodes) : g.ReachesCycle id := by
  choose next hnext hdep using h
  let follow (x : { x // x ∈ nodes }) : { x // x ∈ nodes } := ⟨next x.1 x.2, hnext x.1 x.2⟩
  let visit (n : Nat) : { x // x ∈ nodes } := follow^[n] ⟨id, hid⟩
  have hstep (n : Nat) : g.DependsOn (visit n) (visit (n + 1)) := by
    rw [show visit (n + 1) = follow (visit n) from Function.iterate_succ_apply' ..]
    exact hdep _ _
  have hreach {i j : Nat} (hij : i ≤ j) : Relation.ReflTransGen g.DependsOn (visit i) (visit j) := by
    induction hij with
    | refl => exact .refl
    | step _ ih => exact ih.tail (hstep _)
  have hagain {i j : Nat} (hij : i < j) (hsame : visit i = visit j) : g.ReachesCycle id := by
    refine ⟨visit i, hreach (Nat.zero_le i), ?_⟩
    have hback := Relation.TransGen.head' (hstep i) (hreach hij)
    rwa [← hsame] at hback
  obtain ⟨i, j, hne, hsame⟩ := Finite.exists_ne_map_eq_of_infinite visit
  rcases Nat.lt_or_gt_of_ne hne with hij | hji
  case inl => exact hagain hij hsame
  case inr => exact hagain hji hsame.symm

-- What is left over in the end is what a cycle can be reached from.
theorem not_mem_taken_iff (hd : g.dependencies = .ok d) (hid : id ∈ g.instructionNodes) :
    id ∉ taken d g.instructionNodes ↔ g.ReachesCycle id := by
  constructor
  case mpr =>
    intro hcycle hmem
    exact (partial_taken d g.instructionNodes).not_reachesCycle hd hmem hcycle
  case mp =>
    intro hnew
    have hclosed : ∀ id ∈ g.instructionNodes.filter (· ∉ taken d g.instructionNodes),
        ∃ dep ∈ g.instructionNodes.filter (· ∉ taken d g.instructionNodes), g.DependsOn id dep := by
      intro id hleft
      have ⟨hid, hnew⟩ := List.mem_filter.mp hleft
      obtain ⟨dep, hdep, hmissing⟩ := missing_of_not_taken hid (by simpa using hnew)
      refine ⟨dep, List.mem_filter.mpr ⟨Dependencies.of_subset hd id hdep, by simpa using hmissing⟩, ?_⟩
      exact (Dependencies.mem_of_iff hd).mp hdep
    exact reachesCycle_of_closed hclosed (List.mem_filter.mpr ⟨hid, by simpa using hnew⟩)

theorem DependsOn.isInstruction {dep : Nat} (h : g.DependsOn id dep) : id ∈ g.instructionNodes := by
  obtain ⟨n, hn, hkind, _⟩ := h
  exact mem_instructionNodes.mpr ⟨n.kind, by simp [kind?, hn], hkind⟩

-- What comes of asking for an order: one that respects all dependencies, or the nodes that stand in
-- its way, by their ids and the names of their kinds.
structure Schedules (g : Graph) (result : Except Error (List Nat)) : Prop where
  accepted : (∃ order, result = .ok order) ↔ ∀ id, ¬Relation.TransGen g.DependsOn id id
  ordered  : ∀ order, result = .ok order → order.Nodup ∧
    (∀ id, id ∈ order ↔ ∃ kind, g.kind? id = some kind ∧ kind.isInstruction) ∧
    ∀ pre id post, order = pre ++ id :: post → ∀ dep, g.DependsOn id dep → dep ∈ pre
  refused  : ∀ e, result = .error e → ∃ stuck, e = .config (.cycle stuck) ∧
    (stuck.map Prod.fst).Pairwise (· < ·) ∧
    ∀ id name, (id, name) ∈ stuck ↔
      (∃ kind, g.kind? id = some kind ∧ kind.isInstruction ∧ name = kind.name) ∧ g.ReachesCycle id

theorem order_schedules (hd : g.dependencies = .ok d) : g.Schedules (g.order d) := by
  have hstuck : g.instructionNodes.filter (· ∉ taken d g.instructionNodes) = [] ↔
      ∀ id, ¬Relation.TransGen g.DependsOn id id := by
    simp only [List.filter_eq_nil_iff, decide_eq_true_eq]
    constructor
    case mp =>
      intro hnone id hcycle
      obtain ⟨_, hdep, _⟩ := Relation.TransGen.head'_iff.mp hcycle
      have hid := hdep.isInstruction
      exact hnone id hid ((not_mem_taken_iff hd hid).mpr ⟨id, .refl, hcycle⟩)
    case mpr =>
      intro hacyclic id hid hnew
      obtain ⟨k, _, hcycle⟩ := (not_mem_taken_iff hd hid).mp hnew
      exact hacyclic k hcycle
  constructor
  case accepted =>
    rw [← hstuck]
    unfold order
    dsimp only
    split
    case isTrue hnone => exact ⟨fun _ => hnone, fun _ => ⟨_, rfl⟩⟩
    case isFalse hsome =>
      constructor
      case mp => exact nofun
      case mpr => exact fun hnone => absurd hnone hsome
  case ordered =>
    intro order horder
    have hordered := ordered_of_order horder
    refine ⟨hordered.nodup, fun id => hordered.mem_iff.trans mem_instructionNodes, ?_⟩
    intro pre id post hsplit dep hdep
    exact hordered.respects pre id post hsplit dep ((Dependencies.mem_of_iff hd).mpr hdep)
  case refused =>
    intro e he
    unfold order at he
    dsimp only at he
    split at he
    case isTrue => cases he
    case isFalse =>
      cases he
      refine ⟨_, rfl, ?_, fun id name => ?_⟩
      case refine_1 =>
        rw [List.map_map]
        simpa [Function.comp_def] using g.instructionNodes_pairwise.filter _
      case refine_2 =>
        simp only [List.mem_map, List.mem_filter, decide_eq_true_eq, Prod.mk.injEq]
        constructor
        case mp =>
          rintro ⟨id', ⟨hid, hnew⟩, rfl, rfl⟩
          obtain ⟨kind, hkind, hi⟩ := mem_instructionNodes.mp hid
          exact ⟨⟨kind, hkind, hi, by simp [hkind]⟩, (not_mem_taken_iff hd hid).mp hnew⟩
        case mpr =>
          rintro ⟨⟨kind, hkind, hi, rfl⟩, hcycle⟩
          have hid := mem_instructionNodes.mpr ⟨kind, hkind, hi⟩
          exact ⟨id, ⟨hid, (not_mem_taken_iff hd hid).mpr hcycle⟩, rfl, by simp [hkind]⟩

-- Nodes 1 and 3 need each other, the latter by way of a data dependency; node 4 needs node 3, and
-- node 5 needs nothing of them.
def loopGraph : Graph where
  nodes := [⟨0, [], .context 0⟩, ⟨1, [0, 3], .task 0⟩, ⟨2, [], .dataDependency 1⟩,
    ⟨3, [0, 2], .task 1⟩, ⟨4, [3], .streamOut 0⟩, ⟨5, [0], .streamIn 1⟩]

theorem loop_schedules :
    loopGraph.dependencies = .ok ⟨[[], [3], [], [1], [3], []]⟩ ∧
      loopGraph.order ⟨[[], [3], [], [1], [3], []]⟩ =
        .error (.config (.cycle [(1, "task"), (3, "task"), (4, "stream-out")])) ∧
      loopGraph.Schedules (loopGraph.order ⟨[[], [3], [], [1], [3], []]⟩) := by
  have hd : loopGraph.dependencies = .ok ⟨[[], [3], [], [1], [3], []]⟩ := by decide
  exact ⟨hd, by decide, order_schedules hd⟩

end Offload.Graph
