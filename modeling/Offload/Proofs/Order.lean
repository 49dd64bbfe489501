import Offload.Graph.Order

/-!
What an order of the instruction nodes is like: it has each of them once, behind everything that the
node depends on. A graph whose nodes depend on earlier ones only is ordered as it was built.
-/

namespace Offload.Graph

-- Every node of the order comes behind all of its dependencies.
def Respects (d : Dependencies) (order : List Nat) : Prop :=
  ∀ pre id post, order = pre ++ id :: post → ∀ dep ∈ d.of id, dep ∈ pre

structure Ordered (g : Graph) (d : Dependencies) (order : List Nat) : Prop where
  nodup    : order.Nodup
  mem_iff  : ∀ {id}, id ∈ order ↔ id ∈ g.instructionNodes
  respects : Respects d order

namespace Respects

variable {d : Dependencies} {order : List Nat}

theorem nil : Respects d [] := by
  intro pre id post h
  cases pre <;> cases h

theorem concat (h : Respects d order) {id : Nat} (hid : ∀ dep ∈ d.of id, dep ∈ order) :
    Respects d (order ++ [id]) := by
  intro pre id' post heq
  rcases List.eq_nil_or_concat post with rfl | ⟨post, last, rfl⟩
  case inl =>
    have ⟨hpre, hlast⟩ := List.append_inj' heq rfl
    cases hlast
    exact hpre ▸ hid
  case inr =>
    rw [List.concat_eq_append, ← List.cons_append, ← List.append_assoc] at heq
    have ⟨hinit, _⟩ := List.append_inj' heq rfl
    exact h pre id' post hinit

end Respects

-- What every scan keeps: an order of some of the candidates that could be gone on with.
structure Partial (d : Dependencies) (candidates order : List Nat) : Prop where
  nodup    : order.Nodup
  subset   : order ⊆ candidates
  respects : Respects d order

namespace Partial

variable {d : Dependencies} {candidates order : List Nat}

theorem take (h : Partial d candidates order) {id : Nat} (hid : id ∈ candidates) :
    Partial d candidates (take d order id) := by
  unfold Graph.take
  split
  case isTrue => exact h
  case isFalse hnew =>
    split
    case isFalse => exact h
    case isTrue hdeps =>
      constructor
      case nodup =>
        have hdisjoint : ∀ k ∈ order, k ≠ id := fun k hk heq => hnew (heq ▸ hk)
        simpa [List.nodup_append, h.nodup] using hdisjoint
      case subset => simpa [hid] using h.subset
      case respects => exact h.respects.concat (by simpa using hdeps)

theorem scan {ids : List Nat} (h : Partial d candidates order) (hids : ids ⊆ candidates) :
    Partial d candidates (scan d ids order) := by
  induction ids generalizing order with
  | nil => exact h
  | cons id ids ih =>
    have ⟨hid, hrest⟩ := List.cons_subset.mp hids
    exact ih (h.take hid) hrest

theorem scans (h : Partial d candidates order) (fuel : Nat) :
    Partial d candidates (scans d candidates fuel order) := by
  induction fuel generalizing order with
  | zero => exact h
  | succ fuel ih =>
    rw [Graph.scans]
    split
    case isTrue => exact h
    case isFalse => exact ih (h.scan (List.Subset.refl _))

end Partial

variable {g : Graph} {d : Dependencies} {order : List Nat}

theorem order_ok (h : g.order d = .ok order) :
    order = taken d g.instructionNodes ∧ ∀ id ∈ g.instructionNodes, id ∈ order := by
  unfold Graph.order at h
  dsimp only at h
  split at h
  case isFalse => cases h
  case isTrue hstuck =>
    cases h
    exact ⟨rfl, by simpa using hstuck⟩

theorem ordered_of_order (h : g.order d = .ok order) : g.Ordered d order := by
  have ⟨horder, hall⟩ := order_ok h
  have start : Partial d g.instructionNodes [] := ⟨List.nodup_nil, List.nil_subset _, .nil⟩
  have stop := start.scans g.instructionNodes.length
  rw [← taken, ← horder] at stop
  exact ⟨stop.nodup, ⟨fun hid => stop.subset hid, hall _⟩, stop.respects⟩

namespace Ordered

-- A node depends neither on itself nor on what comes behind it.
theorem not_dep (h : g.Ordered d order) {seen post : List Nat} {id k : Nat}
    (horder : order = seen ++ id :: post) (hk : k ∈ seen ++ [id]) : id ∉ d.of k := by
  intro hdep
  have hseen : id ∈ seen := by
    rcases List.mem_append.mp hk with hseen | hid
    case inl =>
      obtain ⟨before, after, rfl⟩ := List.append_of_mem hseen
      have hsplit : order = before ++ k :: (after ++ id :: post) := by simp [horder]
      exact List.mem_append_left _ (h.respects before k _ hsplit id hdep)
    case inr =>
      cases List.mem_singleton.mp hid
      exact h.respects seen id post horder id hdep
  have hnodup := h.nodup
  rw [horder] at hnodup
  exact (List.nodup_append.mp hnodup).2.2 id hseen id (by simp) rfl

end Ordered

-- A scan that finds everything it needs in front of each node takes them all as they come.
theorem scan_eq_append {ids : List Nat} (hids : (order ++ ids).Nodup)
    (hdeps : ∀ pre id post, ids = pre ++ id :: post → ∀ dep ∈ d.of id, dep ∈ order ++ pre) :
    scan d ids order = order ++ ids := by
  induction ids generalizing order with
  | nil => simp [scan]
  | cons id ids ih =>
    have hid : ∀ dep ∈ d.of id, dep ∈ order := by simpa using hdeps [] id ids rfl
    have hnew : id ∉ order := fun hmem => (List.nodup_append.mp hids).2.2 id hmem id (by simp) rfl
    have htake : take d order id = order ++ [id] := by
      rw [take, if_neg hnew, if_pos (by simpa using hid)]
    have hrest : scan d ids (order ++ [id]) = (order ++ [id]) ++ ids := by
      apply ih
      case hids => simpa using hids
      case hdeps =>
        intro pre id' post heq dep hdep
        simpa using hdeps (id :: pre) id' post (by rw [heq]; rfl) dep hdep
    rw [scan, List.foldl_cons, htake, ← scan, hrest]
    simp

theorem instructionNodes_pairwise (g : Graph) : g.instructionNodes.Pairwise (· < ·) :=
  List.pairwise_lt_range.filter _

theorem instructionNodes_nodup (g : Graph) : g.instructionNodes.Nodup :=
  List.nodup_range.filter _

theorem taken_of_ascending {candidates : List Nat} (hasc : candidates.Pairwise (· < ·))
    (hdeps : ∀ id ∈ candidates, ∀ dep ∈ d.of id, dep ∈ candidates ∧ dep < id) :
    taken d candidates = candidates := by
  have hnodup : candidates.Nodup := hasc.imp Nat.ne_of_lt
  have hscan : scan d candidates [] = candidates := by
    apply scan_eq_append
    case hids => exact hnodup
    case hdeps =>
      intro pre id post heq dep hdep
      have ⟨hmem, hlt⟩ := hdeps id (by simp [heq]) dep hdep
      rw [heq] at hmem hasc
      have ⟨_, hrest, hcross⟩ := List.pairwise_append.mp hasc
      rw [List.nil_append]
      rcases List.mem_append.mp hmem with hpre | hpost
      case inl => exact hpre
      case inr =>
        rcases List.mem_cons.mp hpost with rfl | hpost
        case inl => omega
        case inr =>
          have := (List.pairwise_cons.mp hrest).1 dep hpost
          omega
  have hagain : scan d candidates candidates = candidates := by
    have hold (ids : List Nat) (hids : ids ⊆ candidates) : scan d ids candidates = candidates := by
      induction ids with
      | nil => rfl
      | cons id ids ih =>
        have ⟨hid, hids⟩ := List.cons_subset.mp hids
        rw [scan, List.foldl_cons, take, if_pos hid]
        exact ih hids
    exact hold candidates (List.Subset.refl _)
  unfold taken
  cases hn : candidates.length with
  | zero => rw [List.length_eq_zero_iff.mp hn, scans]
  | succ n =>
    rw [scans, hscan, if_neg (by simp [hn])]
    cases n with
    | zero => rfl
    | succ n => rw [scans, hagain, if_pos rfl]

-- A graph whose nodes depend on earlier ones only is ordered, and stays as it is.
theorem order_of_ascending
    (hdeps : ∀ id ∈ g.instructionNodes, ∀ dep ∈ d.of id, dep ∈ g.instructionNodes ∧ dep < id) :
    g.order d = .ok g.instructionNodes := by
  have htaken := taken_of_ascending g.instructionNodes_pairwise hdeps
  simp only [order, htaken]
  exact if_pos (List.filter_eq_nil_iff.mpr fun id hid => by simp [hid])

end Offload.Graph
