import Mathlib.Data.Fintype.Pigeonhole
import Offload.Proofs.Dependencies

/-!
Where chains of data dependencies lead. A chain with more links than there are nodes passes some node twice and
goes round in a circle from there. Main statements: the search for a producer finds out what a chain comes to,
and the dependencies of a graph are found if all chains from the inputs of its instruction nodes end.
-/

namespace Offload

-- A traversal succeeds if every element of the list does.
theorem mapM_ok_iff {ε α β : Type} {f : α → Except ε β} {xs : List α} :
    (∃ ys, xs.mapM f = .ok ys) ↔ ∀ x ∈ xs, ∃ y, f x = .ok y := by
  induction xs with
  | nil => exact ⟨fun _ => nofun, fun _ => ⟨[], rfl⟩⟩
  | cons x xs ih =>
    rw [List.forall_mem_cons, ← ih, List.mapM_cons]
    constructor
    case mp =>
      intro ⟨_, h⟩
      obtain ⟨y, hx, h⟩ := bind_eq_ok.mp h
      obtain ⟨ys, hxs, _⟩ := bind_eq_ok.mp h
      exact ⟨⟨y, hx⟩, ys, hxs⟩
    case mpr =>
      intro ⟨⟨y, hx⟩, ys, hxs⟩
      exact ⟨y :: ys, bind_eq_ok.mpr ⟨y, hx, bind_eq_ok.mpr ⟨ys, hxs, rfl⟩⟩⟩

namespace Graph

variable {g : Graph} {links links' id k k' : Nat}

-- The chain of data dependencies from node `id` comes to a node of another kind.
inductive Arrives (g : Graph) : (id : Nat) → Prop
  | node {id : Nat} {kind : NodeKind} (h : g.kind? id = some kind)
    (hkind : ∀ producer, kind ≠ .dataDependency producer) : Arrives g id
  | link {id producer : Nat} (h : g.kind? id = some (.dataDependency producer))
    (harrives : Arrives g producer) : Arrives g id

-- Every input of an instruction node leads somewhere.
def Connected (g : Graph) : Prop :=
  ∀ id n, g.node? id = some n → n.kind.isInstruction → ∀ input ∈ n.inputs, g.Arrives input

theorem lt_size_of_kind? {kind : NodeKind} (h : g.kind? id = some kind) : id < g.size := by
  obtain ⟨n, hn, _⟩ := Option.map_eq_some_iff.mp h
  exact (List.getElem?_eq_some_iff.mp hn).1

-- After so many links the chain of data dependencies from node `id` is at `k`.
inductive Trail (g : Graph) : (links id k : Nat) → Prop
  | here (id : Nat) : Trail g 0 id id
  | link {links id producer k : Nat} (h : g.kind? id = some (.dataDependency producer))
    (htrail : Trail g links producer k) : Trail g (links + 1) id k

-- No chain goes on from `k`: it is no node, or one of another kind.
def Final (g : Graph) (k : Nat) : Prop :=
  ∀ producer, g.kind? k ≠ some (.dataDependency producer)

-- The chain from node `id` comes to a node that it comes back to.
def Loops (g : Graph) (id : Nat) : Prop :=
  ∃ links k more, g.Trail links id k ∧ g.Trail (more + 1) k k

-- What is said of the end of a chain.
def atEnd (g : Graph) (k : Nat) : Except Error (Option Nat) :=
  match g.kind? k with
  | none => .error (.config (.missingNode k))
  | some (.context _) => .ok none
  | some _ => .ok (some k)

theorem kind?_eq_none_iff : g.kind? k = none ↔ g.size ≤ k :=
  Option.map_eq_none_iff.trans List.getElem?_eq_none_iff

theorem final_of_size_le (h : g.size ≤ k) : g.Final k :=
  fun _ hkind => Nat.not_lt.mpr h (lt_size_of_kind? hkind)

namespace Trail

theorem unique (h : g.Trail links id k) (h' : g.Trail links id k') : k = k' := by
  induction h with
  | here =>
    cases h'
    rfl
  | link hkind _ ih =>
    cases h' with
    | link hkind' htrail' =>
      cases hkind.symm.trans hkind'
      exact ih htrail'

theorem end_unique (h : g.Trail links id k) (hfinal : g.Final k) (h' : g.Trail links' id k')
    (hfinal' : g.Final k') : k = k' := by
  induction h generalizing links' with
  | here =>
    cases h' with
    | here => rfl
    | link hkind _ => exact absurd hkind (hfinal _)
  | link hkind _ ih =>
    cases h' with
    | here => exact absurd hkind (hfinal' _)
    | link hkind' htrail' =>
      cases hkind.symm.trans hkind'
      exact ih hfinal htrail'

theorem split (h : g.Trail links id k) {first : Nat} (hle : first ≤ links) :
    ∃ j, g.Trail first id j ∧ g.Trail (links - first) j k := by
  induction h generalizing first with
  | here =>
    cases Nat.le_zero.mp hle
    exact ⟨_, .here _, .here _⟩
  | @link links id producer k hkind htrail ih =>
    cases first with
    | zero => exact ⟨id, .here id, .link hkind htrail⟩
    | succ first =>
      obtain ⟨j, hj, hrest⟩ := ih (Nat.le_of_succ_le_succ hle)
      exact ⟨j, .link hkind hj, by rwa [Nat.succ_sub_succ]⟩

theorem exists_link (h : g.Trail (links + 1) id k) : ∃ producer, g.kind? id = some (.dataDependency producer) := by
  cases h with
  | link hkind _ => exact ⟨_, hkind⟩

-- The search takes one step for each link.
theorem producerWithin_eq (h : g.Trail links id k) (fuel : Nat) :
    g.producerWithin (links + fuel) id = g.producerWithin fuel k := by
  induction h with
  | here => rw [Nat.zero_add]
  | link hkind _ ih =>
    rw [Nat.succ_add, producerWithin, hkind]
    exact ih

end Trail

theorem producerWithin_final (h : g.Final k) (fuel : Nat) : g.producerWithin (fuel + 1) k = g.atEnd k := by
  unfold producerWithin atEnd
  cases hkind : g.kind? k with
  | none => rfl
  | some kind =>
    cases kind with
    | dataDependency producer => exact absurd hkind (h producer)
    | _ => rfl

-- A chain goes on for any number of links, or it has ended before.
theorem trail_or_final (g : Graph) (links id : Nat) : (∃ k, g.Trail links id k) ∨
    ∃ fewer k, fewer < links ∧ g.Trail fewer id k ∧ g.Final k := by
  induction links generalizing id with
  | zero => exact .inl ⟨id, .here id⟩
  | succ links ih =>
    by_cases hfinal : g.Final id
    case pos => exact .inr ⟨0, id, Nat.succ_pos links, .here id, hfinal⟩
    case neg =>
      obtain ⟨producer, hkind⟩ := not_forall_not.mp hfinal
      rcases ih producer with ⟨k, htrail⟩ | ⟨fewer, k, hless, htrail, hend⟩
      case inl => exact .inl ⟨k, .link hkind htrail⟩
      case inr => exact .inr ⟨fewer + 1, k, Nat.succ_lt_succ hless, .link hkind htrail, hend⟩

-- Each node of a loop leads on, and to a loop again.
theorem Loops.next (h : g.Loops id) :
    ∃ producer, g.kind? id = some (.dataDependency producer) ∧ g.Loops producer := by
  obtain ⟨links, k, more, htrail, hback⟩ := h
  cases htrail with
  | here =>
    cases hback with
    | link hkind hrest => exact ⟨_, hkind, more, id, more, hrest, .link hkind hrest⟩
  | link hkind hrest => exact ⟨_, hkind, _, k, more, hrest, hback⟩

theorem Loops.not_final (h : g.Loops id) (htrail : g.Trail links id k) : ¬g.Final k := by
  induction htrail with
  | here =>
    obtain ⟨producer, hkind, _⟩ := h.next
    exact fun hfinal => hfinal producer hkind
  | link hkind _ ih =>
    obtain ⟨producer, hkind', hloops⟩ := h.next
    cases hkind.symm.trans hkind'
    exact ih hloops

-- A chain with more links than there are nodes passes some node twice.
theorem loops_of_trail (h : g.Trail (g.size + 1) id k) : g.Loops id := by
  have hpassed (links : Fin (g.size + 1)) : ∃ j : Fin g.size, g.Trail links id j := by
    obtain ⟨j, hj, hrest⟩ := h.split (Nat.le_of_lt links.isLt)
    rw [Nat.succ_sub (Nat.le_of_lt_succ links.isLt)] at hrest
    obtain ⟨_, hkind⟩ := hrest.exists_link
    exact ⟨⟨j, lt_size_of_kind? hkind⟩, hj⟩
  choose passed htrail using hpassed
  obtain ⟨i, j, hne, heq⟩ := Fintype.exists_ne_map_eq_of_card_lt passed (by simp)
  have hback {i j : Fin (g.size + 1)} (hlt : i < j) (heq : passed i = passed j) : g.Loops id := by
    obtain ⟨k, hfirst, hrest⟩ := (htrail j).split (Nat.le_of_lt hlt)
    cases hfirst.unique (htrail i)
    obtain ⟨more, hmore⟩ := Nat.exists_eq_add_of_lt hlt
    have hlinks : (j : Nat) - i = more + 1 := by omega
    rw [← heq, hlinks] at hrest
    exact ⟨i, passed i, more, htrail i, hrest⟩
  rcases Nat.lt_or_gt_of_ne (Fin.val_ne_of_ne hne) with hlt | hgt
  case inl => exact hback hlt heq
  case inr => exact hback hgt heq.symm

-- A search ends where the chain does, or the chain never ends and the search is given up.
theorem producer_cases (g : Graph) (id : Nat) :
    (∃ links k, g.Trail links id k ∧ g.Final k ∧ g.producer id = g.atEnd k) ∨
    ∃ k, g.Loops id ∧ g.Trail (g.size + 1) id k ∧ g.producer id = .error (.config (.endlessChain k)) := by
  rcases g.trail_or_final (g.size + 1) id with ⟨k, htrail⟩ | ⟨links, k, hless, htrail, hfinal⟩
  case inl =>
    exact .inr ⟨k, loops_of_trail htrail, htrail, htrail.producerWithin_eq 0⟩
  case inr =>
    obtain ⟨fuel, hfuel⟩ := Nat.exists_eq_add_of_lt hless
    refine .inl ⟨links, k, htrail, hfinal, ?_⟩
    rw [producer, hfuel, Nat.add_assoc, htrail.producerWithin_eq, producerWithin_final hfinal]

theorem producer_of_final (htrail : g.Trail links id k) (hfinal : g.Final k) : g.producer id = g.atEnd k := by
  rcases g.producer_cases id with ⟨links', k', htrail', hfinal', heq⟩ | ⟨_, hloops, _⟩
  case inl => rw [heq, htrail.end_unique hfinal htrail' hfinal']
  case inr => exact absurd hfinal (hloops.not_final htrail)

theorem final_of_kind {kind : NodeKind} (h : g.kind? k = some kind)
    (hkind : ∀ producer, kind ≠ .dataDependency producer) : g.Final k := by
  intro producer hlink
  exact hkind producer (Option.some.inj (h.symm.trans hlink))

theorem Trail.arrives (h : g.Trail links id k) (harrives : g.Arrives k) : g.Arrives id := by
  induction h with
  | here => exact harrives
  | link hkind _ ih => exact .link hkind (ih harrives)

theorem Arrives.exists_trail (h : g.Arrives id) : ∃ links k kind, g.Trail links id k ∧
    g.kind? k = some kind ∧ ∀ producer, kind ≠ .dataDependency producer := by
  induction h with
  | @node id kind hkind hother => exact ⟨0, id, kind, .here id, hkind, hother⟩
  | link hkind _ ih =>
    obtain ⟨links, k, kind, htrail, hend⟩ := ih
    exact ⟨links + 1, k, kind, .link hkind htrail, hend⟩

-- A chain has an end if and only if it is found.
theorem arrives_iff : g.Arrives id ↔ ∃ found, g.producer id = .ok found := by
  constructor
  case mp =>
    intro h
    obtain ⟨links, k, kind, htrail, hkind, hother⟩ := h.exists_trail
    rw [producer_of_final htrail (final_of_kind hkind hother), atEnd, hkind]
    cases kind with
    | dataDependency producer => exact absurd rfl (hother producer)
    | _ => exact ⟨_, rfl⟩
  case mpr =>
    intro ⟨found, hfound⟩
    rcases g.producer_cases id with ⟨links, k, htrail, hfinal, heq⟩ | ⟨k, _, _, heq⟩
    case inl =>
      rw [heq, atEnd] at hfound
      cases hkind : g.kind? k with
      | none =>
        rw [hkind] at hfound
        cases hfound
      | some kind => exact htrail.arrives (.node hkind fun producer hlink => hfinal producer (hlink ▸ hkind))
    case inr =>
      rw [heq] at hfound
      cases hfound

-- What a chain of data dependencies comes to: a context, an instruction node or a node that the graph does not
-- have; or it goes on from every node that it passes.
inductive Outcome (g : Graph) (id : Nat) : Except Error (Option Nat) → Prop
  | context {links k device : Nat} (htrail : g.Trail links id k) (hkind : g.kind? k = some (.context device)) :
    Outcome g id (.ok none)
  | instruction {links p : Nat} {kind : NodeKind} (htrail : g.Trail links id p) (hkind : g.kind? p = some kind)
    (hinstruction : kind.isInstruction) : Outcome g id (.ok (some p))
  | missing {links k : Nat} (htrail : g.Trail links id k) (hout : g.size ≤ k) :
    Outcome g id (.error (.config (.missingNode k)))
  | endless {k : Nat} (hon : ∀ links k, g.Trail links id k → ∃ producer, g.kind? k = some (.dataDependency producer))
    (htrail : g.Trail (g.size + 1) id k) : Outcome g id (.error (.config (.endlessChain k)))

theorem Trail.outcome (htrail : g.Trail links id k) (hfinal : g.Final k) : g.Outcome id (g.atEnd k) := by
  unfold atEnd
  cases hkind : g.kind? k with
  | none => exact .missing htrail (kind?_eq_none_iff.mp hkind)
  | some kind =>
    cases kind with
    | context device => exact .context htrail hkind
    | dataDependency producer => exact absurd hkind (hfinal producer)
    | _ => exact .instruction htrail hkind rfl

theorem producer_outcome (g : Graph) (id : Nat) : g.Outcome id (g.producer id) := by
  rcases g.producer_cases id with ⟨links, k, htrail, hfinal, heq⟩ | ⟨k, hloops, htrail, heq⟩
  case inl => exact heq ▸ htrail.outcome hfinal
  case inr => exact heq ▸ .endless (fun _ _ h => not_forall_not.mp (hloops.not_final h)) htrail

theorem Outcome.producer_eq {result : Except Error (Option Nat)} (h : g.Outcome id result) :
    g.producer id = result := by
  cases h with
  | context htrail hkind =>
    rw [producer_of_final htrail (final_of_kind hkind nofun), atEnd, hkind]
  | @instruction _ _ kind htrail hkind hinstruction =>
    cases kind with
    | context _ | dataDependency _ => cases hinstruction
    | _ => rw [producer_of_final htrail (final_of_kind hkind nofun), atEnd, hkind]
  | missing htrail hout =>
    rw [producer_of_final htrail (final_of_size_le hout), atEnd, kind?_eq_none_iff.mpr hout]
  | endless hon htrail =>
    rcases g.producer_cases id with ⟨links, k, hends, hfinal, _⟩ | ⟨k', _, htrail', heq⟩
    case inl =>
      obtain ⟨producer, hkind⟩ := hon _ _ hends
      exact absurd hkind (hfinal producer)
    case inr => rw [heq, htrail.unique htrail']

-- The search for a producer finds out exactly what the chain comes to, however long it is, and it is given up if
-- and only if the chain goes round in a circle.
theorem producer_exact (g : Graph) (id : Nat) :
    (∀ result, g.producer id = result ↔ g.Outcome id result) ∧
    ((∃ k, g.producer id = .error (.config (.endlessChain k))) ↔ g.Loops id) := by
  refine ⟨fun result => ⟨fun h => h ▸ g.producer_outcome id, Outcome.producer_eq⟩, fun ⟨k, hendless⟩ => ?_,
    fun hloops => ?_⟩
  case refine_1 =>
    cases hendless ▸ g.producer_outcome id with
    | endless _ htrail => exact loops_of_trail htrail
  case refine_2 =>
    rcases g.producer_cases id with ⟨_, _, htrail, hfinal, _⟩ | ⟨k, _, _, heq⟩
    case inl => exact absurd hfinal (hloops.not_final htrail)
    case inr => exact ⟨k, heq⟩

-- A chain may pass all nodes of a graph before it comes to one that is not there.
example :
    let g := (({} : Graph).push (.dataDependency 1) []).push (.dataDependency 2) []
    g.producer 0 = .error (.config (.missingNode 2)) := by
  rfl

theorem nodeDependencies_ok_iff {n : Node} : (∃ ids, g.nodeDependencies n = .ok ids) ↔
    (n.kind.isInstruction → ∀ input ∈ n.inputs, g.Arrives input) := by
  unfold nodeDependencies
  by_cases hkind : n.kind.isInstruction
  case neg => simp [hkind, pure, Except.pure]
  case pos =>
    simp only [hkind, if_true, true_imp_iff, arrives_iff, ← mapM_ok_iff]
    constructor
    case mp =>
      intro ⟨_, h⟩
      obtain ⟨producers, hproducers, _⟩ := bind_eq_ok.mp h
      exact ⟨producers, hproducers⟩
    case mpr => exact fun ⟨producers, hproducers⟩ => ⟨_, bind_eq_ok.mpr ⟨producers, hproducers, rfl⟩⟩

-- The analysis succeeds if and only if all inputs of instruction nodes lead somewhere.
theorem dependencies_ok_iff : (∃ d, g.dependencies = .ok d) ↔ g.Connected := by
  have hlists : (∃ d, g.dependencies = .ok d) ↔ ∃ lists, g.nodes.mapM g.nodeDependencies = .ok lists := by
    constructor
    case mp =>
      intro ⟨_, h⟩
      obtain ⟨lists, hlists, _⟩ := bind_eq_ok.mp h
      exact ⟨lists, hlists⟩
    case mpr => exact fun ⟨lists, hlists⟩ => ⟨_, bind_eq_ok.mpr ⟨lists, hlists, rfl⟩⟩
  rw [hlists, mapM_ok_iff]
  constructor
  case mp => exact fun h id n hn => nodeDependencies_ok_iff.mp (h n (List.mem_of_getElem? hn))
  case mpr =>
    intro h n hn
    obtain ⟨id, hid⟩ := List.getElem?_of_mem hn
    exact nodeDependencies_ok_iff.mpr (h id n hid)

end Graph
end Offload
