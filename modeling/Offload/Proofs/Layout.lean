import Offload.Compile
import Offload.Proofs.Order
import Offload.Proofs.WaitLists

/-!
What the layout of a graph says of its nodes: which list each waits for, and which lists its event is
appended to. The list of the barrier is apart from all others.
-/

namespace Offload.Compile

-- The lists that the event of a node is appended to.
def Layout.appends (l : Layout) (id : Nat) : List Nat :=
  l.lists.containing ((l.instructions.idxOf? id).getD 0)

structure Faithful (g : Graph) (d : Graph.Dependencies) (l : Layout) : Prop where
  ordered  : g.Ordered d l.order
  unlisted : ∀ {id}, id ∈ l.order → l.waits.lookup id = none → d.of id = []
  listed   : ∀ {id list}, l.waits.lookup id = some list →
    id ∈ l.order ∧ list < l.lists.lists.length ∧ d.of id ≠ [] ∧
      ∀ {k}, k ∈ l.order → (list ∈ l.appends k ↔ k ∈ d.of id)
  final    : ∀ {list}, l.ending = .barrier list →
    list < l.lists.lists.length ∧ (∀ id, l.waits.lookup id ≠ some list) ∧
      ∀ {k}, k ∈ l.order → (list ∈ l.appends k ↔ k ∈ g.sinks d)
  used     : ∀ {list}, list < l.lists.lists.length →
    (∃ id, l.waits.lookup id = some list) ∨ l.ending = .barrier list

theorem mem_containing {w : WaitLists} {slot place : Nat} {list : List Nat}
    (h : w.lists[place]? = some list) : place ∈ w.containing slot ↔ slot ∈ list := by
  obtain ⟨hlt, rfl⟩ := List.getElem?_eq_some_iff.mp h
  simp [WaitLists.containing, List.getD_eq_getElem?_getD, hlt]

theorem nodup_appends (l : Layout) (id : Nat) : (l.appends id).Nodup :=
  List.nodup_range.filter _

theorem lt_of_mem_appends {l : Layout} {id list : Nat} (h : list ∈ l.appends id) :
    list < l.lists.lists.length :=
  List.mem_range.mp (List.mem_of_mem_filter h)

section

variable {g : Graph} {d : Graph.Dependencies} {order : List Nat} {waits : List (Nat × Nat)}
  {lists : WaitLists} {device : Nat} {l : Layout}

-- Nothing waits for the nodes that nothing depends on.
theorem slots_sinks_not_mem
    (h : WaitLists.Interned d g.instructionNodes g.instructionNodes {} waits lists) :
    WaitLists.slots g.instructionNodes (g.sinks d) ∉ lists.lists := by
  intro hmem
  obtain ⟨place, hplace, heq⟩ := List.getElem_of_mem hmem
  obtain ⟨id, hid⟩ := h.consumer (Nat.zero_le place) hplace
  have ⟨_, hne, hlist⟩ := h.some hid
  rw [List.getElem?_eq_getElem hplace, heq] at hlist
  have hslots := Option.some.inj hlist
  obtain ⟨slot, hslot⟩ := List.exists_mem_of_ne_nil _ hne
  obtain ⟨k, hk, hkslot⟩ := List.mem_filterMap.mp hslot
  have hsink : k ∈ g.sinks d := (WaitLists.mem_slots_iff hkslot).mp (hslots ▸ hslot)
  exact (Graph.Dependencies.mem_sinks_iff.mp hsink).2 id hk

theorem exists_layout (hd : g.dependencies = .ok d) (horder : g.order d = .ok order) (device : Nat) :
    ∃ l, layout g device = .ok l :=
  ⟨_, bind_eq_ok.mpr ⟨d, hd, bind_eq_ok.mpr ⟨order, horder, rfl⟩⟩⟩

theorem layout_ok (h : layout g device = .ok l) :
    ∃ d lists, g.dependencies = .ok d ∧ g.order d = .ok l.order ∧ l.device = device ∧
      l.instructions = g.instructionNodes ∧
      WaitLists.Interned d g.instructionNodes g.instructionNodes {} l.waits lists ∧
      (l.ending, l.lists) = ending g d l.order lists := by
  unfold layout at h
  obtain ⟨d, hd, h⟩ := bind_eq_ok.mp h
  obtain ⟨order, horder, h⟩ := bind_eq_ok.mp h
  cases h
  exact ⟨d, _, hd, horder, rfl, rfl,
    WaitLists.interned_internAll g.instructionNodes_nodup List.nodup_nil, rfl⟩

-- The ending is one of two, and in the second the table has one more list.
theorem ending_cases
    (h : WaitLists.Interned d g.instructionNodes g.instructionNodes {} waits lists)
    (hending : (l.ending, l.lists) = ending g d order lists) :
    (order.getLast?.any (isStreamOut g) ∧ l.ending = .blockingStreamOut ∧ l.lists = lists) ∨
      (¬order.getLast?.any (isStreamOut g) ∧ l.ending = .barrier lists.lists.length ∧
        l.lists = { lists := lists.lists ++ [WaitLists.slots g.instructionNodes (g.sinks d)] }) := by
  unfold ending at hending
  rw [WaitLists.intern_new (slots_sinks_not_mem h)] at hending
  split at hending
  case isTrue hlast =>
    have ⟨he, hl⟩ := Prod.mk.inj hending
    exact .inl ⟨hlast, he, hl⟩
  case isFalse hlast =>
    have ⟨he, hl⟩ := Prod.mk.inj hending
    exact .inr ⟨hlast, he, hl⟩

theorem mem_appends_iff (hl : l.instructions = g.instructionNodes) {k list : Nat} {nodes : List Nat}
    (hk : k ∈ g.instructionNodes)
    (hlist : l.lists.lists[list]? = some (WaitLists.slots g.instructionNodes nodes)) :
    list ∈ l.appends k ↔ k ∈ nodes := by
  obtain ⟨slot, hslot⟩ := WaitLists.exists_slot hk
  rw [Layout.appends, hl, hslot, mem_containing hlist]
  exact WaitLists.mem_slots_iff hslot

theorem faithful_of_layout (h : layout g device = .ok l) :
    ∃ d, g.dependencies = .ok d ∧ g.order d = .ok l.order ∧ l.device = device ∧ Faithful g d l ∧
      (l.ending = .blockingStreamOut ↔ l.order.getLast?.any (isStreamOut g)) := by
  obtain ⟨d, lists, hd, horder, hdevice, hinstructions, hinterned, hending⟩ := layout_ok h
  have hordered := Graph.ordered_of_order horder
  have hcases := ending_cases hinterned hending
  have hkept : lists.lists <+: l.lists.lists := by
    rcases hcases with ⟨_, _, hlists⟩ | ⟨_, _, hlists⟩
    case inl => exact hlists ▸ List.prefix_rfl
    case inr => exact hlists ▸ List.prefix_append _ _
  refine ⟨d, hd, horder, hdevice, ?_, ?_⟩
  case refine_2 =>
    rcases hcases with ⟨hlast, he, _⟩ | ⟨hlast, he, _⟩ <;> simp [hlast, he]
  constructor
  case ordered => exact hordered
  case unlisted =>
    intro id hid hnone
    have hslots := hinterned.none hnone (hordered.mem_iff.mp hid)
    exact (WaitLists.slots_eq_nil_iff (Graph.Dependencies.of_subset hd id)).mp hslots
  case listed =>
    intro id list hsome
    have ⟨hid, hne, hlist⟩ := hinterned.some hsome
    have hplace := WaitLists.getElem?_of_prefix hkept hlist
    refine ⟨hordered.mem_iff.mpr hid, (List.getElem?_eq_some_iff.mp hplace).1, ?_, ?_⟩
    case refine_1 =>
      intro hnil
      exact hne ((WaitLists.slots_eq_nil_iff (Graph.Dependencies.of_subset hd id)).mpr hnil)
    case refine_2 =>
      intro k hk
      exact mem_appends_iff hinstructions (hordered.mem_iff.mp hk) hplace
  case final =>
    intro list hlist
    rcases hcases with ⟨_, he, _⟩ | ⟨_, he, hlists⟩
    case inl =>
      rw [he] at hlist
      cases hlist
    case inr =>
      rw [he] at hlist
      cases hlist
      have hplace : l.lists.lists[lists.lists.length]? =
          some (WaitLists.slots g.instructionNodes (g.sinks d)) := by simp [hlists]
      refine ⟨(List.getElem?_eq_some_iff.mp hplace).1, ?_, ?_⟩
      case refine_1 =>
        intro id hid
        have ⟨_, _, hold⟩ := hinterned.some hid
        exact Nat.lt_irrefl _ (List.getElem?_eq_some_iff.mp hold).1
      case refine_2 =>
        intro k hk
        exact mem_appends_iff hinstructions (hordered.mem_iff.mp hk) hplace
  case used =>
    intro list hlt
    by_cases hold : list < lists.lists.length
    case pos => exact .inl (hinterned.consumer (Nat.zero_le _) hold)
    case neg =>
      rcases hcases with ⟨_, _, hlists⟩ | ⟨_, he, hlists⟩ <;> rw [hlists] at hlt
      case inl => exact absurd hlt hold
      case inr =>
        rw [List.length_append, List.length_singleton] at hlt
        have heq : list = lists.lists.length := by omega
        exact .inr (heq ▸ he)

-- A node waits for a list that the events of all its dependencies are appended to.
theorem Faithful.awaits (hf : Faithful g d l) (hd : g.dependencies = .ok d) {id dep : Nat}
    (hdep : dep ∈ d.of id) : ∃ list, l.waits.lookup id = some list ∧ list ∈ l.appends dep := by
  have hid : id ∈ l.order := by
    refine hf.ordered.mem_iff.mpr (Classical.byContradiction fun hnot => ?_)
    rw [Graph.Dependencies.of_eq_nil hd hnot] at hdep
    cases hdep
  cases hlist : l.waits.lookup id with
  | none =>
    rw [hf.unlisted hid hlist] at hdep
    cases hdep
  | some list =>
    obtain ⟨seen, post, horder⟩ := List.append_of_mem hid
    have hseen := hf.ordered.respects seen id post horder dep hdep
    exact ⟨list, rfl, ((hf.listed hlist).2.2.2 (by simp [horder, hseen])).mpr hdep⟩

end

end Offload.Compile
