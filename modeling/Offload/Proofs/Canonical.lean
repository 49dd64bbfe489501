import Mathlib.Data.List.Sort
import Offload.Proofs.Barrier
import Offload.Proofs.Spelled

/-!
The table of dependency lists has one form: each list is the set of slots of what some node takes, or of the
nodes that no other takes from, in ascending order and once only. Thus the operand of a node says what it takes,
and two nodes have the same operand if they take the same.
-/

namespace Offload

-- The slots of the instruction nodes with a property, ascending.
structure Graph.Slots (g : Graph) (P : Nat → Prop) (list : List Nat) : Prop where
  ascending : list.Pairwise (· < ·)
  mem_iff   : ∀ {slot}, slot ∈ list ↔ ∃ id, g.instructionNodes[slot]? = some id ∧ P id

namespace Graph.Slots

variable {g : Graph} {P Q : Nat → Prop} {list list' : List Nat} {d : Dependencies} {id slot : Nat}

theorem lt (h : g.Slots P list) (hslot : slot ∈ list) : slot < g.instructionNodes.length := by
  obtain ⟨_, hid, _⟩ := h.mem_iff.mp hslot
  exact (List.getElem?_eq_some_iff.mp hid).1

theorem congr (h : g.Slots P list) (hiff : ∀ id, P id ↔ Q id) : g.Slots Q list where
  ascending := h.ascending
  mem_iff   := by simp only [h.mem_iff, hiff, implies_true]

theorem iff_of_eq (h : g.Slots P list) (h' : g.Slots Q list) (hid : id ∈ g.instructionNodes) : P id ↔ Q id := by
  obtain ⟨slot, hslot⟩ := List.getElem?_of_mem hid
  have hP : slot ∈ list ↔ P id := by simp [h.mem_iff, hslot]
  have hQ : slot ∈ list ↔ Q id := by simp [h'.mem_iff, hslot]
  exact hP.symm.trans hQ

theorem eq_of_iff (h : g.Slots P list) (h' : g.Slots Q list') (hiff : ∀ id ∈ g.instructionNodes, P id ↔ Q id) :
    list = list' := by
  refine List.Pairwise.eq_of_mem_iff h.ascending h'.ascending fun slot => ?_
  rw [h.mem_iff, h'.mem_iff]
  exact exists_congr fun id => and_congr_right fun hid => hiff id (List.mem_of_getElem? hid)

theorem eq_nil_iff (h : g.Slots P list) : list = [] ↔ ∀ id ∈ g.instructionNodes, ¬P id := by
  constructor
  case mp =>
    rintro rfl id hid hP
    obtain ⟨slot, hslot⟩ := List.getElem?_of_mem hid
    exact List.not_mem_nil (h.mem_iff.mpr ⟨id, hslot, hP⟩)
  case mpr =>
    intro hnone
    refine List.eq_nil_iff_forall_not_mem.mpr fun slot hslot => ?_
    obtain ⟨id, hid, hP⟩ := h.mem_iff.mp hslot
    exact hnone id (List.mem_of_getElem? hid) hP

end Graph.Slots

section

open WaitLists (slots)

variable {g : Graph} {d : Graph.Dependencies} {nodes : List Nat} {id : Nat}

theorem Graph.idxOf?_instructionNodes {slot : Nat} :
    g.instructionNodes.idxOf? id = some slot ↔ g.instructionNodes[slot]? = some id := by
  rw [List.idxOf?_eq_some_iff, List.getElem?_eq_some_iff]
  constructor
  case mp => exact fun ⟨hlt, heq, _⟩ => ⟨hlt, heq⟩
  case mpr =>
    intro ⟨hlt, heq⟩
    refine ⟨hlt, heq, fun j hj hfirst => ?_⟩
    have hsame := (List.Nodup.getElem_inj_iff g.instructionNodes_nodup).mp (hfirst.trans heq.symm)
    omega

-- Nodes in ascending order have ascending slots.
theorem Graph.slots_of_ascending (hnodes : nodes.Pairwise (· < ·)) :
    g.Slots (· ∈ nodes) (slots g.instructionNodes nodes) where
  ascending := by
    refine List.Pairwise.filterMap _ (fun id id' hlt slot hslot slot' hslot' => ?_) hnodes
    obtain ⟨hbound, rfl⟩ := List.getElem?_eq_some_iff.mp (idxOf?_instructionNodes.mp hslot)
    obtain ⟨hbound', rfl⟩ := List.getElem?_eq_some_iff.mp (idxOf?_instructionNodes.mp hslot')
    by_contra hle
    rcases Nat.lt_or_eq_of_le (Nat.le_of_not_lt hle) with hlt' | rfl
    case inl =>
      have := List.pairwise_iff_getElem.mp g.instructionNodes_pairwise slot' slot hbound' hbound hlt'
      omega
    case inr => exact Nat.lt_irrefl _ hlt
  mem_iff := by
    simp only [slots, List.mem_filterMap, idxOf?_instructionNodes]
    exact fun {slot} => exists_congr fun id => and_comm

theorem Graph.Dependencies.of_pairwise (hd : g.dependencies = .ok d) (id : Nat) :
    (d.of id).Pairwise (· < ·) := by
  by_cases hid : id ∈ g.instructionNodes
  case neg => simp [of_eq_nil hd hid]
  case pos =>
    obtain ⟨kind, hkind, hi⟩ := mem_instructionNodes.mp hid
    obtain ⟨n, hn, rfl⟩ := Option.map_eq_some_iff.mp hkind
    have hof := nodeDependencies_of hd hn
    rw [nodeDependencies, if_pos hi] at hof
    obtain ⟨producers, _, hfilter⟩ := bind_eq_ok.mp hof
    rw [← Except.ok.inj hfilter]
    exact List.pairwise_lt_range.filter _

theorem Graph.slots_of (hd : g.dependencies = .ok d) (id : Nat) :
    g.Slots (g.Feeds · id) (slots g.instructionNodes (d.of id)) :=
  (slots_of_ascending (Dependencies.of_pairwise hd id)).congr fun _ => Dependencies.mem_of_iff hd

theorem Graph.slots_sinks (hd : g.dependencies = .ok d) :
    g.Slots g.IsSink (slots g.instructionNodes (g.sinks d)) :=
  (slots_of_ascending (g.instructionNodes_pairwise.filter _)).congr fun _ => mem_sinks_iff_isSink hd

-- The last node in order is one that no other takes from.
theorem Graph.Ordered.exists_isSink {order : List Nat} (h : g.Ordered d order) (hd : g.dependencies = .ok d)
    (hne : g.instructionNodes ≠ []) : ∃ id, g.IsSink id := by
  obtain ⟨id, hid⟩ := List.exists_mem_of_ne_nil _ hne
  rcases List.eq_nil_or_concat order with rfl | ⟨seen, last, rfl⟩
  case inl => exact absurd (h.mem_iff.mpr hid) List.not_mem_nil
  case inr =>
    rw [List.concat_eq_append] at h
    refine ⟨last, (mem_sinks_iff_isSink hd).mp (Dependencies.mem_sinks_iff.mpr ⟨h.mem_iff.mp (by simp), ?_⟩)⟩
    intro k hk
    have hmem : k ∈ g.instructionNodes := by
      by_contra hnot
      rw [Dependencies.of_eq_nil hd hnot] at hk
      cases hk
    exact h.not_dep rfl (h.mem_iff.mpr hmem) hk

end

namespace Compile

open WaitLists (slots)

-- A table without repetitions tells different needs apart.
theorem WaitsFor.eq_iff {lists : List (List Nat)} {needed needed' : List Nat} {wait wait' : Option Nat}
    (hnodup : lists.Nodup) (h : WaitsFor lists needed wait) (h' : WaitsFor lists needed' wait') :
    wait = wait' ↔ needed = needed' := by
  cases h with
  | nothing hnil =>
    cases h' with
    | nothing hnil' => simp [hnil, hnil']
    | list hne' _ => simp [hnil, Ne.symm hne']
  | list hne hplace =>
    cases h' with
    | nothing hnil' => simp [hnil', hne]
    | list hne' hplace' =>
      rw [Option.some_inj]
      constructor
      case mp =>
        rintro rfl
        exact Option.some.inj (hplace.symm.trans hplace')
      case mpr =>
        rintro rfl
        exact (List.getElem?_inj (List.getElem?_eq_some_iff.mp hplace).1 hnodup).mp (hplace.trans hplace'.symm)

section

variable {r : Registry} {c : Context} {g : Graph} {batch : Option Nat} {config : Config} {program : Program}
  {d : Graph.Dependencies} {l : Layout} {passes : List Pass} {m : Machine} {sites : List Site}
  {is : List Instruction} {q place id k : Nat}

-- Node `id` carries an operand if the instruction does that it becomes in some pass.
def Carries (m : Machine) (order : List Nat) (id : Nat) (wait : Option Nat) : Prop :=
  ∃ k i pass, m.instructions[k]? = some i ∧ m.site? order k = some ⟨pass, id⟩ ∧ i.wait? = wait

-- A program that ends with a barrier, which waits for the list at `place`.
def BarsAt (m : Machine) (place : Nat) : Prop :=
  [.barrier (some place), .finish] <:+ m.instructions

theorem isNode_of_site? {order : List Nat} {site : Site} (h : m.site? order k = some site) :
    ∃ i, m.instructions[k]? = some i ∧ i.opcode.isNode := by
  unfold Machine.site? at h
  obtain ⟨i, hi, h⟩ := Option.bind_eq_some_iff.mp h
  split at h
  case isFalse => cases h
  case isTrue hnode => exact ⟨i, hi, hnode⟩

-- What a node carries in any pass is the place of what it takes.
theorem Made.carries (hm : Made r c g batch q d l passes m) {wait : Option Nat} (h : Carries m l.order id wait) :
    id ∈ g.instructionNodes ∧ l.waits.lookup id = wait := by
  obtain ⟨k, i, pass, hi, hsite, hwait⟩ := h
  obtain ⟨j, hj, hnode⟩ := isNode_of_site? hsite
  cases hi.symm.trans hj
  obtain ⟨_, _, _, _, _, _, seen, post, _, hsite', _, _, horder, _, _, hissued⟩ := Machine.position_of_node hm hi hnode
  cases hsite.symm.trans hsite'
  exact ⟨hm.faithful.ordered.mem_iff.mp (by simp [horder]), hissued.wait?_eq.symm.trans hwait⟩

-- Each node is issued in each pass.
theorem Made.exists_site (hm : Made r c g batch q d l passes m) {pass : Nat} (hpass : pass < passes.length)
    (hid : id ∈ g.instructionNodes) : ∃ k, m.site? l.order k = some ⟨pass, id⟩ := by
  obtain ⟨nodes, blocks, his, hlaid⟩ := hm.instructions
  have hsite := Ledger.mem_sites.mpr (⟨hpass, hm.faithful.ordered.mem_iff.mpr hid⟩ :
    (⟨pass, id⟩ : Site).pass < passes.length ∧ (⟨pass, id⟩ : Site).node ∈ l.order)
  obtain ⟨done, rest, hsplit⟩ := List.append_of_mem hsite
  obtain ⟨_, seen, post, horder, rfl⟩ := sites_split hsplit
  obtain ⟨k, _, hk⟩ := Machine.exists_site his horder hlaid hsplit
  exact ⟨k, hk⟩

theorem Made.barsAt_iff (hm : Made r c g batch q d l passes m) : BarsAt m place ↔ l.ending = .barrier place := by
  obtain ⟨nodes, blocks, his, hlaid⟩ := hm.instructions
  have hsuffix : l.ending.instructions <:+ m.instructions := ⟨_ :: _ :: blocks, his.symm⟩
  constructor
  case mp =>
    intro hbars
    cases hending : l.ending with
    | barrier list =>
      rw [hending] at hsuffix
      have heq := (List.suffix_of_suffix_length_le hbars hsuffix (Nat.le_refl _)).eq_of_length rfl
      cases heq
      rfl
    | blockingStreamOut =>
      -- no block ends with a barrier
      obtain ⟨before, hbefore⟩ := hbars
      rw [his, hending, ← List.cons_append, ← List.cons_append, List.append_cons before] at hbefore
      obtain ⟨heq, -⟩ := List.append_inj' hbefore rfl
      have hmem : Instruction.barrier (some place) ∈ blocks := by
        have := heq ▸ List.mem_append_right before (List.mem_singleton_self (Instruction.barrier (some place)))
        simpa using this
      rcases hlaid.origin hmem with ⟨_, h⟩ | ⟨_, _, _, _, hissued⟩
      case inl => cases h
      case inr => cases hissued.isNode
  case mpr =>
    intro hending
    rw [hending] at hsuffix
    exact hsuffix

-- The lists of a program and the operands that name them say of the nodes what the graph does, and nothing else.
structure Canonical (g : Graph) (passes : Nat) (order : List Nat) (m : Machine) : Prop where
  begins    : ∃ tasks, m.instructions.head? = some (.begin g.instructionNodes.length tasks m.program.lists.length)
  ascending : ∀ list ∈ m.program.lists, list.Pairwise (· < ·)
  bounded   : ∀ list ∈ m.program.lists, ∀ slot ∈ list, slot < g.instructionNodes.length
  nodup     : m.program.lists.Nodup
  origin    : ∀ {place list}, m.program.lists[place]? = some list →
    list ≠ [] ∧ (∃ id ∈ g.instructionNodes, g.Slots (g.Feeds · id) list) ∨
      BarsAt m place ∧ g.Slots g.IsSink list
  empty     : [] ∈ m.program.lists ↔ g.instructionNodes = []
  kind      : ∀ {k i}, m.instructions[k]? = some i → i.opcode.isNode →
    ∃ site, m.site? order k = some site ∧ i.nodeKind? = g.kind? site.node
  issued    : ∀ {pass id}, pass < passes → id ∈ g.instructionNodes → ∃ k, m.site? order k = some ⟨pass, id⟩
  idle      : ∀ {id wait}, Carries m order id wait → (wait = none ↔ ∀ p, ¬g.Feeds p id)
  waits     : ∀ {id place}, Carries m order id (some place) →
    ∃ list, m.program.lists[place]? = some list ∧ g.Slots (g.Feeds · id) list
  same      : ∀ {id id' wait wait'}, Carries m order id wait → Carries m order id' wait' →
    (wait = wait' ↔ ∀ p, g.Feeds p id ↔ g.Feeds p id')
  bars      : ∀ {place}, BarsAt m place →
    (∃ list, m.program.lists[place]? = some list ∧ g.Slots g.IsSink list) ∧ ∀ id, ¬Carries m order id (some place)

-- What a table holds at a place is what a node needs, or what the barrier does.
theorem Made.list_cases (hm : Made r c g batch q d l passes m) (ht : Tabled g d l) {list : List Nat}
    (hlist : m.program.lists[place]? = some list) :
    (list ≠ [] ∧ ∃ id ∈ g.instructionNodes, list = slots g.instructionNodes (d.of id)) ∨
      BarsAt m place ∧ list = slots g.instructionNodes (g.sinks d) := by
  rw [hm.lists] at hlist
  rcases hm.faithful.used (List.getElem?_eq_some_iff.mp hlist).1 with ⟨id, hid⟩ | hending
  case inl =>
    have hmem := hm.faithful.ordered.mem_iff.mp (hm.faithful.listed hid).1
    have hwaits := ht.waits hmem
    rw [hid] at hwaits
    cases hwaits with
    | list hne hplace =>
      cases hlist.symm.trans hplace
      exact .inl ⟨hne, id, hmem, rfl⟩
  case inr => exact .inr ⟨hm.barsAt_iff.mpr hending, Option.some.inj (hlist.symm.trans (ht.barrier hending))⟩

theorem Made.nil_mem_iff (hm : Made r c g batch q d l passes m) (ht : Tabled g d l) :
    [] ∈ m.program.lists ↔ g.instructionNodes = [] := by
  have hordered := hm.faithful.ordered
  constructor
  case mp =>
    intro hnil
    by_contra hne
    obtain ⟨place, hplace⟩ := List.getElem?_of_mem hnil
    rcases hm.list_cases ht hplace with ⟨habsurd, _⟩ | ⟨_, hsinks⟩
    case inl => exact habsurd rfl
    case inr =>
      obtain ⟨id, hid⟩ := hordered.exists_isSink hm.dependencies hne
      exact (Graph.slots_sinks hm.dependencies).eq_nil_iff.mp hsinks.symm id hid.1 hid
  case mpr =>
    intro hnil
    have horder : l.order = [] :=
      List.eq_nil_iff_forall_not_mem.mpr fun id hid => by simpa [hnil] using hordered.mem_iff.mp hid
    cases hending : l.ending with
    | blockingStreamOut => simpa [horder] using hm.ending.mp hending
    | barrier place =>
      have hplace := ht.barrier hending
      rw [hnil, Graph.sinks, hnil] at hplace
      exact hm.lists ▸ List.mem_of_getElem? hplace

theorem canonical_of_made (hm : Made r c g batch q d l passes m) (ht : Tabled g d l)
    (hbegin : m.instructions.head? = some (.begin l.instructions.length c.tasks.length l.lists.lists.length)) :
    Canonical g passes.length l.order m := by
  have hd := hm.dependencies
  have hslots (list : List Nat) (hlist : list ∈ m.program.lists) : ∃ P, g.Slots P list := by
    obtain ⟨place, hplace⟩ := List.getElem?_of_mem hlist
    rcases hm.list_cases ht hplace with ⟨_, id, _, rfl⟩ | ⟨_, rfl⟩
    case inl => exact ⟨_, Graph.slots_of hd id⟩
    case inr => exact ⟨_, Graph.slots_sinks hd⟩
  have hfeeds {p id : Nat} (h : g.Feeds p id) : p ∈ g.instructionNodes :=
    Graph.Dependencies.of_subset hd id ((Graph.Dependencies.mem_of_iff hd).mpr h)
  have hneeds {id : Nat} {wait : Option Nat} (h : Carries m l.order id wait) :
      WaitsFor m.program.lists (slots g.instructionNodes (d.of id)) wait := by
    obtain ⟨hid, hwait⟩ := hm.carries h
    exact hm.lists ▸ hwait ▸ ht.waits hid
  have hnodup : m.program.lists.Nodup := hm.lists ▸ ht.nodup
  constructor
  case begins => exact ⟨c.tasks.length, by rw [hbegin, ht.instructions, hm.lists]⟩
  case ascending => exact fun list hlist => (hslots list hlist).elim fun _ h => h.ascending
  case bounded => exact fun list hlist slot => (hslots list hlist).elim fun _ h => h.lt
  case nodup => exact hnodup
  case origin =>
    intro place list hplace
    refine (hm.list_cases ht hplace).imp (And.imp_right ?_) (And.imp_right ?_)
    case refine_1 =>
      rintro ⟨id, hid, rfl⟩
      exact ⟨id, hid, Graph.slots_of hd id⟩
    case refine_2 =>
      rintro rfl
      exact Graph.slots_sinks hd
  case empty => exact hm.nil_mem_iff ht
  case kind =>
    intro k i hi hnode
    obtain ⟨site, _, _, _, _, _, _, _, _, hsite, _, _, _, _, _, hissued⟩ := Machine.position_of_node hm hi hnode
    exact ⟨site, hsite, hissued.nodeKind?_eq⟩
  case issued => exact hm.exists_site
  case idle =>
    intro id wait hcarries
    have hnone : (∀ p ∈ g.instructionNodes, ¬g.Feeds p id) ↔ ∀ p, ¬g.Feeds p id :=
      ⟨fun h p hp => h p (hfeeds hp) hp, fun h p _ => h p⟩
    rw [← hnone, ← (Graph.slots_of hd id).eq_nil_iff]
    exact (hneeds hcarries).eq_iff hnodup (.nothing rfl)
  case waits =>
    intro id place hcarries
    cases hneeds hcarries with
    | list _ hplace => exact ⟨_, hplace, Graph.slots_of hd id⟩
  case same =>
    intro id id' wait wait' hcarries hcarries'
    rw [(hneeds hcarries).eq_iff hnodup (hneeds hcarries')]
    constructor
    case mp =>
      intro heq p
      have h := Graph.slots_of hd id
      have h' := heq ▸ Graph.slots_of hd id'
      by_cases hp : p ∈ g.instructionNodes
      case pos => exact h.iff_of_eq h' hp
      case neg => exact iff_of_false (fun hfeed => hp (hfeeds hfeed)) fun hfeed => hp (hfeeds hfeed)
    case mpr => exact fun h => (Graph.slots_of hd id).eq_of_iff (Graph.slots_of hd id') fun p _ => h p
  case bars =>
    intro place hbars
    have hending := hm.barsAt_iff.mp hbars
    refine ⟨⟨_, hm.lists ▸ ht.barrier hending, Graph.slots_sinks hd⟩, fun id hcarries => ?_⟩
    exact (hm.faithful.final hending).2.1 id (hm.carries hcarries).2

theorem compile_canonical (h : compile r c g batch config = .ok program) :
    ∃ d order passes is, g.dependencies = .ok d ∧ g.order d = .ok order ∧ Pass.plan r c batch = .ok passes ∧
      passes ≠ [] ∧ program.code = is.flatMap Instruction.encoding ∧ (∀ js, program.decode = .ok js → js = is) ∧
      Canonical g passes.length order { program, instructions := is, config } := by
  obtain ⟨_, d, l, passes, is, hlayout, hcode, hdecode, hbegin, hmade⟩ := coded_of_compile h
  have hm := hmade { program, instructions := is, config } rfl rfl
  have ht := tabled_of_layout hlayout hm.dependencies
  exact ⟨d, l.order, passes, is, hm.dependencies, hm.order, hm.plan, (Pass.plan_inside hm.plan).1, hcode, hdecode,
    canonical_of_made hm ht hbegin⟩

end

-- A copy to the device that the work on it is done with twice, so that two nodes take the same.
def fanGraph : Graph where
  nodes := [⟨0, [], .context 0⟩, ⟨1, [0], .streamIn 0⟩, ⟨2, [0, 1], .task 0⟩, ⟨3, [0, 1], .task 0⟩]

-- The two share a list, and the barrier has the other one.
theorem fan_canonical : ∃ program, compile fillingRegistry fillingContext fanGraph (some 1) {} = .ok program ∧
    program.lists = [[0], [1, 2]] ∧
    ∃ d order passes is, fanGraph.dependencies = .ok d ∧ fanGraph.order d = .ok order ∧
      Pass.plan fillingRegistry fillingContext (some 1) = .ok passes ∧
      passes ≠ [] ∧ program.code = is.flatMap Instruction.encoding ∧ (∀ js, program.decode = .ok js → js = is) ∧
      Canonical fanGraph passes.length order { program, instructions := is, config := {} } := by
  have hlists : (compile fillingRegistry fillingContext fanGraph (some 1) {}).toOption.map Program.lists =
      some [[0], [1, 2]] := by decide +kernel
  cases h : compile fillingRegistry fillingContext fanGraph (some 1) {} with
  | error e =>
    rw [h] at hlists
    cases hlists
  | ok program =>
    rw [h] at hlists
    exact ⟨program, rfl, Option.some.inj hlists, compile_canonical h⟩

end Compile
end Offload
