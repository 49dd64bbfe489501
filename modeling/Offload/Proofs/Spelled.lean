import Offload.Proofs.Passes
import Offload.Proofs.Readback
import Offload.Proofs.Shape

/-!
What the program of a graph decodes to: BEGIN and CONTEXT, the instructions of all nodes pass by pass,
each with the appends of its event, and an ending that makes the results known to the host.
-/

namespace Offload

-- The number that a kind of node carries.
def NodeKind.number (k : NodeKind) : Nat :=
  k.parts.2.2

namespace Compile

open Instruction (Inner InWords encoding)

-- The numbers in a graph and in the tables that it is compiled against are words.
structure Native (r : Registry) (c : Context) (g : Graph) : Prop where
  size    : g.size < wordLimit
  numbers : ∀ n ∈ g.nodes, n.kind.number < wordLimit
  tasks   : c.tasks.length < wordLimit
  objects : ∀ b ∈ c.bindings, r.byteLength b.object.handle < wordLimit

-- The list of a table that holds what a node needs, if it needs anything.
inductive WaitsFor (lists : List (List Nat)) (needed : List Nat) : Option Nat → Prop
  | nothing (h : needed = []) : WaitsFor lists needed none
  | list {place : Nat} (h : needed ≠ []) (hplace : lists[place]? = some needed) :
    WaitsFor lists needed (some place)

-- The instruction of node `id` in a pass.
inductive NodeInstruction (g : Graph) (device : Nat) (pass : Pass) (id : Nat) (wait : Option Nat) :
    Instruction → Prop
  | launch {task : Nat} (h : g.kind? id = some (.task task)) :
    NodeInstruction g device pass id wait (.launch task device wait pass.offset pass.threads)
  | streamIn {object : Nat} (h : g.kind? id = some (.streamIn object)) :
    NodeInstruction g device pass id wait (.streamIn object pass.offset pass.length wait)
  | streamOut {object : Nat} (h : g.kind? id = some (.streamOut object)) :
    NodeInstruction g device pass id wait (.streamOut object pass.offset pass.length wait)

-- What a node becomes in a pass: its instruction, and one append to each list that holds its slot.
def NodeBlock (g : Graph) (d : Graph.Dependencies) (lists : List (List Nat)) (device : Nat) (pass : Pass)
    (id : Nat) (block : List Instruction) : Prop :=
  ∃ (i : Instruction) (wait : Option Nat) (slot : Nat) (places : List Nat),
    block = i :: places.map .addDep ∧ NodeInstruction g device pass id wait i ∧
    WaitsFor lists (WaitLists.slots g.instructionNodes (d.of id)) wait ∧
    g.instructionNodes[slot]? = some id ∧ places.Pairwise (· < ·) ∧
    ∀ place, place ∈ places ↔ ∃ list, lists[place]? = some list ∧ slot ∈ list

-- How a program goes on to its end from the blocks of its nodes: the last stream-out blocks, or a
-- barrier waits for the nodes that nothing depends on.
inductive Closing (g : Graph) (d : Graph.Dependencies) (order : List Nat) (lists : List (List Nat)) :
    (blocks is : List Instruction) → Prop
  | blocking {before : List Instruction} {object offset length : Nat} {wait : Option Nat}
    (hlast : order.getLast?.any (isStreamOut g)) :
    Closing g d order lists (before ++ [.streamOut object offset length wait])
      (before ++ [.streamOutBlocking object offset length wait, .finish])
  | barrier {blocks : List Instruction} {place : Nat} (hlast : ¬order.getLast?.any (isStreamOut g))
    (hplace : lists[place]? = some (WaitLists.slots g.instructionNodes (g.sinks d))) :
    Closing g d order lists blocks (blocks ++ [.barrier (some place), .finish])

-- The instructions of a program that was compiled from a graph.
def Spells (r : Registry) (c : Context) (g : Graph) (batch : Option Nat) (lists : List (List Nat))
    (is : List Instruction) : Prop :=
  ∃ device d order passes blocks rest, Compile.device g = .ok device ∧ g.dependencies = .ok d ∧
    g.order d = .ok order ∧ Pass.plan r c batch = .ok passes ∧ lists.Nodup ∧
    List.Forall₂ (fun pass nodes =>
      List.Forall₂ (NodeBlock g d lists device pass) order nodes) passes blocks ∧
    (∀ nodes ∈ blocks, nodes.flatten.countP (·.opcode.isNode) = g.instructionNodes.length) ∧
    Closing g d order lists blocks.flatten.flatten rest ∧
    is = .begin g.instructionNodes.length c.tasks.length lists.length :: .context device :: rest

section

variable {r : Registry} {c : Context} {g : Graph} {d : Graph.Dependencies} {l : Layout}
  {lists : WaitLists} {device id : Nat} {pass : Pass} {i : Instruction}

-- The table of a layout: what was interned for the nodes, and what the barrier needs besides.
structure Tabled (g : Graph) (d : Graph.Dependencies) (l : Layout) : Prop where
  nodup        : l.lists.lists.Nodup
  instructions : l.instructions = g.instructionNodes
  waits        : ∀ {id}, id ∈ g.instructionNodes → WaitsFor l.lists.lists
    (WaitLists.slots g.instructionNodes (d.of id)) (l.waits.lookup id)
  barrier      : ∀ {place}, l.ending = .barrier place →
    l.lists.lists[place]? = some (WaitLists.slots g.instructionNodes (g.sinks d))

theorem tabled_of_layout (h : layout g device = .ok l) (hd : g.dependencies = .ok d) :
    Tabled g d l := by
  obtain ⟨d', lists, hd', _, _, hinstructions, hinterned, hending⟩ := layout_ok h
  cases hd.symm.trans hd'
  have hcases := ending_cases hinterned hending
  have hkept : lists.lists <+: l.lists.lists := by
    rcases hcases with ⟨_, _, hlists⟩ | ⟨_, _, hlists⟩
    case inl => exact hlists ▸ List.prefix_rfl
    case inr => exact hlists ▸ List.prefix_append _ _
  constructor
  case nodup =>
    rcases hcases with ⟨_, _, hlists⟩ | ⟨_, _, hlists⟩ <;> rw [hlists]
    case inl => exact hinterned.nodup
    case inr =>
      have hnew := slots_sinks_not_mem hinterned
      have hdisjoint : ∀ list ∈ lists.lists,
          list ≠ WaitLists.slots g.instructionNodes (g.sinks d) := fun list hlist heq => hnew (heq ▸ hlist)
      simpa [List.nodup_append, hinterned.nodup] using hdisjoint
  case instructions => exact hinstructions
  case waits =>
    intro id hid
    cases hwait : l.waits.lookup id with
    | none => exact .nothing (hinterned.none hwait hid)
    | some place =>
      have ⟨_, hne, hplace⟩ := hinterned.some hwait
      exact .list hne (WaitLists.getElem?_of_prefix hkept hplace)
  case barrier =>
    intro place hplace
    rcases hcases with ⟨_, he, _⟩ | ⟨_, he, hlists⟩ <;> rw [he] at hplace <;> cases hplace
    simp [hlists]

theorem nodeInstruction_of (h : nodeInstruction? g l pass id = some i) :
    NodeInstruction g l.device pass id (l.waits.lookup id) i := by
  unfold nodeInstruction? at h
  split at h <;> cases h
  case h_1 hkind => exact .launch hkind
  case h_2 hkind => exact .streamIn hkind
  case h_3 hkind => exact .streamOut hkind

theorem nodeBlock_block (ht : Tabled g d l) (hid : id ∈ g.instructionNodes) (pass : Pass) :
    NodeBlock g d l.lists.lists l.device pass id (nodeBlock g l pass id) ∧
      (nodeBlock g l pass id).countP (·.opcode.isNode) = 1 := by
  obtain ⟨i, hi⟩ := exists_nodeInstruction (l := l) hid pass
  obtain ⟨slot, hslot⟩ := WaitLists.exists_slot hid
  have hnode := nodeInstruction_of hi
  have hblock : nodeBlock g l pass id = i :: (l.lists.containing slot).map .addDep := by
    simp [nodeBlock, hi, ht.instructions, hslot]
  rw [hblock]
  constructor
  case left =>
    refine ⟨i, _, slot, _, rfl, hnode, ht.waits hid, ?_, ?_, fun place => ?_⟩
    case refine_1 =>
      obtain ⟨hlt, heq, _⟩ := List.findIdx?_eq_some_iff_getElem.mp hslot
      simpa [List.getElem?_eq_getElem hlt] using heq
    case refine_2 => exact List.pairwise_lt_range.filter _
    case refine_3 =>
      constructor
      case mp =>
        intro hmem
        have hlt := List.mem_range.mp (List.mem_of_mem_filter hmem)
        have hplace := List.getElem?_eq_getElem hlt
        exact ⟨_, hplace, (mem_containing hplace).mp hmem⟩
      case mpr =>
        rintro ⟨list, hplace, hmem⟩
        exact (mem_containing hplace).mpr hmem
  case right =>
    have happends : ((l.lists.containing slot).map Instruction.addDep).countP (·.opcode.isNode) = 0 := by
      simp [List.countP_eq_zero, Instruction.opcode, Opcode.isNode]
    rw [List.countP_cons, happends]
    cases hnode <;> rfl

-- Pass after pass, the blocks of all nodes in their order.
def blocks (g : Graph) (l : Layout) (passes : List Pass) : List (List (List Instruction)) :=
  passes.map fun p => l.order.map (nodeBlock g l p)

theorem flatten_blocks (g : Graph) (l : Layout) (passes : List Pass) :
    (blocks g l passes).flatten.flatten = passes.flatMap (passBlock g l) := by
  induction passes with
  | nil => rfl
  | cons p passes ih =>
    rw [blocks, List.map_cons, List.flatten_cons, List.flatten_append, List.flatMap_cons, ← ih]
    rfl

theorem forall₂_blocks (ht : Tabled g d l) (horder : l.order ⊆ g.instructionNodes) (passes : List Pass) :
    List.Forall₂ (fun p nodes =>
      List.Forall₂ (NodeBlock g d l.lists.lists l.device p) l.order nodes) passes (blocks g l passes) := by
  rw [blocks, List.forall₂_map_right_iff, List.forall₂_same]
  intro p _
  rw [List.forall₂_map_right_iff, List.forall₂_same]
  exact fun id hid => (nodeBlock_block ht (horder hid) p).1

theorem countP_blocks (ht : Tabled g d l) (hordered : g.Ordered d l.order) {passes : List Pass}
    {nodes : List (List Instruction)} (hnodes : nodes ∈ blocks g l passes) :
    nodes.flatten.countP (·.opcode.isNode) = g.instructionNodes.length := by
  obtain ⟨p, _, rfl⟩ := List.mem_map.mp hnodes
  have hone : ∀ id ∈ l.order, (nodeBlock g l p id).countP (·.opcode.isNode) = 1 := fun id hid =>
    (nodeBlock_block ht (hordered.mem_iff.mp hid) p).2
  have hcount : (l.order.map (nodeBlock g l p)).flatten.countP (·.opcode.isNode) = l.order.length := by
    have hmap : l.order.map (List.countP (·.opcode.isNode) ∘ nodeBlock g l p) =
        l.order.map fun _ => 1 := List.map_congr_left hone
    rw [List.countP_flatten, List.map_map, hmap]
    simp
  rw [hcount]
  exact ((List.perm_ext_iff_of_nodup hordered.nodup g.instructionNodes_nodup).mpr fun _ =>
    hordered.mem_iff).length_eq

-- What a decoder asks of an instruction of the blocks, besides that it was encoded.
structure Sober (lists : Nat) (i : Instruction) : Prop where
  words    : i.InWords
  begins   : i.opcode ≠ .begin
  finishes : i.opcode ≠ .finish
  list     : ∀ list, i.list? = some list → list < lists

theorem Sober.blocking {lists : Nat} (h : Sober lists i) : Sober lists i.blocking := by
  cases i <;> first | exact h | exact ⟨h.words, nofun, nofun, h.list⟩

theorem number_lt (hn : Native r c g) {kind : NodeKind} (h : g.kind? id = some kind) :
    kind.number < wordLimit := by
  obtain ⟨n, hnode, rfl⟩ := Option.map_eq_some_iff.mp h
  exact hn.numbers n (List.mem_of_getElem? hnode)

theorem WaitsFor.lt {lists : List (List Nat)} {needed : List Nat} {wait : Option Nat}
    (h : WaitsFor lists needed wait) {place : Nat} (hplace : wait = some place) : place < lists.length := by
  cases h with
  | nothing => cases hplace
  | list _ hget =>
    cases hplace
    exact (List.getElem?_eq_some_iff.mp hget).1

theorem NodeInstruction.sober {wait : Option Nat} (h : NodeInstruction g device pass id wait i)
    (hn : Native r c g) (hdevice : device < wordLimit) (hpass : pass.InWords) {lists : Nat}
    (hwait : ∀ place, wait = some place → place < lists) : Sober lists i := by
  obtain ⟨hoffset, hlength, hthreads⟩ := hpass
  cases h with
  | launch hkind | streamIn hkind | streamOut hkind =>
    have hnumber := number_lt hn hkind
    refine ⟨?_, by simp [Instruction.opcode], by simp [Instruction.opcode], fun list hlist => hwait list hlist⟩
    simp_all [InWords, Instruction.operands, Operand.InWord, NodeKind.number, NodeKind.parts]

theorem nodeBlock_sober (ht : Tabled g d l) (hid : id ∈ g.instructionNodes) (hn : Native r c g)
    (hdevice : l.device < wordLimit) (hpass : pass.InWords)
    (hlists : l.lists.lists.length < wordLimit) :
    ∀ i ∈ nodeBlock g l pass id, Sober l.lists.lists.length i := by
  obtain ⟨⟨i, wait, slot, places, hblock, hnode, hwait, _, _, hplaces⟩, _⟩ :=
    nodeBlock_block ht hid pass
  rw [hblock, List.forall_mem_cons]
  refine ⟨hnode.sober hn hdevice hpass fun _ => hwait.lt, fun j hj => ?_⟩
  obtain ⟨place, hmem, rfl⟩ := List.mem_map.mp hj
  obtain ⟨list, hget, _⟩ := (hplaces place).mp hmem
  have hlt := (List.getElem?_eq_some_iff.mp hget).1
  refine ⟨?_, nofun, nofun, fun list hlist => ?_⟩
  case refine_1 =>
    simp [InWords, Instruction.operands, Operand.InWord]
    omega
  case refine_2 => cases hlist; exact hlt

theorem device_ok (h : Compile.device g = .ok device) :
    ∃ id, g.contexts = [id] ∧ g.kind? id = some (.context device) := by
  unfold Compile.device at h
  split at h
  case h_1 => cases h
  case h_3 => cases h
  case h_2 id hcontexts =>
    split at h
    case h_2 => cases h
    case h_1 index hkind =>
      cases h
      exact ⟨id, hcontexts, hkind⟩

-- A list that is waited for has an index that a wait operand can hold.
theorem wait_lt {place : Nat} (h : i.Encodable) (hwait : i.wait? = some place) : place < Operand.waitLimit := by
  have hoperand : ∀ operands : List Operand, (Operand.encodeAll operands).2 = none →
      .wait (some place) ∈ operands → place < Operand.waitLimit := by
    intro operands
    induction operands with
    | nil => exact fun _ hmem => nomatch hmem
    | cons operand operands ih =>
      intro hnone hmem
      unfold Operand.encodeAll at hnone
      split at hnone
      case h_1 => cases hnone
      case h_2 bytes hbytes =>
        rcases List.mem_cons.mp hmem with rfl | hmem
        case inr => exact ih hnone hmem
        case inl =>
          simp only [Operand.encode] at hbytes
          split at hbytes
          case isTrue hlt => exact hlt
          case isFalse => cases hbytes
  apply hoperand i.operands (Instruction.encodable_iff.mp h)
  cases i <;> cases hwait <;> simp [Instruction.operands]

-- Every list of the table is waited for by an instruction that was encoded.
theorem table_small {passes : List Pass} {is : List Instruction} {tasks : Nat} (hf : Faithful g d l)
    (hpasses : passes ≠ [])
    (hbody : ∀ i ∈ body g l tasks passes, ∃ j ∈ is, j = i ∨ j = i.blocking)
    (hencodable : ∀ i ∈ is ++ l.ending.instructions, i.Encodable) :
    l.lists.lists.length < wordLimit := by
  cases hlength : l.lists.lists.length with
  | zero => decide
  | succ place =>
    have hlimit : Operand.waitLimit < wordLimit := by decide
    suffices hplace : place < Operand.waitLimit by omega
    rcases hf.used (show place < l.lists.lists.length by omega) with ⟨id, hid⟩ | hending
    case inr =>
      have hmem : Instruction.barrier (some place) ∈ is ++ l.ending.instructions := by
        simp [hending, Ending.instructions]
      exact wait_lt (hencodable _ hmem) rfl
    case inl =>
      obtain ⟨p, hp⟩ := List.exists_mem_of_ne_nil passes hpasses
      have horder := (hf.listed hid).1
      obtain ⟨i, hi⟩ := exists_nodeInstruction (l := l) (hf.ordered.mem_iff.mp horder) p
      have hwait : i.wait? = some place := by
        cases nodeInstruction_of hi <;> exact hid
      have hmem : i ∈ body g l tasks passes := by
        refine List.mem_cons_of_mem _ (List.mem_cons_of_mem _ (List.mem_flatMap.mpr ⟨p, hp, ?_⟩))
        exact List.mem_flatMap.mpr ⟨id, horder, by simp [nodeBlock, hi]⟩
      obtain ⟨j, hj, rfl | rfl⟩ := hbody i hmem
      case inl => exact wait_lt (hencodable _ (List.mem_append_left _ hj)) hwait
      case inr =>
        refine wait_lt (hencodable _ (List.mem_append_left _ hj)) ?_
        cases i <;> exact hwait

-- An assembly of BEGIN, what decodes to itself, and END is a program that decodes to them.
theorem decode_of_holds {a : Assembly} {slots tasks : Nat} {is : List Instruction}
    {lists : List (List Nat)} (hholds : a.Holds (.begin slots tasks lists.length :: (is ++ [.finish])))
    (hslots : slots < wordLimit) (htasks : tasks < wordLimit) (hlists : lists.length < wordLimit)
    (hsober : ∀ i ∈ is, Sober lists.length i) :
    (a.program lists).decode = .ok (.begin slots tasks lists.length :: (is ++ [.finish])) := by
  refine Program.decode_inner (p := a.program lists) ?_ (fun i hi => ?_) hholds.code
  case refine_1 => simp [InWords, Instruction.operands, Operand.InWord, Assembly.program, hslots, htasks, hlists]
  case refine_2 =>
    obtain ⟨hwords, hbegins, hfinishes, hlist⟩ := hsober i hi
    exact ⟨hholds.encodable i (by simp [hi]), hwords, hbegins, hfinishes, hlist⟩

theorem create_of_decode {program : Program} {config : Config} {slots tasks : Nat}
    {is : List Instruction} (hvalid : config.validate = .ok ⟨⟩)
    (h : program.decode = .ok (.begin slots tasks program.lists.length :: is)) :
    Machine.create program config =
      .ok { program, instructions := .begin slots tasks program.lists.length :: is, config } := by
  unfold Machine.create
  rw [hvalid, h]
  simp [bind, Except.bind, pure, Except.pure]

-- What stands between BEGIN and END: CONTEXT, the blocks, and the barrier if the end is one.
theorem middle_of_assembled {passes : List Pass} {is : List Instruction} {tasks : Nat}
    (ht : Tabled g d l)
    (hending : l.ending = .blockingStreamOut ↔ l.order.getLast?.any (isStreamOut g))
    (his : (l.ending ≠ .blockingStreamOut ∧ is = body g l tasks passes) ∨
      l.ending = .blockingStreamOut ∧ ∃ init i, body g l tasks passes = init ++ [i] ∧
        i.opcode = .streamOut ∧ is = init ++ [i.blocking]) :
    ∃ middle, is ++ l.ending.instructions =
        .begin l.instructions.length tasks l.lists.lists.length :: .context l.device ::
          (middle ++ [.finish]) ∧
      Closing g d l.order l.lists.lists (passes.flatMap (passBlock g l)) (middle ++ [.finish]) ∧
      ∀ j ∈ middle, (∃ i ∈ passes.flatMap (passBlock g l), j = i ∨ j = i.blocking) ∨
        ∃ place < l.lists.lists.length, j = .barrier (some place) := by
  rcases his with ⟨hbarrier, rfl⟩ | ⟨hblocks, init, i, hinit, hi, rfl⟩
  case inl =>
    obtain ⟨place, hplace⟩ : ∃ place, l.ending = .barrier place := by
      cases he : l.ending with
      | blockingStreamOut => exact absurd he hbarrier
      | barrier place => exact ⟨place, rfl⟩
    have hlast : ¬l.order.getLast?.any (isStreamOut g) := fun hlast => hbarrier (hending.mpr hlast)
    have hget := ht.barrier hplace
    refine ⟨passes.flatMap (passBlock g l) ++ [.barrier (some place)], ?_, ?_, fun j hj => ?_⟩
    case refine_1 => simp [body, hplace, Ending.instructions]
    case refine_2 =>
      rw [List.append_assoc]
      exact .barrier hlast hget
    case refine_3 =>
      rcases List.mem_append.mp hj with hj | hj
      case inl => exact .inl ⟨j, hj, .inl rfl⟩
      case inr =>
        exact .inr ⟨place, (List.getElem?_eq_some_iff.mp hget).1, List.mem_singleton.mp hj⟩
  case inr =>
    have hlast : l.order.getLast?.any (isStreamOut g) := hending.mp hblocks
    rcases List.eq_nil_or_concat (passes.flatMap (passBlock g l)) with hnil | ⟨before, last, hblock⟩
    case inl =>
      -- without a block the last instruction would be CONTEXT
      rw [body, hnil, ← List.singleton_append] at hinit
      obtain ⟨_, hcontext⟩ := List.append_inj' hinit rfl
      cases List.singleton_inj.mp hcontext
      cases hi
    case inr =>
      rw [List.concat_eq_append] at hblock
      rw [body, hblock, ← List.cons_append, ← List.cons_append] at hinit
      obtain ⟨hbefore, hlast'⟩ := List.append_inj' hinit rfl
      cases List.singleton_inj.mp hlast'
      subst hbefore
      rw [hblock]
      refine ⟨before ++ [i.blocking], ?_, ?_, fun j hj => ?_⟩
      case refine_1 => simp [hblocks, Ending.instructions]
      case refine_2 =>
        cases i <;> cases hi
        rw [List.append_assoc]
        exact .blocking hlast
      case refine_3 =>
        rcases List.mem_append.mp hj with hj | hj
        case inl => exact .inl ⟨j, by simp [hj], .inl rfl⟩
        case inr => exact .inl ⟨i, by simp, .inr (List.mem_singleton.mp hj)⟩

theorem compile_spells {batch : Option Nat} {config config' : Config} {program : Program}
    (hcompile : compile r c g batch config = .ok program) (hn : Native r c g)
    (hvalid : config'.validate = .ok ⟨⟩) :
    ∃ is, program.size ≤ config.maxBytecodeSize ∧ program.decode = .ok is ∧
      Machine.create program config' = .ok { program, instructions := is, config := config' } ∧
      Spells r c g batch program.lists is := by
  obtain ⟨place, l, passes, a, hdevice, hplace, hlayout, hplan, hassemble, rfl⟩ := compile_ok hcompile
  obtain ⟨d, hd, horder, _, hf, hending⟩ := faithful_of_layout hlayout
  have ht := tabled_of_layout hlayout hd
  obtain ⟨is, hholds, his⟩ := assemble_ok hassemble
  have hlimit : a.limit = config.maxBytecodeSize := (limit_assemble _ _).of_eq hassemble
  have hroom : a.code.length ≤ config.maxBytecodeSize := hlimit ▸ hholds.room
  obtain ⟨middle, hmiddle, hclosing, hall⟩ := middle_of_assembled ht hending his
  have hkept : ∀ i ∈ body g l c.tasks.length passes, ∃ j ∈ is, j = i ∨ j = i.blocking := by
    intro i hi
    rcases his with ⟨_, rfl⟩ | ⟨_, init, last, hinit, _, rfl⟩
    case inl => exact ⟨i, hi, .inl rfl⟩
    case inr =>
      rw [hinit] at hi
      rcases List.mem_append.mp hi with hi | hi
      case inl => exact ⟨i, by simp [hi], .inl rfl⟩
      case inr => exact ⟨last.blocking, by simp, .inr (by rw [List.mem_singleton.mp hi])⟩
  have hlists := table_small hf (Pass.plan_inside hplan).1 hkept hholds.encodable
  obtain ⟨contextNode, _, hkind⟩ := device_ok hdevice
  have hdeviceLt : l.device < wordLimit := number_lt hn hkind
  have hslots : l.instructions.length < wordLimit := by
    rw [ht.instructions]
    refine Nat.lt_of_le_of_lt ?_ hn.size
    exact Nat.le_trans (List.length_filter_le _ _) (by simp)
  have hsober : ∀ j ∈ .context l.device :: middle, Sober l.lists.lists.length j := by
    refine List.forall_mem_cons.mpr ⟨⟨?_, nofun, nofun, nofun⟩, fun j hj => ?_⟩
    case refine_1 => simpa [InWords, Instruction.operands, Operand.InWord] using hdeviceLt
    case refine_2 =>
      rcases hall j hj with ⟨i, hi, hij⟩ | ⟨list, hlt, rfl⟩
      case inr =>
        refine ⟨?_, by simp [Instruction.opcode], by simp [Instruction.opcode], fun other hother => ?_⟩
        case refine_1 => simp [InWords, Instruction.operands, Operand.InWord]
        case refine_2 => cases hother; exact hlt
      case inl =>
        obtain ⟨p, hp, hblock⟩ := List.mem_flatMap.mp hi
        obtain ⟨id, hid, hmem⟩ := List.mem_flatMap.mp hblock
        have hsober := nodeBlock_sober ht (hf.ordered.mem_iff.mp hid) hn hdeviceLt
          (Pass.plan_inWords hplan hn.objects p hp) hlists i hmem
        rcases hij with rfl | rfl
        case inl => exact hsober
        case inr => exact hsober.blocking
  rw [hmiddle, ← List.cons_append] at hholds
  have hdecode : (a.program l.lists.lists).decode =
      .ok (.begin l.instructions.length c.tasks.length l.lists.lists.length ::
        (.context l.device :: middle ++ [.finish])) :=
    decode_of_holds hholds hslots hn.tasks hlists hsober
  refine ⟨_, hroom, hdecode, create_of_decode hvalid hdecode, l.device, d, l.order, passes,
    blocks g l passes, middle ++ [.finish], hdevice, hd, horder, hplan, ht.nodup,
    forall₂_blocks ht (fun _ => hf.ordered.mem_iff.mp) passes,
    fun _ => countP_blocks ht hf.ordered, ?_, ?_⟩
  case refine_1 =>
    rw [flatten_blocks]
    exact hclosing
  case refine_2 =>
    rw [ht.instructions]
    rfl

end

-- An object of two bytes that is copied to a device one byte at a time, each of them worked on in place.
def fillingGraph : Graph where
  nodes := [⟨0, [], .context 0⟩, ⟨1, [0], .streamIn 0⟩, ⟨2, [0, 1], .task 0⟩]

def fillingObject : HostObject :=
  { handle := ⟨1⟩, kind := .array .byte }

def fillingRegistry : Registry :=
  (({} : Registry).register (.array .byte) [7, 8]).2

def fillingContext : Context where
  name := "filling"
  devices := [0]
  bindings := [{ object := fillingObject }]
  tasks := [{ id := "raise", kernel := "raise", arguments := [⟨fillingObject, .readWrite⟩], domain := [2] }]

theorem filling_spells :
    Native fillingRegistry fillingContext fillingGraph ∧ ({} : Config).validate = .ok ⟨⟩ ∧
      ∃ program, compile fillingRegistry fillingContext fillingGraph (some 1) {} = .ok program ∧
        ∃ is, program.size ≤ 4096 ∧ program.decode = .ok is ∧
          Machine.create program {} = .ok { program, instructions := is, config := {} } ∧
          Spells fillingRegistry fillingContext fillingGraph (some 1) program.lists is := by
  have hn : Native fillingRegistry fillingContext fillingGraph :=
    ⟨by decide, by decide, by decide, by decide⟩
  have hvalid : ({} : Config).validate = .ok ⟨⟩ := by decide +kernel
  have hcompile : (compile fillingRegistry fillingContext fillingGraph (some 1) {}).toOption.isSome := by
    decide +kernel
  cases h : compile fillingRegistry fillingContext fillingGraph (some 1) {} with
  | error e =>
    rw [h] at hcompile
    cases hcompile
  | ok program => exact ⟨hn, hvalid, program, rfl, compile_spells h hn hvalid⟩

end Compile
end Offload
