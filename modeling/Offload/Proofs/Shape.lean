import Offload.Machine
import Offload.Proofs.Assembly
import Offload.Proofs.Layout

/-!
What the instructions of a machine look like that was made for the program of a graph: the nodes are
issued pass after pass, each followed by the appends of its event.
-/

namespace Offload.Compile

-- A node in a pass; passes count from 0.
structure Site where
  pass : Nat
  node : Nat
  deriving DecidableEq, Repr

-- The instruction that a node becomes, which may block if it is the last one of all.
def Issued (g : Graph) (l : Layout) (pass : Pass) (id : Nat) (i : Instruction) : Prop :=
  ∃ j, nodeInstruction? g l pass id = some j ∧
    (i = j.wrapped ∨ l.ending = .blockingStreamOut ∧ j.opcode = .streamOut ∧ i = j.wrapped.blocking)

inductive Laid (g : Graph) (l : Layout) (passes : List Pass) : List Site → List Instruction → Prop
  | nil : Laid g l passes [] []
  | cons {site : Site} {pass : Pass} {i : Instruction} {sites : List Site} {is : List Instruction}
    (hpass : passes[site.pass]? = some pass) (hi : Issued g l pass site.node i)
    (hrest : Laid g l passes sites is) :
    Laid g l passes (site :: sites) (i :: (l.appends site.node).map .addDep ++ is)

def passSites (order : List Nat) (pass : Nat) : List Site :=
  order.map fun id => { pass, node := id }

-- The sites of a program in the order in which they are issued.
def sites (order : List Nat) (passes : Nat) : List Site :=
  (List.range passes).flatMap (passSites order)

def Ending.instructions : Ending → List Instruction
  | .blockingStreamOut => [.finish]
  | .barrier list => [.barrier (some list), .finish]

namespace Laid

variable {g : Graph} {l : Layout} {passes : List Pass} {sites sites' : List Site}
  {is is' : List Instruction} {i : Instruction}

theorem append (h : Laid g l passes sites is) (h' : Laid g l passes sites' is') :
    Laid g l passes (sites ++ sites') (is ++ is') := by
  induction h with
  | nil => exact h'
  | cons hpass hi _ ih =>
    rw [List.cons_append, List.append_assoc]
    exact .cons hpass hi ih

theorem block (hlast : i.opcode = .streamOut) (hending : l.ending = .blockingStreamOut)
    (h : Laid g l passes sites (is ++ [i])) : Laid g l passes sites (is ++ [i.blocking]) := by
  generalize his : is ++ [i] = js at h
  induction h generalizing is with
  | nil => simp at his
  | @cons site pass j sites js hpass hj hrest ih =>
    rcases List.eq_nil_or_concat js with rfl | ⟨js, last, rfl⟩
    case inr =>
      rw [List.concat_eq_append, ← List.append_assoc] at his
      have ⟨hinit, hlast⟩ := List.append_inj' his rfl
      cases hlast
      rw [hinit, List.append_assoc]
      exact .cons hpass hj (ih List.concat_eq_append.symm)
    case inl =>
      cases hrest
      rcases List.eq_nil_or_concat (l.appends site.node) with happends | ⟨lists, list, happends⟩
      case inr =>
        -- the block ends with an append, which is no stream-out
        rw [happends, List.append_nil, List.concat_eq_append, List.map_append, ← List.cons_append] at his
        have ⟨_, heq⟩ := List.append_inj' his rfl
        cases heq
        cases hlast
      case inl =>
        have heq : is = [] ∧ i = j := by
          rw [happends, List.map_nil, List.append_nil] at his
          exact (List.append_eq_cons_iff.mp his).elim (fun h => ⟨h.1, (List.cons.inj h.2).1⟩)
            (fun ⟨as, _, h⟩ => by simp at h)
        obtain ⟨rfl, rfl⟩ := heq
        obtain ⟨k, hk, hik⟩ := hj
        have hblocking : Issued g l pass site.node i.blocking := by
          rcases hik with rfl | ⟨_, hk', rfl⟩
          case inl =>
            rw [Instruction.opcode_wrapped] at hlast
            exact ⟨k, hk, .inr ⟨hending, hlast, rfl⟩⟩
          case inr =>
            cases k <;> cases hk'
            cases hlast
        have hlaid := Laid.cons hpass hblocking .nil
        rwa [happends] at hlaid

-- Each instruction is an append or the instruction of a site.
theorem origin (h : Laid g l passes sites is) (hi : i ∈ is) :
    (∃ list, i = .addDep list) ∨
      ∃ site ∈ sites, ∃ pass, passes[site.pass]? = some pass ∧ Issued g l pass site.node i := by
  induction h with
  | nil => cases hi
  | cons hpass hissued _ ih =>
    rcases List.mem_append.mp hi with hblock | hrest
    case inr => exact (ih hrest).imp_right fun ⟨site, hsite, hlater⟩ => ⟨site, List.mem_cons_of_mem _ hsite, hlater⟩
    case inl =>
      rcases List.mem_cons.mp hblock with rfl | happend
      case inl => exact .inr ⟨_, List.mem_cons_self, _, hpass, hissued⟩
      case inr =>
        obtain ⟨list, _, rfl⟩ := List.mem_map.mp happend
        exact .inl ⟨list, rfl⟩

end Laid

section

variable {g : Graph} {l : Layout} {passes : List Pass} {d : Graph.Dependencies}

theorem exists_nodeInstruction {id : Nat} (h : id ∈ g.instructionNodes) (pass : Pass) :
    ∃ i, nodeInstruction? g l pass id = some i := by
  obtain ⟨kind, hkind, hi⟩ := Graph.mem_instructionNodes.mp h
  unfold nodeInstruction?
  cases kind <;> cases hi <;> simp [hkind]

theorem laid_order (pass : Nat) {p : Pass} (hpass : passes[pass]? = some p) {order : List Nat}
    (horder : order ⊆ g.instructionNodes) :
    Laid g l passes (passSites order pass) ((order.flatMap (nodeBlock g l p)).map .wrapped) := by
  induction order with
  | nil => exact .nil
  | cons id order ih =>
    have ⟨hid, hrest⟩ := List.cons_subset.mp horder
    obtain ⟨i, hi⟩ := exists_nodeInstruction (l := l) hid p
    have hblock : (nodeBlock g l p id).map Instruction.wrapped =
        i.wrapped :: (l.appends id).map .addDep := by
      simp [nodeBlock, hi, Layout.appends, Instruction.wrapped, Function.comp_def]
    rw [List.flatMap_cons, List.map_append, hblock]
    exact .cons hpass ⟨i, hi, .inl rfl⟩ (ih hrest)

theorem laid_passes (horder : l.order ⊆ g.instructionNodes) :
    Laid g l passes (sites l.order passes.length)
      ((passes.flatMap (passBlock g l)).map .wrapped) := by
  have hupto (n : Nat) (hn : n ≤ passes.length) : Laid g l passes (sites l.order n)
      (((passes.take n).flatMap (passBlock g l)).map .wrapped) := by
    induction n with
    | zero => exact .nil
    | succ n ih =>
      have hget := List.getElem?_eq_getElem hn
      have hlast := laid_order (l := l) n hget horder
      rw [sites, List.range_succ, List.flatMap_append, ← List.take_append_getElem hn,
        List.flatMap_append, List.map_append]
      rw [List.flatMap_singleton, List.flatMap_singleton]
      exact (ih (Nat.le_of_lt hn)).append hlast
  simpa using hupto passes.length (Nat.le_refl _)

-- What is assembled is the body, of which the last instruction may have come to block, and the ending.
theorem assemble_ok {body : List Instruction} {ending : Ending} {limit : Nat} {a : Assembly}
    (h : assemble body ending { limit } = (.ok ⟨⟩, a)) :
    ∃ is, a.Holds (is ++ ending.instructions) ∧
      ((ending ≠ .blockingStreamOut ∧ is = body) ∨ ending = .blockingStreamOut ∧
        ∃ init i, body = init ++ [i] ∧ i.opcode = .streamOut ∧ is = init ++ [i.blocking]) := by
  unfold assemble at h
  obtain ⟨_, b, hbody, h⟩ := Action.bind_ok.mp h
  have hb := (Assembly.holds_nil limit).emits hbody
  rw [List.nil_append] at hb
  cases ending with
  | blockingStreamOut =>
    obtain ⟨_, c, hblock, h⟩ := Action.bind_ok.mp h
    obtain ⟨init, i, hbody, hi, hc⟩ := hb.block hblock
    exact ⟨_, hc.emit h, .inr ⟨rfl, init, i, hbody, hi, rfl⟩⟩
  | barrier list =>
    obtain ⟨_, c, hbarrier, h⟩ := Action.bind_ok.mp h
    have ha := (hb.emit hbarrier).emit h
    rw [List.append_assoc] at ha
    exact ⟨body, ha, .inl ⟨nofun, rfl⟩⟩

theorem limit_assemble (body : List Instruction) (ending : Ending) :
    (assemble body ending).Keeps fun a b => b.limit = a.limit := by
  have hR := Assembly.limit_lasting
  have hbody (is : List Instruction) : (is.forM Assembly.emit).Keeps fun a b => b.limit = a.limit := by
    induction is with
    | nil => exact .pure hR _
    | cons i is ih => exact .bind hR (Assembly.limit_emit i) fun _ => ih
  unfold assemble
  refine .bind hR (hbody body) fun _ => ?_
  cases ending with
  | blockingStreamOut =>
    exact .bind hR (Assembly.limit_rewriteLast _ _) fun _ => Assembly.limit_emit _
  | barrier list => exact .bind hR (Assembly.limit_emit _) fun _ => Assembly.limit_emit _

end

-- A machine that was made for the program of a graph.
structure Made (r : Registry) (c : Context) (g : Graph) (batch : Option Nat) (place : Nat)
    (d : Graph.Dependencies) (l : Layout) (passes : List Pass) (m : Machine) : Prop where
  device       : device g = .ok l.device
  place        : c.place l.device = .ok place
  dependencies : g.dependencies = .ok d
  order        : g.order d = .ok l.order
  faithful     : Faithful g d l
  ending       : l.ending = .blockingStreamOut ↔ l.order.getLast?.any (isStreamOut g)
  plan         : Pass.plan r c batch = .ok passes
  lists        : m.program.lists = l.lists.lists
  instructions : ∃ nodes blocks,
    m.instructions = .begin nodes c.tasks.length l.lists.lists.length :: .context l.device ::
      (blocks ++ l.ending.instructions) ∧
    Laid g l passes (sites l.order passes.length) blocks

section

variable {r : Registry} {c : Context} {g : Graph} {batch : Option Nat} {config config' : Config}
  {program : Program} {m : Machine} {l : Layout} {passes : List Pass}

theorem compile_ok (h : compile r c g batch config = .ok program) :
    ∃ place l passes a, device g = .ok l.device ∧ c.place l.device = .ok place ∧
      layout g l.device = .ok l ∧ Pass.plan r c batch = .ok passes ∧
      assemble (body g l c.tasks.length passes) l.ending { limit := config.maxBytecodeSize } =
        (.ok ⟨⟩, a) ∧
      program = a.program l.lists.lists := by
  unfold Offload.compile at h
  obtain ⟨index, hdevice, h⟩ := bind_eq_ok.mp h
  obtain ⟨place, hplace, h⟩ := bind_eq_ok.mp h
  obtain ⟨l, hlayout, h⟩ := bind_eq_ok.mp h
  obtain ⟨passes, hpasses, h⟩ := bind_eq_ok.mp h
  obtain ⟨_, _, _, hindex, _⟩ := faithful_of_layout hlayout
  cases hassemble : assemble (body g l c.tasks.length passes) l.ending
    { limit := config.maxBytecodeSize } with
  | mk result a =>
    simp only [hassemble] at h
    obtain ⟨⟨⟩, rfl, h⟩ := bind_eq_ok.mp h
    cases h
    exact ⟨place, l, passes, a, hindex ▸ hdevice, hindex ▸ hplace, hindex ▸ hlayout, hpasses,
      hassemble, rfl⟩

theorem create_ok (h : Machine.create program config = .ok m) :
    config.validate = .ok ⟨⟩ ∧ m = { program, instructions := m.instructions, config } ∧
      program.decode = .ok m.instructions := by
  unfold Machine.create at h
  obtain ⟨_, hvalid, h⟩ := bind_eq_ok.mp h
  obtain ⟨instructions, hdecode, h⟩ := bind_eq_ok.mp h
  split at h
  case h_2 => cases h
  case h_1 =>
    split at h <;> cases h
    exact ⟨hvalid, rfl, hdecode⟩

theorem instructions_of_holds {a : Assembly} {is js : List Instruction} {lists : List (List Nat)}
    (ha : a.Holds is) (h : (a.program lists).decode = .ok js) : js = is.map Instruction.wrapped := by
  have hcode : (a.program lists).code = is.flatMap Instruction.encoding := ha.code
  rw [Program.decode, hcode] at h
  exact (Program.decodeFrom_encodings ha.encodable h).2

-- The code of a compiled program spells the instructions of the machines that are made for it.
theorem coded_of_compile (h : compile r c g batch config = .ok program) :
    ∃ place d l passes is, layout g l.device = .ok l ∧ program.code = is.flatMap Instruction.encoding ∧
      (∀ js, program.decode = .ok js → js = is) ∧
      is.head? = some (.begin l.instructions.length c.tasks.length l.lists.lists.length) ∧
      ∀ m : Machine, m.program = program → m.instructions = is → Made r c g batch place d l passes m := by
  obtain ⟨place, l, passes, a, hdevice, hplace, hlayout, hpasses, hassemble, rfl⟩ := compile_ok h
  obtain ⟨d, hd, horder, _, hfaithful, hending⟩ := faithful_of_layout hlayout
  obtain ⟨is, hholds, his⟩ := assemble_ok hassemble
  have hlaid : Laid g l passes (sites l.order passes.length)
      ((passes.flatMap (passBlock g l)).map .wrapped) :=
    laid_passes fun _ => hfaithful.ordered.mem_iff.mp
  have hbody : (body g l c.tasks.length passes).map Instruction.wrapped =
      .begin l.instructions.length c.tasks.length l.lists.lists.length :: .context l.device ::
        (passes.flatMap (passBlock g l)).map .wrapped := by
    simp [body, Instruction.wrapped]
  have htail : l.ending.instructions.map Instruction.wrapped = l.ending.instructions := by
    cases l.ending <;> rfl
  obtain ⟨blocks, hinstructions, hblocks⟩ : ∃ blocks, (is ++ l.ending.instructions).map Instruction.wrapped =
      .begin l.instructions.length c.tasks.length l.lists.lists.length :: .context l.device ::
        (blocks ++ l.ending.instructions) ∧ Laid g l passes (sites l.order passes.length) blocks := by
    rw [List.map_append, htail]
    rcases his with ⟨_, rfl⟩ | ⟨he, init, i, hinit, hi, rfl⟩
    case inl => exact ⟨_, by rw [hbody]; rfl, hlaid⟩
    case inr =>
      have hlast := congrArg (List.map Instruction.wrapped) hinit
      rw [hbody, List.map_append] at hlast
      rcases List.eq_nil_or_concat ((passes.flatMap (passBlock g l)).map Instruction.wrapped) with
        hnil | ⟨blocks, last, hblocks⟩
      case inl =>
        -- the header ends with no stream-out
        rw [hnil, ← List.singleton_append] at hlast
        obtain ⟨_, hcontext⟩ := List.append_inj' hlast rfl
        rw [List.map_singleton, List.singleton_inj] at hcontext
        have hopcode := i.opcode_wrapped
        rw [← hcontext, hi] at hopcode
        cases hopcode
      case inr =>
        rw [hblocks, List.concat_eq_append, ← List.cons_append, ← List.cons_append] at hlast
        obtain ⟨hheader, heq⟩ := List.append_inj' hlast rfl
        rw [List.map_singleton, List.singleton_inj] at heq
        rw [hblocks, List.concat_eq_append] at hlaid
        have hstreamOut : last.opcode = .streamOut := by rw [heq, i.opcode_wrapped, hi]
        refine ⟨_, ?_, hlaid.block hstreamOut he⟩
        rw [List.map_append, ← hheader, List.map_singleton, i.wrapped_blocking, heq]
        simp
  refine ⟨place, d, l, passes, (is ++ l.ending.instructions).map .wrapped, hlayout, ?_, ?_, ?_, ?_⟩
  case refine_1 =>
    rw [List.flatMap_map]
    exact hholds.code.trans (List.flatMap_congr fun i _ => i.encoding_wrapped.symm)
  case refine_2 => exact fun js hjs => instructions_of_holds hholds hjs
  case refine_3 => rw [hinstructions]; rfl
  case refine_4 =>
    intro m hprogram his'
    refine ⟨hdevice, hplace, hd, horder, hfaithful, hending, hpasses, ?_, ?_⟩
    case refine_1 => rw [hprogram]; rfl
    case refine_2 => exact ⟨_, blocks, his'.trans hinstructions, hblocks⟩

theorem made_of_compile (h : compile r c g batch config = .ok program)
    (hm : Machine.create program config' = .ok m) :
    ∃ place d l passes, Made r c g batch place d l passes m := by
  obtain ⟨place, d, l, passes, is, _, _, hdecode, _, hmade⟩ := coded_of_compile h
  obtain ⟨_, hmachine, hm⟩ := create_ok hm
  exact ⟨place, d, l, passes, hmade m (by rw [hmachine]) (hdecode _ hm)⟩

end
end Offload.Compile
