import Offload.Proofs.Chains
import Offload.Proofs.Cycles
import Offload.Proofs.Nameless
import Offload.Proofs.Spelled

/-!
What is accepted for compiling, and how many bytes it takes. A graph that is well formed is refused for the
length of its program alone: there is one program, which is made whenever there is room for all of it.
-/

namespace Offload

open Instruction (encoding)

namespace Instruction

-- All that may have no encoding is the list that is waited for.
theorem encodable_of_wait {i : Instruction} (h : ∀ place, i.wait? = some place → place < Operand.waitLimit) :
    i.Encodable := by
  rw [encodable_iff]
  cases i with
  | begin | context | addDep | finish => rfl
  | launch _ _ wait | streamIn _ _ _ wait | streamOut _ _ _ wait | streamOutBlocking _ _ _ wait | barrier wait
  | marker wait =>
    cases wait with
    | none => rfl
    | some place => simp [operands, Operand.encodeAll, Operand.encode, h place rfl]

theorem length_encoding_blocking (i : Instruction) : i.blocking.encoding.length = i.encoding.length := by
  cases i <;> rfl

-- The bytes that instructions take.
def span (is : List Instruction) : Nat :=
  (is.flatMap encoding).length

theorem span_append (is js : List Instruction) : span (is ++ js) = span is + span js := by
  simp [span]

theorem span_le_append (is js : List Instruction) : span is ≤ span (is ++ js) := by
  rw [span_append]
  exact Nat.le_add_right _ _

theorem span_blocking (is : List Instruction) (i : Instruction) : span (is ++ [i.blocking]) = span (is ++ [i]) := by
  simp [span, length_encoding_blocking]

end Instruction

open Instruction (span)

namespace Assembly

variable {limit : Nat} {is js : List Instruction} {i : Instruction} {a : Assembly}
  {x y : Action Assembly Unit}

-- How an assembler ends that is to hold `is` in the end: the limit decides.
def Budgeted (limit : Nat) (is : List Instruction) (result : Except Error Unit) (a : Assembly) : Prop :=
  if span is ≤ limit then result = .ok ⟨⟩ ∧ a.Holds is ∧ a.limit = limit else result = .error (.encoding limit)

theorem budgeted_of_holds (ha : a.Holds is) (hlimit : a.limit = limit) : Budgeted limit is (.ok ⟨⟩) a := by
  have hroom : span is ≤ limit := by
    rw [span, ← ha.code, ← hlimit]
    exact ha.room
  rw [Budgeted, if_pos hroom]
  exact ⟨rfl, ha, hlimit⟩

-- What takes more room than there is goes on to do so.
theorem Budgeted.bind (hx : x.Ends a (Budgeted limit is)) (hle : span is ≤ span js)
    (hy : ∀ b, b.Holds is → b.limit = limit → y.Ends b (Budgeted limit js)) :
    (x >>= fun _ => y).Ends a (Budgeted limit js) := by
  by_cases hroom : span is ≤ limit
  case pos =>
    refine hx.bind (fun _ b hb => ?_) fun e b hb => ?_ <;> rw [Budgeted, if_pos hroom] at hb
    case refine_1 => exact hy b hb.2.1 hb.2.2
    case refine_2 => cases hb.1
  case neg =>
    have hexcess : ¬span js ≤ limit := fun h => hroom (Nat.le_trans hle h)
    refine hx.bind (fun _ b hb => ?_) fun e b hb => ?_ <;> rw [Budgeted, if_neg hroom] at hb
    case refine_1 => cases hb
    case refine_2 => rwa [Budgeted, if_neg hexcess]

theorem emit_budgeted (ha : a.Holds is) (hlimit : a.limit = limit) (hi : i.Encodable) :
    (emit i).Ends a (Budgeted limit (is ++ [i])) := by
  have hcode : (a.code ++ i.encoding).length = span (is ++ [i]) := by simp [span, ha.code]
  have hemit := emit_of_encodable hi a
  rw [hcode, hlimit] at hemit
  by_cases hroom : span (is ++ [i]) ≤ limit
  case pos =>
    rw [if_pos hroom] at hemit
    rw [Action.Ends, hemit]
    exact budgeted_of_holds (ha.emit hemit) rfl
  case neg =>
    rw [if_neg hroom] at hemit
    rw [Action.Ends, hemit, Budgeted, if_neg hroom]

theorem emits_budgeted (ha : a.Holds is) (hlimit : a.limit = limit) (hjs : ∀ j ∈ js, j.Encodable) :
    (js.forM emit).Ends a (Budgeted limit (is ++ js)) := by
  induction js generalizing a is with
  | nil =>
    rw [List.append_nil]
    exact budgeted_of_holds ha hlimit
  | cons j js ih =>
    have ⟨hj, hrest⟩ := List.forall_mem_cons.mp hjs
    rw [← List.singleton_append, ← List.append_assoc]
    exact Budgeted.bind (emit_budgeted ha hlimit hj) (Instruction.span_le_append _ _) fun b hb hlimit' =>
      ih hb hlimit' hrest

theorem rewriteLast_budgeted (ha : a.Holds (is ++ [i])) (hlimit : a.limit = limit) (hi : i.opcode = .streamOut) :
    (rewriteLast .streamOut .streamOutBlocking).Ends a (Budgeted limit (is ++ [i.blocking])) := by
  have hlast : a.last = some (span is) := by simpa [span] using ha.last
  have hopcode : a.lastOpcode? = some .streamOut := hi ▸ ha.lastOpcode?
  have hrewrite : rewriteLast .streamOut .streamOutBlocking a =
      (.ok ⟨⟩, { a with code := a.code.set (span is) Opcode.streamOutBlocking.byte }) := by
    rw [rewriteLast_of_some hlast, if_pos hopcode]
  obtain ⟨init, j, heq, _, hholds⟩ := ha.block hrewrite
  obtain ⟨rfl, hij⟩ := List.append_inj' heq rfl
  cases List.singleton_inj.mp hij
  rw [Action.Ends, hrewrite]
  exact budgeted_of_holds hholds hlimit

end Assembly

namespace Compile

open Assembly (Budgeted)

-- The instructions that are assembled from a body with an ending: the last one comes to block, if it is to.
def closed (body : List Instruction) : Ending → List Instruction
  | .blockingStreamOut => body.dropLast ++ (body.getLast?.map Instruction.blocking).toList ++ [.finish]
  | .barrier list => body ++ [.barrier (some list)] ++ [.finish]

section

variable {limit : Nat} {is : List Instruction} {ending : Ending} {r : Registry} {c : Context} {g : Graph}
  {d : Graph.Dependencies} {l : Layout} {passes : List Pass} {batch : Option Nat} {device tasks : Nat}

theorem assemble_budgeted (his : ∀ i ∈ is ++ ending.instructions, i.Encodable)
    (hlast : ending = .blockingStreamOut → ∃ init i, is = init ++ [i] ∧ i.opcode = .streamOut) :
    (assemble is ending).Ends { limit } (Budgeted limit (closed is ending)) := by
  have ⟨hencodable, hending⟩ := List.forall_mem_append.mp his
  have hemits := Assembly.emits_budgeted (Assembly.holds_nil limit) rfl hencodable
  rw [List.nil_append] at hemits
  unfold assemble
  cases ending with
  | barrier list =>
    obtain ⟨hbarrier, hfinish⟩ := List.forall_mem_cons.mp hending
    refine Budgeted.bind hemits (by simp [closed, Instruction.span_append]) fun b hb hlimit => ?_
    refine Budgeted.bind (Assembly.emit_budgeted hb hlimit hbarrier) (Instruction.span_le_append _ _)
      fun b hb hlimit => ?_
    exact Assembly.emit_budgeted hb hlimit (hfinish _ (List.mem_singleton_self _))
  | blockingStreamOut =>
    obtain ⟨init, i, rfl, hi⟩ := hlast rfl
    have hclosed : closed (init ++ [i]) .blockingStreamOut = (init ++ [i.blocking]) ++ [.finish] := by
      simp [closed]
    have hspan : span (init ++ [i]) ≤ span ((init ++ [i.blocking]) ++ [.finish]) := by
      rw [← Instruction.span_blocking]
      exact Instruction.span_le_append _ _
    rw [hclosed]
    refine Budgeted.bind hemits hspan fun b hb hlimit => ?_
    refine Budgeted.bind (Assembly.rewriteLast_budgeted hb hlimit hi) (Instruction.span_le_append _ _)
      fun b hb hlimit => ?_
    exact Assembly.emit_budgeted hb hlimit (hending _ (List.mem_singleton_self _))

-- Nothing is appended behind the last node of an order, because nothing waits for it.
theorem appends_last (hf : Faithful g d l) (hending : l.ending = .blockingStreamOut) {init : List Nat} {id : Nat}
    (horder : l.order = init ++ [id]) : l.appends id = [] := by
  refine List.eq_nil_iff_forall_not_mem.mpr fun list hlist => ?_
  rcases hf.used (lt_of_mem_appends hlist) with ⟨k, hk⟩ | hbarrier
  case inr => cases hending.symm.trans hbarrier
  case inl =>
    obtain ⟨hmem, _, _, happends⟩ := hf.listed hk
    have hid : id ∈ l.order := by simp [horder]
    exact hf.ordered.not_dep horder (horder ▸ hmem) ((happends hid).mp hlist)

-- If the last node is a stream-out, it is the last instruction of the last pass.
theorem body_ends_with_streamOut (hf : Faithful g d l)
    (hending : l.ending = .blockingStreamOut ↔ l.order.getLast?.any (isStreamOut g)) (hpasses : passes ≠ [])
    (hblocks : l.ending = .blockingStreamOut) :
    ∃ init i, body g l tasks passes = init ++ [i] ∧ i.opcode = .streamOut := by
  obtain ⟨id, hid, hkind⟩ := (Option.any_eq_true _ _).mp (hending.mp hblocks)
  obtain ⟨init, horder⟩ : ∃ init, l.order = init ++ [id] := List.getLast?_eq_some_iff.mp hid
  obtain ⟨passes, p, rfl⟩ := (List.eq_nil_or_concat passes).resolve_left hpasses
  obtain ⟨object, hobject⟩ : ∃ object, g.kind? id = some (.streamOut object) := by
    unfold isStreamOut at hkind
    split at hkind
    case h_1 object hobject => exact ⟨object, hobject⟩
    case h_2 => cases hkind
  have hblock : nodeBlock g l p id = [.streamOut object p.offset p.length (l.waits.lookup id)] := by
    have happends := appends_last hf hblocks horder
    unfold Layout.appends at happends
    simp [nodeBlock, nodeInstruction?, hobject, happends]
  refine ⟨.begin l.instructions.length tasks l.lists.lists.length :: .context l.device ::
    (passes.flatMap (passBlock g l) ++ init.flatMap (nodeBlock g l p)),
    .streamOut object p.offset p.length (l.waits.lookup id), ?_, rfl⟩
  rw [body, List.concat_eq_append, List.flatMap_append, List.flatMap_singleton, passBlock, horder,
    List.flatMap_append, List.flatMap_singleton, hblock, ← List.append_assoc]
  rfl

-- The table has no list that a wait operand could not hold.
def Small (l : Layout) : Prop :=
  l.lists.lists.length ≤ Operand.waitLimit

theorem body_encodable (hf : Faithful g d l) (hsmall : Small l) :
    ∀ i ∈ body g l tasks passes ++ l.ending.instructions, i.Encodable := by
  have hwait {id place : Nat} (h : l.waits.lookup id = some place) : place < Operand.waitLimit :=
    Nat.lt_of_lt_of_le (hf.listed h).2.1 hsmall
  have hblock (p : Pass) (id : Nat) : ∀ i ∈ nodeBlock g l p id, i.Encodable := by
    unfold nodeBlock
    split
    case h_1 => exact nofun
    case h_2 i hi =>
      refine List.forall_mem_cons.mpr ⟨Instruction.encodable_of_wait fun place hplace => ?_, fun j hj => ?_⟩
      case refine_1 =>
        unfold nodeInstruction? at hi
        split at hi <;> cases hi <;> exact hwait hplace
      case refine_2 =>
        obtain ⟨list, _, rfl⟩ := List.mem_map.mp hj
        exact Instruction.encodable_of_wait nofun
  refine List.forall_mem_append.mpr ⟨?_, ?_⟩
  case refine_1 =>
    refine List.forall_mem_cons.mpr ⟨Instruction.encodable_of_wait nofun, List.forall_mem_cons.mpr
      ⟨Instruction.encodable_of_wait nofun, fun i hi => ?_⟩⟩
    obtain ⟨p, _, hi⟩ := List.mem_flatMap.mp hi
    obtain ⟨id, _, hi⟩ := List.mem_flatMap.mp hi
    exact hblock p id i hi
  case refine_2 =>
    cases hending : l.ending with
    | blockingStreamOut =>
      intro i hi
      cases List.mem_singleton.mp hi
      exact Instruction.encodable_of_wait nofun
    | barrier list =>
      have hlist := Nat.lt_of_lt_of_le (hf.final hending).1 hsmall
      refine List.forall_mem_cons.mpr ⟨Instruction.encodable_of_wait fun place hplace => ?_, fun i hi => ?_⟩
      case refine_1 =>
        cases hplace
        exact hlist
      case refine_2 =>
        cases List.mem_singleton.mp hi
        exact Instruction.encodable_of_wait nofun

theorem length_intern (w : WaitLists) (slots : List Nat) : (w.intern slots).2.lists.length ≤ w.lists.length + 1 := by
  unfold WaitLists.intern
  split
  case h_1 => exact Nat.le_succ _
  case h_2 => simp

-- A graph has no more lists than instruction nodes, but for the one of the barrier.
theorem length_internAll (instructions nodes : List Nat) (w : WaitLists) :
    (WaitLists.internAll d instructions nodes w).2.lists.length ≤ w.lists.length + nodes.length := by
  induction nodes generalizing w with
  | nil => exact Nat.le_refl _
  | cons node nodes ih =>
    unfold WaitLists.internAll
    split
    case h_1 =>
      have hrest := ih w
      rw [List.length_cons]
      omega
    case h_2 needed _ =>
      have hrest := ih (w.intern (WaitLists.slots instructions (d.of node))).2
      have hone := length_intern w (WaitLists.slots instructions (d.of node))
      change (WaitLists.internAll d instructions nodes (w.intern _).2).2.lists.length ≤ _
      rw [List.length_cons]
      omega

theorem small_of_size (hsize : g.size < Operand.waitLimit) (h : layout g device = .ok l) : Small l := by
  have hnodes : g.instructionNodes.length ≤ g.size :=
    Nat.le_trans (List.length_filter_le _ _) (Nat.le_of_eq List.length_range)
  unfold layout at h
  obtain ⟨d, _, h⟩ := bind_eq_ok.mp h
  obtain ⟨order, _, h⟩ := bind_eq_ok.mp h
  have hlists : l.lists =
      (ending g d order (WaitLists.internAll d g.instructionNodes g.instructionNodes {}).2).2 := by
    cases h
    rfl
  have hinterned := length_internAll (d := d) g.instructionNodes g.instructionNodes {}
  have hnone : ({} : WaitLists).lists.length = 0 := rfl
  rw [Small, hlists, ending]
  split
  case isTrue =>
    dsimp only
    omega
  case isFalse =>
    have hbarrier := length_intern (WaitLists.internAll d g.instructionNodes g.instructionNodes {}).2
      (WaitLists.slots g.instructionNodes (g.sinks d))
    dsimp only
    omega

-- What has to be right about a graph and the tables for there to be a program: one context node, for an
-- attached device, chains that lead somewhere, no cycle, and a batch size that the objects can be cut by.
structure WellFormed (r : Registry) (c : Context) (g : Graph) (batch : Option Nat) : Prop where
  context   : ∃ id device, g.kind? id = some (.context device) ∧ device < c.devices.length ∧
    ∀ k device', g.kind? k = some (.context device') → k = id
  connected : g.Connected
  acyclic   : ∀ id, ¬Relation.TransGen g.DependsOn id id
  plan      : ∃ passes, Pass.plan r c batch = .ok passes

theorem mem_contexts {id : Nat} : id ∈ g.contexts ↔ ∃ device, g.kind? id = some (.context device) := by
  simp only [Graph.contexts, Graph.idsWhere, List.mem_filter, List.mem_range, Option.any_eq_true]
  constructor
  case mp =>
    rintro ⟨_, kind, hkind, hcontext⟩
    cases kind <;> cases hcontext
    exact ⟨_, hkind⟩
  case mpr =>
    rintro ⟨device, hkind⟩
    exact ⟨Graph.lt_size_of_kind? hkind, _, hkind, rfl⟩

-- The device is found if and only if it stands in the only context node.
theorem device_ok_iff : Compile.device g = .ok device ↔ ∃ id, g.kind? id = some (.context device) ∧
    ∀ k device', g.kind? k = some (.context device') → k = id := by
  have hnodup : g.contexts.Nodup := List.nodup_range.filter _
  constructor
  case mp =>
    intro h
    unfold Compile.device at h
    split at h
    case h_1 => cases h
    case h_3 => cases h
    case h_2 id hcontexts =>
      split at h <;> cases h
      case h_1 hkind =>
        refine ⟨id, hkind, fun k device' hk => ?_⟩
        exact List.mem_singleton.mp (hcontexts ▸ mem_contexts.mpr ⟨device', hk⟩)
  case mpr =>
    rintro ⟨id, hkind, hunique⟩
    have hcontexts : g.contexts = [id] := by
      refine List.perm_singleton.mp ((List.perm_ext_iff_of_nodup hnodup (List.nodup_singleton id)).mpr fun k => ?_)
      rw [mem_contexts, List.mem_singleton]
      constructor
      case mp => exact fun ⟨device', hk⟩ => hunique k device' hk
      case mpr =>
        rintro rfl
        exact ⟨device, hkind⟩
    rw [Compile.device, hcontexts]
    simp only [hkind]
    rfl

-- There is an order if and only if there is no cycle.
theorem order_ok_iff (hd : g.dependencies = .ok d) :
    (∃ order, g.order d = .ok order) ↔ ∀ id, ¬Relation.TransGen g.DependsOn id id := by
  have hall : (∃ order, g.order d = .ok order) ↔ ∀ id ∈ g.instructionNodes, ¬g.ReachesCycle id := by
    constructor
    case mp =>
      intro ⟨order, horder⟩ id hid hcycle
      obtain ⟨rfl, htaken⟩ := Graph.order_ok horder
      exact (Graph.not_mem_taken_iff hd hid).mpr hcycle (htaken id hid)
    case mpr =>
      intro hnone
      refine ⟨_, if_pos (List.filter_eq_nil_iff.mpr fun id hid => ?_)⟩
      simpa using mt (Graph.not_mem_taken_iff hd hid).mp (hnone id hid)
  rw [hall]
  constructor
  case mp =>
    intro hnone id hcycle
    obtain ⟨_, hdep, _⟩ := Relation.TransGen.head'_iff.mp hcycle
    exact hnone id hdep.isInstruction ⟨id, .refl, hcycle⟩
  case mpr => exact fun hacyclic id _ ⟨k, _, hcycle⟩ => hacyclic k hcycle

theorem layout_ok_iff : (∃ l, layout g device = .ok l) ↔
    g.Connected ∧ ∀ id, ¬Relation.TransGen g.DependsOn id id := by
  rw [← Graph.dependencies_ok_iff]
  constructor
  case mp =>
    intro ⟨l, h⟩
    obtain ⟨d, _, hd, horder, _⟩ := layout_ok h
    exact ⟨⟨d, hd⟩, (order_ok_iff hd).mp ⟨_, horder⟩⟩
  case mpr =>
    rintro ⟨⟨d, hd⟩, hacyclic⟩
    obtain ⟨order, horder⟩ := (order_ok_iff hd).mpr hacyclic
    exact ⟨_, bind_eq_ok.mpr ⟨d, hd, bind_eq_ok.mpr ⟨order, horder, rfl⟩⟩⟩

-- What there is of a well-formed graph before anything is assembled.
structure Planned (r : Registry) (c : Context) (g : Graph) (batch : Option Nat) (l : Layout) (passes : List Pass) :
    Prop where
  device : Compile.device g = .ok l.device
  place  : ∃ place, c.place l.device = .ok place
  layout : Compile.layout g l.device = .ok l
  plan   : Pass.plan r c batch = .ok passes

theorem exists_place_iff : (∃ place, c.place device = .ok place) ↔ device < c.devices.length := by
  unfold Context.place
  cases hplace : c.devices[device]? with
  | none => simpa using List.getElem?_eq_none_iff.mp hplace
  | some place => simpa [pure, Except.pure] using (List.getElem?_eq_some_iff.mp hplace).1

theorem wellFormed_iff : WellFormed r c g batch ↔ ∃ l passes, Planned r c g batch l passes := by
  constructor
  case mp =>
    intro ⟨⟨id, device, hkind, hattached, hunique⟩, hconnected, hacyclic, passes, hplan⟩
    obtain ⟨l, hlayout⟩ : ∃ l, layout g device = .ok l := layout_ok_iff.mpr ⟨hconnected, hacyclic⟩
    obtain ⟨_, _, _, _, rfl, _⟩ := layout_ok hlayout
    exact ⟨l, passes, device_ok_iff.mpr ⟨id, hkind, hunique⟩, exists_place_iff.mpr hattached, hlayout, hplan⟩
  case mpr =>
    intro ⟨l, passes, hdevice, hplace, hlayout, hplan⟩
    obtain ⟨id, hkind, hunique⟩ := device_ok_iff.mp hdevice
    obtain ⟨hconnected, hacyclic⟩ := layout_ok_iff.mp ⟨l, hlayout⟩
    exact ⟨⟨id, l.device, hkind, exists_place_iff.mp hplace, hunique⟩, hconnected, hacyclic, passes, hplan⟩

theorem wellFormed_of_compile {config : Config} {program : Program} (h : compile r c g batch config = .ok program) :
    WellFormed r c g batch := by
  obtain ⟨place, l, passes, _, hdevice, hplace, hlayout, hplan, _⟩ := compile_ok h
  exact wellFormed_iff.mpr ⟨l, passes, hdevice, ⟨place, hplace⟩, hlayout, hplan⟩

theorem compile_eq (h : Planned r c g batch l passes) (config : Config) :
    compile r c g batch config =
      match assemble (body g l c.tasks.length passes) l.ending { limit := config.maxBytecodeSize } with
      | (.ok _, a) => .ok (a.program l.lists.lists)
      | (.error e, _) => .error e := by
  obtain ⟨hdevice, ⟨place, hplace⟩, hlayout, hplan⟩ := h
  unfold Offload.compile
  rw [hdevice]
  simp only [bind, Except.bind, hplace, hlayout, hplan]
  rcases assemble (body g l c.tasks.length passes) l.ending { limit := config.maxBytecodeSize } with ⟨_ | _, a⟩
  case error => rfl
  case ok => rfl

-- What is not well formed is refused before anything is assembled.
theorem compile_misused (h : ¬WellFormed r c g batch) (config : Config) :
    ∃ e, compile r c g batch config = .error e ∧ e.IsMisuse := by
  unfold Offload.compile
  cases hdevice : Compile.device g with
  | error e => exact ⟨e, rfl, misused_device g e hdevice⟩
  | ok device =>
    cases hplace : c.place device with
    | error e => exact ⟨e, by simp [bind, Except.bind, hplace], c.misused_place device e hplace⟩
    | ok place =>
      cases hlayout : layout g device with
      | error e => exact ⟨e, by simp [bind, Except.bind, hplace, hlayout], misused_layout g device e hlayout⟩
      | ok l =>
        cases hplan : Pass.plan r c batch with
        | error e => exact ⟨e, by simp [bind, Except.bind, hplace, hlayout], Pass.misused_plan r c batch e hplan⟩
        | ok passes =>
          obtain ⟨_, _, _, _, rfl, _⟩ := layout_ok hlayout
          exact absurd (wellFormed_iff.mpr ⟨l, passes, hdevice, ⟨place, hplace⟩, hlayout, hplan⟩) h

-- The program of a graph that is laid out for some passes.
def spelled (g : Graph) (l : Layout) (tasks : Nat) (passes : List Pass) : Program where
  code := (closed (body g l tasks passes) l.ending).flatMap encoding
  lists := l.lists.lists

-- It is the only one, and there has to be room for all of it.
theorem compile_budgeted (h : Planned r c g batch l passes) (hsmall : Small l) (config : Config) :
    compile r c g batch config =
      if (spelled g l c.tasks.length passes).size ≤ config.maxBytecodeSize then
        .ok (spelled g l c.tasks.length passes)
      else .error (.encoding config.maxBytecodeSize) := by
  obtain ⟨d, _, _, _, hf, hending⟩ := faithful_of_layout h.layout
  have hends : (assemble (body g l c.tasks.length passes) l.ending).Ends { limit := config.maxBytecodeSize }
      (Budgeted config.maxBytecodeSize (closed (body g l c.tasks.length passes) l.ending)) :=
    assemble_budgeted (body_encodable hf hsmall) (body_ends_with_streamOut hf hending (Pass.plan_inside h.plan).1)
  rw [compile_eq h config]
  rcases hassemble : assemble (body g l c.tasks.length passes) l.ending { limit := config.maxBytecodeSize } with
    ⟨e | _, a⟩
  all_goals
    have hbudgeted := hends.of_eq hassemble
    change if (spelled g l c.tasks.length passes).size ≤ config.maxBytecodeSize then _ else _ at hbudgeted
    split at hbudgeted
  case error.isTrue => cases hbudgeted.1
  case error.isFalse hexcess =>
    cases hbudgeted
    rw [if_neg hexcess]
  case ok.isTrue hroom =>
    rw [if_pos hroom]
    simp only [Assembly.program, hbudgeted.2.1.code, spelled]
  case ok.isFalse => cases hbudgeted

-- What comes of compiling: what is well formed is accepted, unless its program is too long, and the rest is
-- refused. A stream-out that is to block is always found where it has to be.
structure Judges (r : Registry) (c : Context) (g : Graph) (batch : Option Nat) (result : Except Error Program) :
    Prop where
  accepted : ((∃ program, result = .ok program) ∨ ∃ limit, result = .error (.encoding limit)) ↔
    WellFormed r c g batch
  refused  : ¬WellFormed r c g batch → ∃ cause, result = .error (.config cause)
  blocked  : ∀ source target found, result ≠ .error (.config (.rewriteMismatch source target found))

theorem compile_judges (hsmall : ∀ device l, layout g device = .ok l → Small l) (config : Config) :
    Judges r c g batch (compile r c g batch config) := by
  by_cases hformed : WellFormed r c g batch
  case pos =>
    obtain ⟨l, passes, hplanned⟩ := wellFormed_iff.mp hformed
    rw [compile_budgeted hplanned (hsmall _ _ hplanned.layout)]
    split
    case isTrue => exact ⟨⟨fun _ => hformed, fun _ => .inl ⟨_, rfl⟩⟩, absurd hformed, nofun⟩
    case isFalse => exact ⟨⟨fun _ => hformed, fun _ => .inr ⟨_, rfl⟩⟩, absurd hformed, nofun⟩
  case neg =>
    obtain ⟨e, he, hmisuse⟩ := compile_misused hformed config
    obtain ⟨cause, rfl, hcause⟩ := hmisuse.exists_cause
    rw [he]
    refine ⟨⟨?_, fun h => absurd h hformed⟩, fun _ => ⟨cause, rfl⟩, fun source target found h => ?_⟩
    case refine_1 =>
      rintro (⟨_, h⟩ | ⟨_, h⟩)
      · cases h
      · cases h
    case refine_2 =>
      cases h
      exact hcause source target found rfl

-- The size of a program decides under which limits it is made.
structure Threshold (r : Registry) (c : Context) (g : Graph) (batch : Option Nat) (program : Program) : Prop where
  fits    : ∀ config : Config, program.size ≤ config.maxBytecodeSize → compile r c g batch config = .ok program
  exceeds : ∀ config : Config, config.maxBytecodeSize < program.size →
    compile r c g batch config = .error (.encoding config.maxBytecodeSize) ∧
      (Error.encoding config.maxBytecodeSize).isRecoverable

theorem compile_threshold (hformed : WellFormed r c g batch)
    (hsmall : ∀ device l, layout g device = .ok l → Small l) : ∃! program, Threshold r c g batch program := by
  obtain ⟨l, passes, hplanned⟩ := wellFormed_iff.mp hformed
  have hcompile := compile_budgeted hplanned (hsmall _ _ hplanned.layout)
  refine ⟨spelled g l c.tasks.length passes, ⟨fun config hroom => ?_, fun config hexcess => ⟨?_, rfl⟩⟩,
    fun program h => ?_⟩
  case refine_1 => exact (hcompile config).trans (if_pos hroom)
  case refine_2 => exact (hcompile config).trans (if_neg (Nat.not_le_of_lt hexcess))
  case refine_3 =>
    -- under a limit that has room for it there is no other program
    have hfits := h.fits { maxBytecodeSize := program.size } (Nat.le_refl _)
    rw [hcompile] at hfits
    split at hfits <;> cases hfits
    rfl

end

-- Each node takes its input from one that comes later; the copy out, which comes first, is issued last.
def backwardGraph : Graph where
  nodes := [⟨0, [], .context 0⟩, ⟨1, [0, 2], .streamOut 0⟩, ⟨2, [], .dataDependency 3⟩, ⟨3, [0, 4], .task 0⟩,
    ⟨4, [0], .streamIn 0⟩]

theorem backward_small : ∀ device l, layout backwardGraph device = .ok l → Small l :=
  fun _ _ => small_of_size (by decide)

theorem backward_judges : (∀ device l, layout backwardGraph device = .ok l → Small l) ∧
    (compile fillingRegistry fillingContext backwardGraph (some 1) {}).toOption.isSome ∧
      Judges fillingRegistry fillingContext backwardGraph (some 1)
        (compile fillingRegistry fillingContext backwardGraph (some 1) {}) :=
  ⟨backward_small, by decide +kernel, compile_judges backward_small {}⟩

theorem backward_threshold : WellFormed fillingRegistry fillingContext backwardGraph (some 1) ∧
    (∀ device l, layout backwardGraph device = .ok l → Small l) ∧
      ∃! program, Threshold fillingRegistry fillingContext backwardGraph (some 1) program := by
  have hcompile : (compile fillingRegistry fillingContext backwardGraph (some 1) {}).toOption.isSome := by
    decide +kernel
  have hformed : WellFormed fillingRegistry fillingContext backwardGraph (some 1) := by
    cases h : compile fillingRegistry fillingContext backwardGraph (some 1) {} with
    | error e =>
      rw [h] at hcompile
      cases hcompile
    | ok program => exact wellFormed_of_compile h
  exact ⟨hformed, backward_small, compile_threshold hformed backward_small⟩

end Compile
end Offload
