import Offload.Proofs.Ledger

/-!
What a command waits for: in every execution of the program of a graph, whatever comes of it, each node
waits for the events that its producers issued in the same pass, and for nothing else.
-/

namespace Offload

open Compile (Site Log Layout Laid Issued Faithful Made sites passSites)

-- The kind of the node whose work an instruction does.
def Instruction.nodeKind? : Instruction → Option NodeKind
  | .launch task .. => some (.task task)
  | .streamIn object .. => some (.streamIn object)
  | .streamOut object .. | .streamOutBlocking object .. => some (.streamOut object)
  | _ => none

theorem Compile.Issued.nodeKind?_eq {g : Graph} {l : Layout} {pass : Pass} {id : Nat}
    {i : Instruction} (h : Issued g l pass id i) : i.nodeKind? = g.kind? id := by
  obtain ⟨j, hj, hi⟩ := h
  unfold nodeInstruction? at hj
  split at hj <;> cases hj
  all_goals
    rename_i hkind
    rcases hi with rfl | ⟨_, _, rfl⟩
    case inl => exact hkind.symm
    case inr => exact hkind.symm

namespace Machine

open Compile

variable {m : Machine} {g : Graph} {d : Graph.Dependencies} {l : Layout} {passes : List Pass}
  {r : Registry} {c : Context} {batch : Option Nat} {place k : Nat}

-- The instruction of a node stands at a site, right behind the blocks of all sites before it.
theorem position_of_node (hm : Made r c g batch place d l passes m) {i : Instruction}
    (hi : m.instructions[k]? = some i) (hnode : i.opcode.isNode) :
    ∃ site nodes tasks lists before after seen post pass, m.site? l.order k = some site ∧
      m.instructions = .begin nodes tasks lists :: .context l.device :: (before ++ i :: after) ∧
      k = before.length + 2 ∧ l.order = seen ++ site.node :: post ∧
      Laid g l passes (sites l.order site.pass ++ passSites seen site.pass) before ∧
      passes[site.pass]? = some pass ∧ Issued g l pass site.node i := by
  obtain ⟨nodes, blocks, hinstructions, hlaid⟩ := hm.instructions
  -- the instruction is one of the blocks, since the others are not those of nodes
  obtain ⟨k, rfl⟩ : ∃ k', k = k' + 2 := by
    match k with
    | 0 =>
      simp only [hinstructions, List.getElem?_cons_zero] at hi
      cases hi
      cases hnode
    | 1 =>
      simp only [hinstructions, List.getElem?_cons_succ, List.getElem?_cons_zero] at hi
      cases hi
      cases hnode
    | k + 2 => exact ⟨k, rfl⟩
  have hblock : blocks[k]? = some i := by
    simp only [hinstructions, List.getElem?_cons_succ] at hi
    by_cases hlt : k < blocks.length
    case pos => rwa [List.getElem?_append_left hlt] at hi
    case neg =>
      rw [List.getElem?_append_right (Nat.le_of_not_lt hlt)] at hi
      have hmem := List.mem_of_getElem? hi
      cases hending : l.ending <;> simp [hending, Ending.instructions] at hmem
      case blockingStreamOut =>
        subst hmem
        cases hnode
      case barrier =>
        rcases hmem with rfl | rfl <;> cases hnode
  obtain ⟨before, after, rfl, rfl⟩ : ∃ before after, blocks = before ++ i :: after ∧
      before.length = k := by
    obtain ⟨hlt, rfl⟩ := List.getElem?_eq_some_iff.mp hblock
    exact ⟨blocks.take k, blocks.drop (k + 1), by simp, by simp; omega⟩
  obtain ⟨done, site', rest, pass, hsites, hbefore, hpass, hi'⟩ := hlaid.of_isNode rfl hnode
  obtain ⟨_, seen, post, horder, rfl⟩ := sites_split hsites
  have hcount : (m.instructions.take (before.length + 2)).countP (·.opcode.isNode) =
      site'.pass * l.order.length + seen.length := by
    rw [hinstructions, List.take_succ_cons, List.take_succ_cons, List.append_assoc, List.take_left]
    have hlength := hbefore.countP_isNode
    rw [List.length_append, length_sites] at hlength
    simpa [Instruction.opcode, Opcode.isNode, passSites] using hlength
  refine ⟨site', nodes, c.tasks.length, l.lists.lists.length, before, after ++ l.ending.instructions,
    seen, post, pass, site?_eq horder hi hnode hcount, ?_, rfl, horder, hbefore, hpass, hi'⟩
  rw [hinstructions]
  simp

-- The events that some nodes issued in one pass, in the order in which they were issued.
def eventsOf (m : Machine) (order : List Nat) (run : Run) (pass : Nat) (nodes : List Nat) :
    List EventId :=
  (run.events.filter fun x =>
    (m.site? order x.1).any fun site => site.pass = pass ∧ site.node ∈ nodes).map Prod.snd

theorem map_filter_of_forall₂ {α β γ : Type} {R : α → β → Prop} {p : α → Bool} {q : β → Bool}
    {f : α → γ} {h : β → γ} (hR : ∀ {x y}, R x y → p x = q y ∧ f x = h y) {xs : List α} {ys : List β}
    (hall : List.Forall₂ R xs ys) : (xs.filter p).map f = (ys.filter q).map h := by
  induction hall with
  | nil => rfl
  | cons hxy _ ih =>
    have ⟨hp, hf⟩ := hR hxy
    simp only [List.filter_cons, hp]
    split <;> simp [ih, hf]

theorem eventsOf_eq {pass k' pass' : Nat} {nodes seen : List Nat} {log : Log} {run : Run}
    {t : Hosted Context} (h : Ledger m l place k' pass' seen log run t) :
    m.eventsOf l.order run pass nodes =
      (log.filter fun x => x.1.pass = pass ∧ x.1.node ∈ nodes).map Prod.snd := by
  refine map_filter_of_forall₂ (fun ⟨hsite, hevent⟩ => ⟨?_, hevent⟩) h.events
  rw [hsite]
  rfl

-- Each site that is laid out has its place there.
theorem exists_site {nodes tasks lists : Nat} {blocks rest : List Instruction} {ss ss' : List Site}
    {seen post : List Nat} {pass id : Nat}
    (his : m.instructions = .begin nodes tasks lists :: .context l.device :: (blocks ++ rest))
    (horder : l.order = seen ++ id :: post) (hlaid : Laid g l passes ss blocks)
    (hss : ss = sites l.order pass ++ passSites seen pass ++ ⟨pass, id⟩ :: ss') :
    ∃ k < blocks.length + 2, m.site? l.order k = some ⟨pass, id⟩ := by
  rw [hss] at hlaid
  obtain ⟨before, blocks, rfl, hbefore, hblocks⟩ := hlaid.split
  cases hblocks with
  | @cons _ _ i _ js _ hi _ =>
    have hget : m.instructions[before.length + 2]? = some i := by
      simp [his]
    have hcount : (m.instructions.take (before.length + 2)).countP (·.opcode.isNode) =
        pass * l.order.length + seen.length := by
      have hlength := hbefore.countP_isNode
      rw [List.length_append, length_sites] at hlength
      rw [his, List.take_succ_cons, List.take_succ_cons, List.append_assoc, List.take_left]
      simpa [Instruction.opcode, Opcode.isNode, passSites] using hlength
    refine ⟨before.length + 2, ?_, site?_eq horder hget hi.isNode hcount⟩
    simp only [List.length_append, List.length_cons]
    omega

-- Each dependency of a node has its place in front of it, in the same pass.
theorem exists_site_of_dep {nodes tasks lists : Nat} {before after : List Instruction}
    {i : Instruction} {seen post : List Nat} {pass id dep : Nat} (hf : Faithful g d l)
    (his : m.instructions =
      .begin nodes tasks lists :: .context l.device :: (before ++ i :: after))
    (horder : l.order = seen ++ id :: post)
    (hlaid : Laid g l passes (sites l.order pass ++ passSites seen pass) before)
    (hdep : dep ∈ d.of id) : ∃ k < before.length + 2, m.site? l.order k = some ⟨pass, dep⟩ := by
  obtain ⟨seen₁, seen₂, rfl⟩ := List.append_of_mem (hf.ordered.respects seen id post horder dep hdep)
  have horder₁ : l.order = seen₁ ++ dep :: (seen₂ ++ id :: post) := by simp [horder]
  have hsites : sites l.order pass ++ passSites (seen₁ ++ dep :: seen₂) pass =
      sites l.order pass ++ passSites seen₁ pass ++ ⟨pass, dep⟩ :: passSites seen₂ pass := by simp [passSites]
  exact exists_site his horder₁ hlaid hsites

-- Instruction `k`, issued after `run`, hands over one command or none, whatever comes of it. It is the
-- instruction of a node in a pass, and the command waits for exactly the events that the producers of
-- the node issued in the same pass, in the order in which they did.
def WaitsForProducers (m : Machine) (g : Graph) (d : Graph.Dependencies) (order : List Nat) (k : Nat)
    (i : Instruction) (run : Run) (t : Hosted Context) : Prop :=
  ∃ site target, m.site? order k = some site ∧ i.nodeKind? = g.kind? site.node ∧
    run.target = some target ∧
    let producers := d.of site.node
    let expected := m.eventsOf order run site.pass producers
    (∀ p, p ∈ producers ↔ g.Feeds p site.node) ∧
    (∀ p ∈ producers, ∃ k' < k, m.site? order k' = some ⟨site.pass, p⟩) ∧
    expected.Pairwise (fun e e' => e.number < e'.number) ∧
    (m.step k i run).Ends t fun result u =>
      let before := t.queue target.place
      let after := u.queue target.place
      (after.handed = before.handed ++ [expected] ∧ ∀ run', result = .ok run' →
        run'.events = run.events ∨ run'.events = run.events ++ [(k, before.nextEvent)]) ∨
      (after.handed = before.handed ∧ ∀ run', result = .ok run' → run'.events = run.events)

theorem attached_of_mem {s : Hosted Context}
    (hattached : ∀ place ∈ s.part.devices, place < s.platform.channels.length) {device : Nat} :
    ∀ place, s.part.place device = .ok place → place < s.platform.channels.length :=
  fun place hplace => hattached place (List.mem_of_getElem? (Context.place_ok.mp hplace))

-- So it is with every node, wherever an execution has come to.
theorem node_waits_for_producers {config config' : Config} {program : Program} {order : List Nat}
    {s t : Hosted Context} {run : Run} {i : Instruction}
    (hcompile : compile r c g batch config = .ok program)
    (hcreate : Machine.create program config' = .ok m)
    (hd : g.dependencies = .ok d) (horder : g.order d = .ok order)
    (hattached : ∀ place ∈ s.part.devices, place < s.platform.channels.length)
    (hreach : Reaches m 0 (m.instructions.take k) (Run.start m) s run t)
    (hi : m.instructions[k]? = some i) (hnode : i.opcode.isNode) :
    m.WaitsForProducers g d order k i run t := by
  obtain ⟨place, d', l, passes, hm⟩ := made_of_compile hcompile hcreate
  cases hd.symm.trans hm.dependencies
  cases horder.symm.trans hm.order
  have hf := hm.faithful
  obtain ⟨site, nodes, tasks, lists, before, after, seen, post, pass, hsite, his, rfl, hsplit, hlaid,
    hpass, hissued⟩ := position_of_node hm hi hnode
  have htake : m.instructions.take (before.length + 2) =
      [.begin nodes tasks lists, .context l.device] ++ before := by
    rw [his, List.take_succ_cons, List.take_succ_cons, List.take_left]
    rfl
  have hdrop : m.instructions.drop 2 = before ++ i :: after := by rw [his]; rfl
  rw [htake] at hreach
  obtain ⟨r₁, s₁, hhead, hbefore⟩ := hreach.split
  obtain ⟨q, _, _, hstart⟩ := Ledger.start hm his (attached_of_mem hattached) hhead
  have hcarried : Ledger.Carried m g l passes q fun _ _ _ _ _ => True :=
    ⟨fun _ _ _ _ _ _ _ => trivial, fun _ _ => trivial⟩
  obtain ⟨log, hledger, _⟩ := Ledger.run hcarried hf hstart trivial hsplit hlaid
    (hdrop ▸ List.prefix_append _ _) hbefore
  have hexpected : m.eventsOf l.order run site.pass (d.of site.node) =
      (log.filter fun x => x.1.pass = site.pass ∧ x.1.node ∈ d.of site.node).map Prod.snd :=
    eventsOf_eq hledger
  refine ⟨site, _, hsite, hissued.nodeKind?_eq, hledger.target,
    fun p => Graph.Dependencies.mem_of_iff hd, fun p hp => exists_site_of_dep hf his hsplit hlaid hp,
    ?_, ?_⟩
  case refine_1 =>
    rw [hexpected]
    exact (hledger.rising.filter _).map _ fun _ _ h => h
  case refine_2 =>
    have hdevice : ∀ task device wait offset threads,
        i = .launch task device wait offset threads → t.part.place device = .ok q :=
      fun _ _ _ _ _ heq => hissued.device_eq heq ▸ hledger.device
    have hissues := step_issues (k := before.length + 2) (m := m) hnode hledger.target
      hledger.attached hdevice
    have hgives := step_gives (m := m) (k := before.length + 2) (r := run) hnode
    rw [hissued.wait?_eq, hledger.waiting_eq hf hsplit, ← hexpected] at hissues
    -- an event is on record only if it was answered
    have hrecord {run' : Run} {u : Hosted Context}
        (hstep : m.step (before.length + 2) i run t = (.ok run', u)) :
        run'.events = run.events ∨
          ∃ e, run'.last = some e ∧ run'.events = run.events ++ [(before.length + 2, e)] := by
      have ⟨hrecorded, _⟩ := hgives.of_eq hstep
      cases hlast : run'.last with
      | none => exact .inl (by simpa [hlast] using hrecorded.events)
      | some e => exact .inr ⟨e, rfl, by simpa [hlast] using hrecorded.events⟩
    rcases hstep : m.step (before.length + 2) i run t with ⟨result, u⟩
    have houtcome := hissues.of_eq hstep
    rw [Action.Ends, hstep]
    by_cases hquiet : Context.Quiet q t u ∧ ∀ e, result.map Run.last ≠ .ok (some e)
    case pos =>
      refine .inr ⟨congrArg Queue.handed hquiet.1.platform.1, fun run' hrun' => ?_⟩
      cases hrun'
      rcases hrecord hstep with hsame | ⟨e, hlast, _⟩
      case inl => exact hsame
      case inr => exact absurd (congrArg Except.ok hlast) (hquiet.2 e)
    case neg =>
      obtain ⟨_, hhanded, _⟩ := houtcome.resolve_left hquiet
      refine .inl ⟨hhanded.queue.handed_eq, fun run' hrun' => ?_⟩
      cases hrun'
      rcases hrecord hstep with hsame | ⟨e, hlast, hevents⟩
      case inl => exact .inl hsame
      case inr =>
        change Context.Outcome q _ _ t (.ok run'.last) u at houtcome
        rw [hlast] at houtcome
        obtain ⟨_, _, _, rfl, _⟩ := houtcome.of_some
        exact .inr hevents

-- An object of two bytes that is copied to a device and back, one byte in each of two passes.
def roundTripGraph : Graph where
  nodes := [⟨0, [], .context 0⟩, ⟨1, [0], .streamIn 0⟩, ⟨2, [], .dataDependency 1⟩,
    ⟨3, [0, 2], .streamOut 0⟩]

def roundTripStart : Hosted Context where
  platform := {
    registry := (({} : Registry).register (.array .byte) [7, 8]).2
    channels := [{ device := { limits := { computeUnits := 1 }, threadName := "queue" } }] }
  part := { name := "round trip", devices := [0], bindings := [{ object := ⟨⟨1⟩, .array .byte⟩ }] }

def roundTripInstructions : List Instruction :=
  [.begin 2 0 1, .context 0, .streamIn 0 0 1 none, .addDep 0, .streamOut 0 0 1 (some 0),
    .streamIn 0 1 1 none, .addDep 0, .streamOutBlocking 0 1 1 (some 0), .finish]

def roundTripMachine : Machine where
  program := { code := roundTripInstructions.flatMap Instruction.encoding, lists := [[0]] }
  instructions := roundTripInstructions
  config := {}

-- The second stream-out waits for the second stream-in, not for the first.
theorem roundTrip_waits :
    compile roundTripStart.platform.registry roundTripStart.part roundTripGraph (some 1) {} =
        .ok roundTripMachine.program ∧
      Machine.create roundTripMachine.program {} = .ok roundTripMachine ∧
      roundTripGraph.dependencies = .ok ⟨[[], [], [], [1]]⟩ ∧
      roundTripGraph.order ⟨[[], [], [], [1]]⟩ = .ok [1, 3] ∧
      ∃ run t, Reaches roundTripMachine 0 (roundTripInstructions.take 7)
          (Run.start roundTripMachine) roundTripStart run t ∧
        roundTripMachine.WaitsForProducers roundTripGraph ⟨[[], [], [], [1]]⟩ [1, 3] 7
          (.streamOutBlocking 0 1 1 (some 0)) run t := by
  have hcompile : compile roundTripStart.platform.registry roundTripStart.part roundTripGraph
      (some 1) {} = .ok roundTripMachine.program := by decide +kernel
  have hcreate : Machine.create roundTripMachine.program {} = .ok roundTripMachine := by
    decide +kernel
  have hd : roundTripGraph.dependencies = .ok ⟨[[], [], [], [1]]⟩ := by decide
  have horder : roundTripGraph.order ⟨[[], [], [], [1]]⟩ = .ok [1, 3] := by decide
  have hok : (roundTripMachine.steps 0 (roundTripInstructions.take 7) (Run.start roundTripMachine)
      roundTripStart).1.toOption.isSome := by decide +kernel
  rcases hsteps : roundTripMachine.steps 0 (roundTripInstructions.take 7)
    (Run.start roundTripMachine) roundTripStart with ⟨result, t⟩
  rw [hsteps] at hok
  cases result with
  | error => cases hok
  | ok run =>
    have hreach := steps_ok.mp hsteps
    exact ⟨hcompile, hcreate, hd, horder, run, t, hreach,
      node_waits_for_producers hcompile hcreate hd horder (by decide) hreach rfl rfl⟩

end Machine
end Offload
