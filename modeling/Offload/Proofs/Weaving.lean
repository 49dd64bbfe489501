import Offload.Proofs.Provenance

/-!
What a whole sequence of calls leaves behind. No call fails, the nodes are ordered as they were called for, and each
depends on just those that an object of its own was taken from. That is the last writer of the object if it has one; a
stream-in that comes after a writer is passed over.
-/

namespace Offload

namespace Wiring

variable {w w' : Wiring} {calls : List (Step × Nat)} {step : Step} {id : Nat}

-- The tables are those of the calls so far, and so is what each node is fed by.
structure Tracks (calls : List (Step × Nat)) (w : Wiring) : Prop where
  sound        : w.Sound
  instructions : w.graph.instructionNodes = calls.map Prod.snd
  writer       : ∀ h, w.writer? h = Calls.writer? h calls
  streamIn     : ∀ h, w.streamIn? h = Calls.streamIn? h calls
  feeds        : ∀ {pre step id post}, calls = pre ++ (step, id) :: post →
    ∀ p, w.graph.Feeds p id ↔ ∃ h ∈ step.takes, Calls.provider? h pre = some p

theorem Tracks.extend (h : Tracks calls w) (ha : Adds step w id w') : Tracks (calls ++ [(step, id)]) w' := by
  constructor
  case sound => exact ha.sound
  case instructions => rw [ha.instructions, h.instructions, List.map_append, List.map_singleton]
  case writer =>
    intro k
    rw [ha.writer, h.writer]
    exact (Calls.latest?_concat (Step.writes k) calls step id).symm
  case streamIn =>
    intro k
    rw [ha.streamIn, h.streamIn]
    exact (Calls.latest?_concat (Step.streamsIn k) calls step id).symm
  case feeds =>
    intro pre step' id' post heq p
    rcases List.eq_nil_or_concat post with rfl | ⟨post, last, rfl⟩
    case inl =>
      obtain ⟨rfl, hlast⟩ := List.append_inj' heq rfl
      cases hlast
      simp only [ha.feeds, provider?, h.writer, h.streamIn, Calls.provider?]
    case inr =>
      rw [List.concat_eq_append, ← List.cons_append, ← List.append_assoc] at heq
      obtain ⟨hinit, _⟩ := List.append_inj' heq rfl
      have hid : id' ∈ w.graph.instructionNodes := by simp [h.instructions, hinit]
      rw [h.sound.wired.feeds_of_initial ha.nodes (Graph.lt_size_of_mem hid)]
      exact h.feeds hinit p

-- The induction is on the calls that are still to come, and the graph so far is carried along.
theorem mapM_tracks (h : Tracks calls w) (steps : List Step) : ∃ ids w', steps.mapM Wiring.step w = (.ok ids, w') ∧
    ids.length = steps.length ∧ Tracks (calls ++ steps.zip ids) w' := by
  induction steps generalizing calls w with
  | nil => exact ⟨[], w, rfl, rfl, by simpa using h⟩
  | cons s steps ih =>
    obtain ⟨id, w₁, hstep, hadds⟩ := step_adds h.sound s
    obtain ⟨ids, w', hrest, hlength, htracks⟩ := ih (h.extend hadds)
    refine ⟨id :: ids, w', ?_, congrArg Nat.succ hlength, ?_⟩
    case refine_1 =>
      rw [List.mapM_cons, Action.bind_of_ok hstep, Action.bind_of_ok hrest]
      rfl
    case refine_2 => rwa [List.zip_cons_cons, ← List.singleton_append, ← List.append_assoc]

-- The answers are there for whoever asks.
theorem forM_of_mapM {steps : List Step} {ids : List Nat} (h : steps.mapM Wiring.step w = (.ok ids, w')) :
    (steps.forM fun s => discard (Wiring.step s) : Action Wiring Unit) w = (.ok ⟨⟩, w') := by
  induction steps generalizing w ids with
  | nil =>
    cases h
    rfl
  | cons s steps ih =>
    rw [List.mapM_cons] at h
    obtain ⟨id, w₁, hstep, h⟩ := Action.bind_ok.mp h
    obtain ⟨ids', w₂, hrest, h⟩ := Action.bind_ok.mp h
    cases h
    have hfirst : (discard (Wiring.step s) : Action Wiring Unit) w = (.ok ⟨⟩, w₁) := Action.bind_of_ok hstep
    exact (Action.bind_of_ok hfirst).trans (ih hrest)

theorem tracks_start {c : Context} {device : Nat} (h : start c device = .ok w) : Tracks [] w := by
  cases start_ok h
  constructor
  case sound => exact ⟨wired_start device, rfl, nofun, nofun⟩
  case instructions => rfl
  case writer => exact fun k => by simp [writer?, Context.entry?, Calls.writer?, Calls.latest?]
  case streamIn => exact fun k => by simp [streamIn?, Context.entry?, Calls.streamIn?, Calls.latest?]
  case feeds =>
    intro pre step id post heq
    simp at heq

theorem exists_tracks {c : Context} {device : Nat} (h : start c device = .ok w) (steps : List Step) :
    ∃ ids w' d, steps.mapM Wiring.step w = (.ok ids, w') ∧ build c device steps = .ok w' ∧
      ids.length = steps.length ∧ Tracks (steps.zip ids) w' ∧ w'.graph.dependencies = .ok d := by
  obtain ⟨ids, w', hcalls, hlength, htracks⟩ := mapM_tracks (tracks_start h) steps
  obtain ⟨d, hd⟩ := htracks.sound.wired.exists_dependencies
  refine ⟨ids, w', d, hcalls, bind_eq_ok.mpr ⟨w, h, ?_⟩, hlength, htracks, hd⟩
  rw [forM_of_mapM hcalls]
  rfl

-- All that is known of a graph that was built by calls, each of which was answered with the node it added.
structure Woven (steps : List Step) (ids : List Nat) (w : Wiring) (d : Graph.Dependencies) : Prop where
  answers      : ids.length = steps.length
  contexts     : w.graph.contexts = [contextNode]
  earlier      : ∀ {id n}, w.graph.node? id = some n → (∀ input ∈ n.inputs, input < id) ∧
    ∀ producer, n.kind = .dataDependency producer → producer < id
  nodes        : w.graph.instructionNodes = ids
  follows      : w.Follows steps
  dependencies : w.graph.dependencies = .ok d
  order        : w.graph.order d = .ok ids
  providers    : ∀ {pre step id post}, steps.zip ids = pre ++ (step, id) :: post →
    ∀ dep, dep ∈ d.of id ↔ ∃ h ∈ step.takes, Calls.provider? h pre = some dep
  streamIns    : ∀ {id object}, w.graph.kind? id = some (.streamIn object) → d.of id = []

theorem Tracks.answers {steps : List Step} {ids : List Nat} (h : Tracks (steps.zip ids) w)
    (hlength : ids.length = steps.length) : w.graph.instructionNodes = ids := by
  rw [h.instructions]
  exact List.map_snd_zip (Nat.le_of_eq hlength)

-- Building a graph always succeeds, whatever the calls, and the dependencies are those that the calls are for.
theorem calls_woven {c : Context} {device : Nat} (h : start c device = .ok w) (steps : List Step) :
    ∃ ids w' d, steps.mapM Wiring.step w = (.ok ids, w') ∧ build c device steps = .ok w' ∧ w'.Woven steps ids d := by
  obtain ⟨ids, w', d, hcalls, hbuild, hlength, htracks, hd⟩ := exists_tracks h steps
  have hwired := htracks.sound.wired
  have hnodes := htracks.answers hlength
  refine ⟨ids, w', d, hcalls, hbuild, ?_⟩
  constructor
  case answers => exact hlength
  case contexts => exact htracks.sound.contexts
  case earlier => exact fun hn => ⟨hwired.inputs hn, fun p hp => hwired.links (by rw [Graph.kind?, hn, ← hp]; rfl)⟩
  case nodes => exact hnodes
  case follows => exact follows_of_steps (build_ok hbuild)
  case dependencies => exact hd
  case order => rw [hwired.order_of_dependencies hd, hnodes]
  case providers => exact fun hsplit dep => (Graph.Dependencies.mem_of_iff hd).trans (htracks.feeds hsplit dep)
  case streamIns =>
    intro id object hkind
    refine List.eq_nil_iff_forall_not_mem.mpr fun dep hdep => ?_
    exact hwired.not_feeds_streamIn hkind dep ((Graph.Dependencies.mem_of_iff hd).mp hdep)

-- An object that is streamed in, worked on in place, streamed in again and streamed out.
def tank : HostObject :=
  { handle := ⟨1⟩, kind := .array .byte }

def topUp : Task where
  id := "top-up"
  kernel := "increment"
  domain := [2]
  arguments := [⟨tank, .readWrite⟩]

def refill : List Step :=
  [.streamIn tank, .task topUp, .streamIn tank, .streamOut tank]

def refillStart : Wiring where
  context := { name := "refill", devices := [0] }
  graph := { nodes := [⟨0, [], .context 0⟩] }

def refillWiring : Wiring where
  context := {
    name := "refill", devices := [0], tasks := [topUp]
    bindings := [{ object := tank, state := { streamIn := true, streamOut := true } }] }
  graph := { nodes := [⟨0, [], .context 0⟩, ⟨1, [0], .streamIn 0⟩, ⟨2, [0, 1], .task 0⟩, ⟨3, [0], .streamIn 0⟩,
    ⟨4, [], .dataDependency 2⟩, ⟨5, [0, 4], .streamOut 0⟩] }
  writers := [(0, 2)]
  streamIns := [(0, 3), (0, 1)]

theorem refill_woven : start { name := "refill", devices := [0] } 0 = .ok refillStart ∧
    refill.mapM Wiring.step refillStart = (.ok [1, 2, 3, 5], refillWiring) ∧
    ∃ d, refillWiring.Woven refill [1, 2, 3, 5] d := by
  have hstart : start { name := "refill", devices := [0] } 0 = .ok refillStart := by decide
  have hcalls : refill.mapM Wiring.step refillStart = (.ok [1, 2, 3, 5], refillWiring) :=
    Prod.ext (by decide +kernel) (by decide +kernel)
  obtain ⟨ids, w, d, hids, _, hwoven⟩ := calls_woven hstart refill
  cases hcalls.symm.trans hids
  exact ⟨hstart, hcalls, d, hwoven⟩

-- A node is known by the call that was answered with it.
theorem Tracks.call_unique (h : Tracks calls w) {step' : Step} (hcall : (step, id) ∈ calls)
    (hcall' : (step', id) ∈ calls) : step = step' := by
  have hnodup := h.instructions ▸ w.graph.instructionNodes_nodup
  exact congrArg Prod.fst (List.inj_on_of_nodup_map hnodup hcall hcall' rfl)

-- The last supplier of an object is the provider of some object only if it is that of its own.
theorem Tracks.provider_of_supplier (h : Tracks calls w) {pre post : List (Step × Nat)} (hsplit : calls = pre ++ post)
    {k k' : Handle} {supplier : Nat} (hlast : Calls.latest? (Step.supplies k) pre = some supplier)
    (hprovider : Calls.provider? k' pre = some supplier) : Calls.provider? k pre = some supplier := by
  rcases Calls.latest?_narrow (q := Step.writes k) (fun _ hwrites => Bool.or_eq_true_iff.mpr (.inl hwrites)) hlast
    with hwriter | ⟨step, hcall, hsupplies, hnot⟩
  case inl => rw [Calls.provider?, Calls.writer?, hwriter, Option.some_or]
  case inr =>
    obtain ⟨step', hcall', hsupplies'⟩ := Calls.mem_of_provider? hprovider
    have hmem {call : Step × Nat} (hpre : call ∈ pre) : call ∈ calls := hsplit ▸ List.mem_append_left _ hpre
    cases h.call_unique (hmem hcall) (hmem hcall')
    -- a stream-in supplies one object only
    have hsame : k' = k := by
      cases step with
      | streamIn o =>
        simp only [Step.supplies, Step.writes, Step.streamsIn, Bool.false_or, decide_eq_true_eq] at hsupplies hsupplies'
        exact hsupplies'.symm.trans hsupplies
      | task t => simp [Step.streamsIn, hnot] at hsupplies
      | streamOut o => cases hsupplies
    exact hsame ▸ hprovider

-- Whoever takes an object that was supplied waits for its last writer, or for the last supplier if nobody wrote it. So
-- the last supplier itself is waited for unless it is a stream-in behind a writer.
theorem provider_awaited {c : Context} {device : Nat} (h : start c device = .ok w) (steps : List Step) :
    ∃ w' d l, build c device steps = .ok w' ∧ w'.graph.dependencies = .ok d ∧
      Compile.layout w'.graph device = .ok l ∧
      ∀ pre step id post k supplier, steps.zip w'.graph.instructionNodes = pre ++ (step, id) :: post →
        k ∈ step.takes → Calls.latest? (Step.supplies k) pre = some supplier →
        let provider := (Calls.writer? k pre).getD supplier
        provider ∈ d.of id ∧ (supplier ∈ d.of id ↔ supplier = provider) ∧
          ∃ list, l.waits.lookup id = some list ∧ list ∈ l.appends provider := by
  obtain ⟨ids, w', d, _, hbuild, hlength, htracks, hd⟩ := exists_tracks h steps
  have hwired := htracks.sound.wired
  obtain ⟨l, hl⟩ := Compile.exists_layout hd (hwired.order_of_dependencies hd) device
  obtain ⟨d', hd', _, _, hfaithful, _⟩ := Compile.faithful_of_layout hl
  cases hd.symm.trans hd'
  refine ⟨w', d, l, hbuild, hd, hl, ?_⟩
  rw [htracks.answers hlength]
  intro pre step id post k supplier hsplit htakes hlast
  have hof (dep : Nat) : dep ∈ d.of id ↔ ∃ k ∈ step.takes, Calls.provider? k pre = some dep :=
    (Graph.Dependencies.mem_of_iff hd).trans (htracks.feeds hsplit dep)
  have hprovider := Calls.provider?_of_supplier hlast
  have hmem := (hof _).mpr ⟨k, htakes, hprovider⟩
  refine ⟨hmem, ⟨fun hsupplier => ?_, fun heq => heq ▸ hmem⟩, hfaithful.awaits hd hmem⟩
  obtain ⟨k', _, hk'⟩ := (hof supplier).mp hsupplier
  exact Option.some.inj ((htracks.provider_of_supplier hsplit hlast hk').symm.trans hprovider)

theorem build_refill : build { name := "refill", devices := [0] } 0 refill = .ok refillWiring := by decide +kernel

-- The task is there for the first stream-in, but the stream-out for the task, as if there were no second one.
theorem refill_awaited : start { name := "refill", devices := [0] } 0 = .ok refillStart ∧
    ∃ d l, refillWiring.graph.dependencies = .ok d ∧ Compile.layout refillWiring.graph 0 = .ok l ∧
      1 ∈ d.of 2 ∧ 2 ∈ d.of 5 ∧ 3 ∉ d.of 5 ∧ ∃ list, l.waits.lookup 5 = some list ∧ list ∈ l.appends 2 := by
  have hstart : start { name := "refill", devices := [0] } 0 = .ok refillStart := by decide
  obtain ⟨w, d, l, hbuild, hd, hl, hall⟩ := provider_awaited hstart refill
  cases build_refill.symm.trans hbuild
  have hnodes : refill.zip refillWiring.graph.instructionNodes =
      [(.streamIn tank, 1), (.task topUp, 2), (.streamIn tank, 3), (.streamOut tank, 5)] := by decide
  have htask := hall [(.streamIn tank, 1)] _ _ _ tank.handle 1 hnodes (by decide) (by decide)
  have hout := hall [(.streamIn tank, 1), (.task topUp, 2), (.streamIn tank, 3)] _ _ _ tank.handle 3 hnodes
    (by decide) (by decide)
  exact ⟨hstart, d, l, hd, hl, htask.1, hout.1, fun h => absurd (hout.2.1.mp h) (by decide), hout.2.2⟩

-- So it is not always the last supplier that is waited for.
theorem refill_passes_over : ¬∀ {c : Context} {device : Nat} {steps : List Step} {w : Wiring} {d : Graph.Dependencies},
    build c device steps = .ok w → w.graph.dependencies = .ok d →
      ∀ pre step id post k supplier, steps.zip w.graph.instructionNodes = pre ++ (step, id) :: post →
        k ∈ step.takes → Calls.latest? (Step.supplies k) pre = some supplier → supplier ∈ d.of id := by
  intro h
  have hd : refillWiring.graph.dependencies = .ok ⟨[[], [], [1], [], [], [2]]⟩ := by decide
  have hnodes : refill.zip refillWiring.graph.instructionNodes =
      [(.streamIn tank, 1), (.task topUp, 2), (.streamIn tank, 3)] ++ (.streamOut tank, 5) :: [] := by decide
  have hlast : Calls.latest? (Step.supplies tank.handle)
      [(.streamIn tank, 1), (.task topUp, 2), (.streamIn tank, 3)] = some 3 := by decide
  have hmem := h build_refill hd _ _ _ _ _ _ hnodes (by decide) hlast
  revert hmem
  decide

end Wiring
end Offload
