import Mathlib.Data.List.Induction
import Offload.Proofs.Await
import Offload.Proofs.Built
import Offload.Schedule

/-!
From the steps of a schedule to a machine that takes them: compiling succeeds, if it does, with a machine
whose every execution amounts to the steps on the windows of the planned passes.
-/

namespace Offload

open Compile (Made sites passSites)

-- What there is before anything was done with a schedule.
def World.fresh (p : Platform) : World where
  host := p.registry.bytes
  copies := fun _ => none

def Platform.setup (p : Platform) (place : Nat) (config : Config) : Setup where
  kernels := (p.channel place).device.kernels
  limits := (p.channel place).device.limits
  tuning := config.tuning

-- The steps in each pass, as the operands of the program have them.
def Pass.work (passes : List Pass) (steps : List Step) : List (Pass × Step) :=
  passes.flatMap fun p => steps.map (p.wrapped, ·)

theorem Pass.work_alike {steps steps' : List Step} (h : List.Forall₂ Step.Alike steps steps')
    (passes : List Pass) : List.Forall₂ (fun x y => x.1 = y.1 ∧ x.2.Alike y.2)
      (work passes steps) (work passes steps') := by
  induction passes with
  | nil => exact .nil
  | cons p passes ih =>
    refine List.rel_append ?_ ih
    rw [List.forall₂_map_left_iff, List.forall₂_map_right_iff]
    exact h.imp fun _ _ halike => ⟨rfl, halike⟩

namespace Bench

variable {b : Bench} {g : Graph}

theorem flatMap_range {α β : Type} {f : Nat → List β} {g : α → List β} {as : List α}
    (h : ∀ i a, as[i]? = some a → f i = g a) : (List.range as.length).flatMap f = as.flatMap g := by
  induction as using List.reverseRecOn with
  | nil => rfl
  | append_singleton as a ih =>
    have hlast : f as.length = g a := h _ _ (by simp)
    have hinit := ih fun i a hi => h i a (WaitLists.getElem?_of_prefix (List.prefix_append _ _) hi)
    rw [List.length_append, List.length_singleton, List.range_succ, List.flatMap_append,
      List.flatMap_append, List.flatMap_singleton, List.flatMap_singleton, hinit, hlast]

-- Pass by pass, the sites are the steps that the nodes stand for.
theorem work_eq (b : Bench) (g : Graph) (order : List Nat) (passes : List Pass) :
    (sites order passes.length).filterMap (b.work? g passes) =
      Pass.work passes (order.filterMap (b.step? g)) := by
  rw [sites, List.filterMap_flatMap]
  refine flatMap_range fun i p hp => ?_
  rw [passSites, List.filterMap_map, List.map_filterMap]
  refine List.filterMap_congr fun id _ => ?_
  simp only [Function.comp_apply, work?, hp]
  cases b.step? g id <;> rfl

end Bench

-- Every execution amounts to the steps on the windows of the passes.
def Machine.Carries (b : Bench) (m : Machine) (u : Setup) (passes : List Pass) (steps : List Step) :
    Prop :=
  ∀ s, Intact b s → m.execute.Ends s fun result t => Context.Granted result →
    Machine.Performed b ((s.world b.place).windows u (Pass.work passes steps)) result t

-- A context that holds no copies yet relies on a device with a sound memory and nothing else.
theorem Intact.fresh {b : Bench} {s : Hosted Context} (hdevices : s.part.devices[b.index]? = some b.place)
    (hattached : b.place < s.platform.channels.length)
    (hkernels : (s.device b.place).kernels = b.kernels) (hlimits : (s.device b.place).limits = b.limits)
    (hobjects : s.part.objects = b.objects) (htasks : s.part.tasks = b.tasks)
    (hactive : s.part.active = none) (hfound : s.part.kernels = [])
    (hsound : (s.device b.place).memory.Sound) (hempty : s.part.Empty) : Intact b s where
  devices := hdevices
  attached := hattached
  kernels := hkernels
  limits := hlimits
  objects := hobjects
  tasks := htasks
  active device h := by
    rw [hactive] at h
    cases h
  found h := by
    rw [hfound] at h
    cases h
  sound := hsound
  sized hst hid := by cases (hempty.buffer_eq_none hst).symm.trans hid
  apart {h _ _} hid _ := by cases (hempty.buffer?_eq_none h).symm.trans hid

namespace Schedule

open Context (Granted granted_ok)

variable {p : Platform} {name : String} {place : Nat} {config : Config} {steps : List Step}
  {batch : Option Nat} {program : Program} {s t : Hosted Schedule}

-- Declares the steps and compiles them, under settings of its own.
def prepare (config : Config) (steps : List Step) (batch : Option Nat) : On Program := do
  setConfig config
  steps.forM push
  compile batch

-- Executes the schedule and waits for the execution.
def run : On Unit := do
  let e ← execute
  Hosted.onPiece (fun _ => e) (fun s _ => s) Execution.wait

def inner (s : Hosted Schedule) : Hosted Context where
  platform := s.platform
  part := s.part.context

theorem pushes_eq (hgraph : s.part.graph = none) : (steps.forM push) s =
    (.ok ⟨⟩, { s with part := { s.part with steps := s.part.steps ++ steps } }) := by
  induction steps generalizing s with
  | nil =>
    rw [List.append_nil]
    rfl
  | cons step steps ih =>
    have hpush : push step s =
        (.ok ⟨⟩, { s with part := { s.part with steps := s.part.steps ++ [step] } }) := by
      unfold push
      rw [Action.bind_of_ok (Action.get_apply s)]
      rw [if_neg (by simp [hgraph])]
      rfl
    have hrest := ih (s := { s with part := { s.part with steps := s.part.steps ++ [step] } }) hgraph
    rw [List.append_assoc, List.singleton_append] at hrest
    exact (Action.bind_of_ok hpush).trans hrest

theorem compile_ok (hgraph : s.part.graph = none) (h : compile batch s = (.ok program, t)) :
    ∃ w machine, Wiring.build s.part.context s.part.device s.part.steps = .ok w ∧
      Offload.compile s.platform.registry w.context w.graph batch s.part.config = .ok program ∧
      Machine.create program s.part.config = .ok machine ∧
      t = { s with part := { s.part with
        context := w.context
        graph := some w.graph
        machine := some { machine with counted := true } } } := by
  unfold compile at h
  obtain ⟨graph, s₁, hbuilt, h⟩ := Action.bind_ok.mp h
  obtain ⟨w, hbuild, rfl, rfl⟩ : ∃ w, Wiring.build s.part.context s.part.device s.part.steps = .ok w ∧
      graph = w.graph ∧
      s₁ = { s with part := { s.part with context := w.context, graph := some w.graph } } := by
    unfold builtGraph at hbuilt
    obtain ⟨_, _, hget, hbuilt⟩ := Action.bind_ok.mp hbuilt
    cases hget
    rw [hgraph] at hbuilt
    obtain ⟨w, _, hlift, hbuilt⟩ := Action.bind_ok.mp hbuilt
    obtain ⟨hbuild, rfl⟩ := Action.lift_eq_ok.mp hlift
    cases hbuilt
    exact ⟨w, hbuild, rfl, rfl⟩
  obtain ⟨_, _, hget, h⟩ := Action.bind_ok.mp h
  cases hget
  obtain ⟨_, s₂, hlift, h⟩ := Action.bind_ok.mp h
  obtain ⟨hcompile, rfl⟩ := Action.lift_eq_ok.mp hlift
  obtain ⟨machine, s₃, hlift', h⟩ := Action.bind_ok.mp h
  obtain ⟨hcreate, rfl⟩ := Action.lift_eq_ok.mp hlift'
  cases h
  exact ⟨w, machine, hbuild, hcompile, hcreate, rfl⟩

theorem prepare_ok (h : prepare config steps batch { platform := p, part := create p name place } =
      (.ok program, t)) :
    ∃ w machine, Wiring.build { name, devices := [place] } 0 steps = .ok w ∧
      Offload.compile p.registry w.context w.graph batch config = .ok program ∧
      Machine.create program config = .ok machine ∧
      t.platform = p ∧ t.part.context = w.context ∧
      t.part.machine = some { machine with counted := true } := by
  unfold prepare at h
  obtain ⟨_, s₁, hconfig, h⟩ := Action.bind_ok.mp h
  obtain ⟨_, s₂, hpushes, h⟩ := Action.bind_ok.mp h
  have hs₁ : s₁ = { platform := p, part := { create p name place with config, machine := none } } := by
    unfold setConfig at hconfig
    obtain ⟨_, _, hvalid, hconfig⟩ := Action.bind_ok.mp hconfig
    obtain ⟨_, rfl⟩ := Action.lift_eq_ok.mp hvalid
    cases hconfig
    rfl
  subst hs₁
  rw [pushes_eq rfl] at hpushes
  cases hpushes
  obtain ⟨w, machine, hbuild, hcompile, hcreate, rfl⟩ := compile_ok rfl h
  exact ⟨w, machine, hbuild, hcompile, hcreate, rfl, rfl, rfl⟩

-- What compiling gives: a context without copies, and a machine that carries the steps out.
theorem prepare_carries (hplace : place < p.channels.length)
    (hmemory : (p.channel place).device.memory.Reached)
    (happart : ∀ task, .task task ∈ steps → task.Apart)
    (hscalars : ∀ step ∈ steps, ∀ o ∈ step.objects, o.isScalar →
      config.benchmarkingMode ∧ batch = none)
    (h : prepare config steps batch { platform := p, part := create p name place } = (.ok program, t)) :
    ∃ b m passes, t.part.machine = some m ∧ Intact b (inner t) ∧ (inner t).world b.place = .fresh p ∧
      (∀ o ∈ t.part.context.objects, ∃ step ∈ steps, o ∈ step.objects) ∧
      Pass.plan p.registry t.part.context batch = .ok passes ∧
      m.Carries b (p.setup place config) passes steps := by
  obtain ⟨w, machine, hbuild, hcompile, hcreate, hplatform, hcontext, hmachine⟩ := prepare_ok h
  obtain ⟨q, d, l, passes, hmade⟩ := Compile.made_of_compile hcompile hcreate
  obtain ⟨_, hconfig, _⟩ := Compile.create_ok hcreate
  have htraced := Wiring.traced_of_build rfl rfl hbuild
  have hdevices : w.context.devices = [place] := htraced.devices
  have hdevice : l.device = 0 := by
    have hget := Context.place_ok.mp hmade.place
    rw [hdevices] at hget
    have hlt := (List.getElem?_eq_some_iff.mp hget).1
    rw [List.length_singleton] at hlt
    omega
  let b : Bench := {
    place
    index := 0
    kernels := (p.channel place).device.kernels
    limits := (p.channel place).device.limits
    objects := w.context.objects
    tasks := w.context.tasks
    distinct := htraced.distinct }
  have ⟨hsteps, halike⟩ := htraced.steps (b := b) rfl rfl
  have horder := Wiring.order_eq hbuild hmade.dependencies hmade.order
  have hmade : Made p.registry w.context w.graph batch q d l passes { machine with counted := true } :=
    ⟨hmade.device, hmade.place, hmade.dependencies, hmade.order, hmade.faithful, hmade.ending, hmade.plan,
      hmade.lists, hmade.instructions⟩
  have hhosts : b.Hosts w.graph l passes { machine with counted := true } := by
    constructor
    case device => exact hdevice
    case steps => exact horder ▸ hsteps
    case tasks =>
      intro task htask
      have ⟨hstep, hbound⟩ := htraced.tasks task htask
      exact ⟨hbound, happart task hstep⟩
    case scalars =>
      intro pass hpass o ho hscalar
      obtain ⟨step, hstep, ho⟩ := htraced.objects o ho
      obtain ⟨hmode, rfl⟩ := hscalars step hstep o ho hscalar
      cases hmade.plan
      rw [hconfig, List.mem_singleton.mp hpass]
      exact ⟨hmode, rfl⟩
  have hinner : inner t = { platform := p, part := w.context } := by rw [inner, hplatform, hcontext]
  refine ⟨b, _, passes, hmachine, ?_, ?_, hcontext ▸ htraced.objects, hcontext ▸ hmade.plan, fun s hi => ?_⟩
  case refine_1 =>
    rw [hinner]
    exact .fresh (by rw [hdevices]; rfl) hplace rfl rfl rfl rfl htraced.active htraced.kernels
      hmemory.sound htraced.empty
  case refine_2 =>
    rw [hinner]
    exact World.ext rfl (funext fun h => Intact.copies_of_none (htraced.empty.buffer?_eq_none h))
  case refine_3 =>
    have hperforms := Machine.execute_performs hmade hhosts hi (Nat.le_refl _)
    rw [b.work_eq, horder, World.windows_of_alike (Pass.work_alike halike passes)] at hperforms
    have hsetup : b.setup machine.config.tuning = p.setup place config := by
      rw [hconfig]
      rfl
    rwa [← hsetup]

section

variable {b : Bench} {m : Machine} {u : Setup} {passes : List Pass}

theorem execute_eq (hmachine : s.part.machine = some m) : execute s =
    ((m.execute (inner s)).1, {
      platform := (m.execute (inner s)).2.platform
      part := { s.part with context := (m.execute (inner s)).2.part } }) := by
  have hcall : execute s = onContext m.execute s := by
    unfold execute
    rw [Action.bind_of_ok (Action.get_apply s), hmachine]
    simp only [Option.isNone_some, Bool.false_eq_true, if_false]
    refine (Action.bind_of_ok (Action.get_apply s)).trans ?_
    rw [hmachine]
  rw [hcall]
  rfl

-- Where there is no device, no event is on record.
theorem attached_of_status? {v : Hosted Context} {place : Nat} {e : EventId} {status : EventStatus}
    (h : (v.queue place).status? e = some status) : place < v.platform.channels.length := by
  refine Nat.lt_of_not_le fun hle => ?_
  have hblank : v.platform.channel place = Platform.blank := by
    rw [Platform.channel, List.getD_eq_getElem?_getD, List.getElem?_eq_none hle, Option.getD_none]
  rw [Hosted.queue, hblank] at h
  cases h

-- The schedule can go on, from what its context and device amount to.
structure Stands (b : Bench) (m : Machine) (w : World) (s : Hosted Schedule) : Prop where
  machine : s.part.machine = some m
  intact  : Intact b (inner s)
  world   : (inner s).world b.place = w

-- How a run is to end, given how the steps do.
def Ran (b : Bench) (m : Machine) (outcome : Except Stop Unit × World) (result : Except Error Unit)
    (t : Hosted Schedule) : Prop :=
  match outcome with
  | (.ok _, w) => Stands b m w t ∧ result = .ok ⟨⟩
  | (.error (.nothingToRead h), w) => Stands b m w t ∧
    ∃ e, result = .error e ∧ e.root = .config (.nothingToRead h)
  | (.error .failed, _) => ∃ e, result = .error e

theorem run_ends (hm : m.Carries b u passes steps) (hmachine : s.part.machine = some m)
    (hintact : Intact b (inner s)) : run.Ends s fun result t => Granted result →
      Ran b m (((inner s).world b.place).windows u (Pass.work passes steps)) result t := by
  have hexecute := execute_eq hmachine
  have hperformed := hm (inner s) hintact
  rcases hrun : m.execute (inner s) with ⟨result, v⟩
  have hperformed := hperformed.of_eq hrun
  rw [hrun] at hexecute
  unfold run
  generalize ((inner s).world b.place).windows u (Pass.work passes steps) = outcome at hperformed ⊢
  cases result with
  | error e =>
    refine Action.Ends.bind_of_error hexecute fun hgranted => ?_
    match outcome, hperformed hgranted.of_error with
    | (.ok _, _), ⟨_, _, _, herror, _⟩ => cases herror
    | (.error .failed, _), _ => exact ⟨e, rfl⟩
    | (.error (.nothingToRead _), _), ⟨hintact', hworld, _, rfl, hroot⟩ =>
      exact ⟨⟨hmachine, hintact', hworld⟩, e, rfl, hroot⟩
  | ok e =>
    refine Action.Ends.bind_of_ok hexecute ?_
    have hwait (htarget : e.target = { index := b.index, place := b.place })
        (hattached : b.place < v.platform.channels.length) :=
      Execution.wait_ends (s := { platform := v.platform, part := e })
        (congrArg Target.place htarget) hattached
    rcases hawait : Execution.wait { platform := v.platform, part := e } with ⟨result, t⟩
    rw [Action.Ends, Hosted.onPiece, hawait]
    intro _
    have houtcome := hperformed (granted_ok e)
    rcases outcome with ⟨(_ | _) | _, _⟩
    case nothingToRead =>
      obtain ⟨_, _, _, herror, _⟩ := houtcome
      cases herror
    case ok =>
      obtain ⟨hintact', hworld, _, hended, htarget, hcomplete⟩ := houtcome
      cases hended
      obtain ⟨hsame, hok, _⟩ := (hwait htarget hintact'.attached).of_eq hawait
      obtain ⟨hintact'', hworld'⟩ := hsame.intact hintact'
      exact ⟨⟨hmachine, hintact'', hworld'.trans hworld⟩, hok hcomplete⟩
    case failed =>
      obtain ⟨htarget, x, hx, fault, hfault⟩ := houtcome e rfl
      obtain ⟨_, _, hnone⟩ := (hwait htarget (attached_of_status? hfault)).of_eq hawait
      cases result with
      | ok => exact absurd hfault (hnone rfl x hx fault)
      | error e' => exact ⟨e', rfl⟩

end

end Schedule
end Offload
