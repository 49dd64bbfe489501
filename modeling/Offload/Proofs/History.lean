import Offload.Proofs.Neighbours
import Offload.Proofs.Prepare

/-!
Schedules have no memory of what was done with them. Whatever was asked of one before, and whatever came of it, what
it compiles to is a matter of the steps that it has by now and of the settings that are in force.
-/

namespace Offload

open Context (Schooled)

-- The name of a context is for messages about its devices.
def Context.renamed (name : String) (c : Context) : Context :=
  { c with name }

theorem Context.bind_renamed (c : Context) (name : String) (o : HostObject) :
    (c.renamed name).bind o = ((c.bind o).1, (c.bind o).2.renamed name) := by
  have hindex : (c.renamed name).objectIndex? o.handle = c.objectIndex? o.handle := rfl
  unfold bind
  rw [hindex]
  split <;> rfl

theorem Context.bindAll_renamed (c : Context) (name : String) (objects : List HostObject) :
    (c.renamed name).bindAll objects = (c.bindAll objects).renamed name := by
  unfold bindAll
  induction objects generalizing c with
  | nil => rfl
  | cons o objects ih => rw [List.foldl_cons, List.foldl_cons, bind_renamed, ih]

theorem Context.addTask_renamed (c : Context) (name : String) (t : Task) :
    (c.renamed name).addTask t = ((c.addTask t).1, (c.addTask t).2.renamed name) := by
  unfold addTask
  rw [bindAll_renamed]
  rfl

namespace Wiring

variable {w w' : Wiring} {c c' : Context}

def renamed (name : String) (w : Wiring) : Wiring :=
  { w with context := w.context.renamed name }

variable (name : String)

theorem addNode_eq (kind : NodeKind) (inputs : List Nat) (w : Wiring) :
    addNode kind inputs w = match w.graph.add kind inputs with
      | .error e => (.error e, w)
      | .ok g => (.ok w.graph.size, { w with graph := g }) := by
  refine (Action.bind_of_ok (Action.get_apply w)).trans ?_
  cases w.graph.add kind inputs with
  | error e => exact Action.bind_of_error (Action.lift_apply _ w)
  | ok g => exact Action.bind_of_ok (Action.lift_apply _ w)

theorem ignores_addNode (kind : NodeKind) (inputs : List Nat) : (addNode kind inputs).Ignores (renamed name) w := by
  have hgraph : (w.renamed name).graph = w.graph := rfl
  unfold Action.Ignores
  rw [addNode_eq, addNode_eq, hgraph]
  cases w.graph.add kind inputs <;> rfl

theorem ignores_bind (o : HostObject) : (bind o).Ignores (renamed name) w := by
  have hbind : (w.renamed name).context.bind o = _ := w.context.bind_renamed name o
  change (Except.ok ((w.renamed name).context.bind o).1, ({ w.renamed name with
    context := ((w.renamed name).context.bind o).2 } : Wiring)) = _
  rw [hbind]
  rfl

theorem ignores_source (object : Nat) : (source object).Ignores (renamed name) w := by
  have hwriters : (w.renamed name).writers = w.writers := rfl
  refine .bind_get ?_
  rw [hwriters]
  cases w.writers.lookup object with
  | none => rfl
  | some writer => exact Action.Ignores.bind (ignores_addNode name _ _) fun _ _ => rfl

theorem ignores_argumentSources (arguments : List Argument) (inputs : List Nat) :
    (argumentSources arguments inputs).Ignores (renamed name) w := by
  induction arguments generalizing w inputs with
  | nil => rfl
  | cons a arguments ih =>
    refine .bind (ignores_bind name _) fun index w => .bind (ignores_source name _) fun found w => ?_
    cases found with
    | none => exact ih _
    | some node => exact ih _

theorem ignores_step (step : Step) : (Wiring.step step).Ignores (renamed name) w := by
  cases step with
  | streamIn o =>
    exact .bind (ignores_bind name o) fun _ _ => .bind rfl fun _ _ => .bind (ignores_addNode name _ _) fun _ _ =>
      .bind rfl fun _ _ => rfl
  | task t =>
    have hrest : (do
        let inputs ← argumentSources t.arguments [contextNode]
        let node ← addNode (.task (w.context.addTask t).1) inputs
        modify fun w => { w with writers := (written w.context t).map (·, node) ++ w.writers }
        return node : Action Wiring Nat).Ignores (renamed name) { w with context := (w.context.addTask t).2 } :=
      .bind (ignores_argumentSources name _ _) fun _ _ => .bind (ignores_addNode name _ _) fun _ _ =>
        .bind rfl fun _ _ => rfl
    have hadd : (w.renamed name).context.addTask t = _ := w.context.addTask_renamed name t
    refine .bind_get ?_
    dsimp only
    rw [hadd]
    exact hrest
  | streamOut o =>
    refine .bind (ignores_bind name o) fun _ _ => .bind rfl fun _ _ => .bind (ignores_source name _)
      fun found _ => ?_
    cases found with
    | none => exact ignores_addNode name _ _
    | some node => exact ignores_addNode name _ _

theorem ignores_steps (steps : List Step) :
    (steps.forM fun s => discard (step s) : Action Wiring Unit).Ignores (renamed name) w := by
  induction steps generalizing w with
  | nil => rfl
  | cons s steps ih => exact .bind (.bind (ignores_step name s) fun _ _ => rfl) fun _ _ => ih

-- What steps are wired into is the same under any name.
theorem build_renamed {c : Context} {device : Nat} {steps : List Step} (h : build c device steps = .ok w) :
    build (c.renamed name) device steps = .ok (w.renamed name) := by
  obtain ⟨w₀, hstart, -⟩ := bind_eq_ok.mp h
  obtain ⟨place, hplace, -⟩ := bind_eq_ok.mp hstart
  have hdevice := Context.place_ok.mp hplace
  have hstart' : start (c.renamed name) device = .ok (w₀.renamed name) := by
    rw [start_ok hstart, start, (Context.place_ok (c := c.renamed name)).mpr hdevice]
    rfl
  have hsteps : _ = _ := ignores_steps name steps (w := w₀)
  rw [start_ok hstart, build_ok h, ← start_ok hstart] at hsteps
  refine bind_eq_ok.mpr ⟨_, hstart', ?_⟩
  rw [hsteps]
  rfl

end Wiring

-- All that counts is what is in the tables, and how long the objects are.
theorem compile_of_tables {r : Registry} {c c' : Context} (hdevices : c.devices = c'.devices)
    (htasks : c.tasks = c'.tasks) (hobjects : c.objects = c'.objects) {g : Graph} {batch : Option Nat}
    {config : Config} {program : Program} (h : compile r c g batch config = .ok program) :
    compile r c' g batch config = .ok program := by
  have hbindings : List.Forall₂ (fun b b' => b.object = b'.object ∧
      r.byteLength b.object.handle = r.byteLength b.object.handle) c.bindings c'.bindings := by
    have hrefl : List.Forall₂ (· = ·) c.objects c'.objects := hobjects ▸ List.forall₂_refl _
    exact (List.forall₂_map_left_iff.mp (List.forall₂_map_right_iff.mp hrefl)).imp fun _ _ hb => ⟨hb, rfl⟩
  obtain ⟨device, hdevice, h⟩ := bind_eq_ok.mp h
  obtain ⟨place, hplace, h⟩ := bind_eq_ok.mp h
  have hplace := Context.place_ok.mp hplace
  refine bind_eq_ok.mpr ⟨device, hdevice, bind_eq_ok.mpr ⟨place, Context.place_ok.mpr (hdevices ▸ hplace), ?_⟩⟩
  rwa [← htasks, ← Pass.plan_congr hbindings]

-- What may be asked of a schedule. In between, others may do anything on the platform.
inductive Demand
  | push (step : Step)
  | configure (config : Config)
  | compile (batch : Option Nat)
  | execute
  | wait (handle : Nat)
  | sync (objects : List HostObject)
  | meanwhile (p : Platform)

namespace Demand

def step? : Demand → Option Step
  | .push step => some step
  | _ => none

-- The steps that were added, in their order.
def declared (demands : List Demand) : List Step :=
  demands.filterMap step?

-- Settings that are not valid are turned down.
def settings (config : Config) : Demand → Config
  | .configure config' => if config'.validate.toOption.isSome then config' else config
  | _ => config

theorem settings_of_valid {config' : Config} (h : config'.validate = .ok ⟨⟩) (config : Config) :
    settings config (.configure config') = config' := by
  simp [settings, h, Except.toOption]

theorem settings_of_invalid {config' : Config} {e : Error} (h : config'.validate = .error e) (config : Config) :
    settings config (.configure config') = config := by
  simp [settings, h, Except.toOption]

-- The settings that were chosen last, or else those from the start.
def inForce (config : Config) (demands : List Demand) : Config :=
  demands.foldl settings config

end Demand

namespace Neighbour

def comply : Demand → On Unit
  | .push step => onSchedule (Schedule.push step)
  | .configure config => onSchedule (Schedule.setConfig config)
  | .compile batch => discard (take (.compile batch))
  | .execute => discard (take .execute)
  | .wait handle => discard (take (.wait handle))
  | .sync objects => discard (take (.sync objects))
  | .meanwhile p => modify fun s => { s with platform := p }

-- What becomes of it, whether or not the single demands are met.
def complyAll (demands : List Demand) (s : Hosted Neighbour) : Hosted Neighbour :=
  demands.foldl (fun s demand => (comply demand s).2) s

end Neighbour

namespace Schedule

open Demand (declared inForce)

variable {place : Nat} {steps : List Step} {config : Config} {s t : Hosted Schedule} {program : Program}

-- The steps are as declared, and whatever they were wired into is still what they would be wired into now.
structure Recalls (place : Nat) (steps : List Step) (config : Config) (s : Schedule) : Prop where
  declares : s.steps = steps
  heeds    : s.config = config
  device   : s.device = 0
  devices  : s.context.devices = [place]
  wired    : ∀ g, s.graph = some g → ∃ name w, Wiring.build { name, devices := [place] } 0 steps = .ok w ∧
    w.graph = g ∧ w.context.tasks = s.context.tasks ∧ w.context.objects = s.context.objects
  blank    : s.graph = none → s.machine = none ∧ s.context = { name := s.context.name, devices := [place] }

-- What a program is made of.
def Compiles (r : Registry) (place : Nat) (steps : List Step) (config : Config) (batch : Option Nat)
    (program : Program) : Prop :=
  ∃ name w machine, Wiring.build { name, devices := [place] } 0 steps = .ok w ∧
    Offload.compile r w.context w.graph batch config = .ok program ∧ Machine.create program config = .ok machine

theorem Compiles.unique {r : Registry} {batch : Option Nat} {program program' : Program}
    (h : Compiles r place steps config batch program) (h' : Compiles r place steps config batch program') :
    program = program' := by
  obtain ⟨name, w, _, hw, hcompile, -⟩ := h
  obtain ⟨name', w', _, hw', hcompile', -⟩ := h'
  cases (Wiring.build_renamed name' hw).symm.trans hw'
  have hrenamed : Offload.compile r (w.context.renamed name') w.graph batch config = .ok program := by
    refine compile_of_tables (c := w.context) ?_ ?_ ?_ hcompile <;> rfl
  exact Except.ok.inj (hrenamed.symm.trans hcompile')

namespace Recalls

theorem create (p : Platform) (name : String) (place : Nat) :
    (Schedule.create p name place).Recalls place [] p.config :=
  ⟨rfl, rfl, rfl, rfl, nofun, fun _ => ⟨rfl, rfl⟩⟩

-- Every task is there once.
theorem tasks (h : s.part.Recalls place steps config) {g : Graph} (hg : s.part.graph = some g) :
    s.part.context.tasks = steps.filterMap Step.task? := by
  obtain ⟨name, w, hw, -, htasks, -⟩ := h.wired g hg
  rw [← htasks, Wiring.tasks_of_build hw, List.nil_append]

theorem builtGraph (h : s.part.Recalls place steps config) :
    Schedule.builtGraph.Ends s fun result t => t.part.Recalls place steps config ∧ t.platform = s.platform ∧
      t.part.machine = s.part.machine ∧ match result with
      | .ok g => t.part.graph = some g
      | .error _ => ∀ name w, Wiring.build { name, devices := [place] } 0 steps ≠ .ok w := by
  unfold Schedule.builtGraph
  refine Action.Ends.bind_get ?_
  dsimp only
  cases hgraph : s.part.graph with
  | some g => exact ⟨h, rfl, rfl, hgraph⟩
  | none =>
    obtain ⟨hmachine, hcontext⟩ := h.blank hgraph
    have hbuild : Wiring.build s.part.context s.part.device s.part.steps =
        Wiring.build { name := s.part.context.name, devices := [place] } 0 steps := by
      rw [h.device, h.declares, ← hcontext]
    refine Action.Ends.bind_lift (fun w hw => ?_) fun e he => ?_
    case refine_1 =>
      have hw := hbuild.symm.trans hw
      have htraced := Wiring.traced_of_build rfl rfl hw
      exact Action.Ends.bind_modify ⟨⟨h.declares, h.heeds, h.device, htraced.devices,
        fun g hg => ⟨_, w, hw, Option.some.inj hg, rfl, rfl⟩, nofun⟩, rfl, rfl, rfl⟩
    case refine_2 =>
      refine ⟨h, rfl, rfl, fun name w hw => ?_⟩
      have hother := Wiring.build_renamed s.part.context.name hw
      cases hother.symm.trans (hbuild.symm.trans he)

-- Any name serves, and so do the tables as they are by now.
theorem compiles_iff (h : s.part.Recalls place steps config) {g : Graph} (hg : s.part.graph = some g) (r : Registry)
    (batch : Option Nat) (program : Program) : Compiles r place steps config batch program ↔
      Offload.compile r s.part.context g batch config = .ok program ∧
        ∃ machine, Machine.create program config = .ok machine := by
  obtain ⟨name, w, hw, rfl, htasks, hobjects⟩ := h.wired g hg
  have hdevices : w.context.devices = s.part.context.devices :=
    (Wiring.traced_of_build rfl rfl hw).devices.trans h.devices.symm
  constructor
  case mp =>
    intro ⟨name', w', machine, hw', hcompile, hcreate⟩
    cases (Wiring.build_renamed name hw').symm.trans hw
    exact ⟨compile_of_tables (c := w'.context) hdevices htasks hobjects hcompile, machine, hcreate⟩
  case mpr =>
    intro ⟨hcompile, machine, hcreate⟩
    exact ⟨name, w, machine, hw, compile_of_tables hdevices.symm htasks.symm hobjects.symm hcompile, hcreate⟩

theorem compile (h : s.part.Recalls place steps config) (batch : Option Nat) :
    (Schedule.compile batch).Ends s fun result t => t.part.Recalls place steps config ∧ match result with
      | .ok program => Compiles s.platform.registry place steps config batch program ∧
        t.part.program? = some program ∧ t.part.context.tasks = steps.filterMap Step.task?
      | .error _ => t.part.program? = s.part.program? ∧
        ∀ program, ¬Compiles s.platform.registry place steps config batch program := by
  unfold Schedule.compile
  refine h.builtGraph.bind (fun g t ⟨ht, hplatform, hmachine, hgraph⟩ => ?_) fun e t ⟨ht, _, hmachine, hnone⟩ =>
    ⟨ht, congrArg (Option.map Machine.program) hmachine, fun program ⟨name, w, _, hw, _⟩ => hnone name w hw⟩
  have hiff := ht.compiles_iff hgraph s.platform.registry batch
  have hkept : t.part.program? = s.part.program? := congrArg (Option.map Machine.program) hmachine
  refine Action.Ends.bind_get ?_
  rw [hplatform, ht.heeds]
  refine Action.Ends.bind_lift (fun program hprogram => ?_) fun e he => ?_
  case refine_2 =>
    refine ⟨ht, hkept, fun program hcompiles => ?_⟩
    cases he.symm.trans ((hiff program).mp hcompiles).1
  case refine_1 =>
    refine Action.Ends.bind_lift (fun machine hcreate => Action.Ends.bind_modify ?_) fun e he => ?_
    case refine_2 =>
      refine ⟨ht, hkept, fun program' hcompiles => ?_⟩
      obtain ⟨hprogram', machine, hcreate⟩ := (hiff program').mp hcompiles
      cases hprogram.symm.trans hprogram'
      cases he.symm.trans hcreate
    case refine_1 =>
      have hmade := (Compile.create_ok hcreate).2.1
      refine ⟨⟨ht.declares, ht.heeds, ht.device, ht.devices, ht.wired, fun hnone => ?_⟩,
        (hiff program).mpr ⟨hprogram, machine, hcreate⟩, ?_, ht.tasks hgraph⟩
      case refine_1 => cases hgraph.symm.trans hnone
      case refine_2 =>
        rw [hmade]
        rfl

-- What is done on the context leaves the tables as they are.
theorem onContext (h : s.part.Recalls place steps config) {α : Type} {act : Context.On α}
    (hschooled : act.Keeps Schooled)
    (hblank : s.part.graph = none → (act ⟨s.platform, s.part.context⟩).2.part = s.part.context) :
    (Schedule.onContext act).Ends s fun _ t => t.part.Recalls place steps config := by
  have htables := hschooled ⟨s.platform, s.part.context⟩
  refine ⟨h.declares, h.heeds, h.device, htables.devices.trans h.devices, fun g hg => ?_, fun hgraph => ?_⟩
  case refine_1 =>
    obtain ⟨name, w, hw, hwg, htasks, hobjects⟩ := h.wired g hg
    exact ⟨name, w, hw, hwg, htasks.trans htables.tasks.symm, hobjects.trans htables.objects.symm⟩
  case refine_2 =>
    have hsame : (Schedule.onContext act s).2.part.context = s.part.context := hblank hgraph
    rw [hsame]
    exact h.blank hgraph

theorem execute (h : s.part.Recalls place steps config) :
    Schedule.execute.Ends s fun _ t => t.part.Recalls place steps config := by
  have hrun {u : Hosted Schedule} (hu : u.part.Recalls place steps config) {m : Machine}
      (hm : u.part.machine = some m) :
      (Schedule.onContext m.execute).Ends u fun _ t => t.part.Recalls place steps config :=
    hu.onContext m.schooled_execute fun hgraph => by cases hm.symm.trans (hu.blank hgraph).1
  unfold Schedule.execute
  refine Action.Ends.bind_get ?_
  split
  case' isTrue => refine (h.compile none).bind (fun _ u ⟨hu, _⟩ => ?_) fun _ _ ⟨hu, _⟩ => hu
  case' isFalse => have hu := h
  all_goals
    refine Action.Ends.bind_get ?_
    split
    case h_1 m hm => exact hrun hu hm
    case h_2 => exact hu

theorem sync (h : s.part.Recalls place steps config) (objects : List HostObject) :
    (Schedule.sync objects).Ends s fun _ t => t.part.Recalls place steps config := by
  refine h.onContext (Context.schooled_sync objects) fun hgraph => ?_
  rw [Context.sync, Action.bind_of_ok (Action.get_apply _), (h.blank hgraph).2]
  rfl

theorem setConfig (h : s.part.Recalls place steps config) (config' : Config) :
    (Schedule.setConfig config').Ends s fun result t =>
      t.part.Recalls place steps (Demand.settings config (.configure config')) ∧ match result with
      | .ok _ => config'.validate = .ok ⟨⟩
      | .error _ => t = s ∧ config'.validate ≠ .ok ⟨⟩ := by
  unfold Schedule.setConfig
  refine Action.Ends.bind_lift (fun _ hvalid => ?_) fun e he => ?_
  case refine_1 =>
    rw [Demand.settings_of_valid hvalid]
    exact ⟨⟨h.declares, rfl, h.device, h.devices, h.wired, fun hgraph => ⟨rfl, (h.blank hgraph).2⟩⟩, hvalid⟩
  case refine_2 =>
    rw [Demand.settings_of_invalid he]
    exact ⟨h, rfl, he ▸ nofun⟩

-- A context that is given up leaves nothing behind but its device.
theorem renew {x : Schedule} (hsteps : x.steps = steps) (hconfig : x.config = config) (hdevice : x.device = 0)
    (hdevices : x.context.devices = [place]) (hgraph : x.graph = none) (hmachine : x.machine = none) :
    x.renew.Recalls place steps config ∧ x.renew.graph = none := by
  have hplace : x.context.place x.device = .ok place := by
    rw [Context.place_ok, hdevices, hdevice]
    rfl
  have hrenew : x.renew = { x with context := { name := x.context.name, devices := [place] }, device := 0 } := by
    rw [Schedule.renew, hplace]
    rfl
  rw [hrenew]
  have hwired (g : Graph) (hg : x.graph = some g) : False := by cases hgraph.symm.trans hg
  exact ⟨⟨hsteps, hconfig, rfl, rfl, fun g hg => (hwired g hg).elim, fun _ => ⟨hmachine, rfl⟩⟩, hgraph⟩

theorem append {x : Schedule} (h : x.Recalls place steps config) (hgraph : x.graph = none) (more : List Step) :
    { x with steps := x.steps ++ more }.Recalls place (steps ++ more) config :=
  have hwired (g : Graph) (hg : x.graph = some g) : False := by cases hgraph.symm.trans hg
  ⟨congrArg (· ++ more) h.declares, h.heeds, h.device, h.devices, fun g hg => (hwired g hg).elim, h.blank⟩

theorem push (h : s.part.Recalls place steps config) (step : Step) :
    (Schedule.push step).Ends s fun _ t => t.part.Recalls place (steps ++ [step]) config := by
  unfold Schedule.push
  refine Action.Ends.bind_get ?_
  split
  case isFalse hgraph => exact h.append (by simpa using hgraph) [step]
  case isTrue =>
    have hdevices := (Context.schooled_invalidate ⟨s.platform, s.part.context⟩).devices.trans h.devices
    obtain ⟨hrecalls, hgraph⟩ := renew (x := { s.part with
      context := (Context.invalidate ⟨s.platform, s.part.context⟩).2.part, graph := none, machine := none })
      h.declares h.heeds h.device hdevices rfl rfl
    exact hrecalls.append hgraph [step]

theorem compile_eq_some (h : s.part.Recalls place steps config) (batch : Option Nat) (program : Program) :
    (Schedule.compile batch s).1.toOption = some program ↔
      Compiles s.platform.registry place steps config batch program := by
  have hends := h.compile batch
  rcases hcompile : Schedule.compile batch s with ⟨e | program', t⟩
  case error =>
    obtain ⟨-, -, hnone⟩ := hends.of_eq hcompile
    exact ⟨nofun, fun hcompiles => absurd hcompiles (hnone program)⟩
  case ok =>
    obtain ⟨-, hcompiles, -⟩ := hends.of_eq hcompile
    exact ⟨fun heq => Option.some.inj heq ▸ hcompiles, fun hother => congrArg some (hcompiles.unique hother)⟩

-- It makes no difference how it came about.
theorem compile_eq (h : s.part.Recalls place steps config) (h' : t.part.Recalls place steps config)
    (hregistry : t.platform.registry = s.platform.registry) (batch : Option Nat) :
    (Schedule.compile batch s).1.toOption = (Schedule.compile batch t).1.toOption :=
  Option.ext fun program => (h.compile_eq_some batch program).trans
    (hregistry ▸ (h'.compile_eq_some batch program).symm)

-- A new schedule would do just as well.
theorem compile_eq_prepare (h : s.part.Recalls place steps config) (name : String) (batch : Option Nat) :
    (Schedule.compile batch s).1.toOption =
      (prepare config steps batch ⟨s.platform, Schedule.create s.platform name place⟩).1.toOption := by
  cases hvalid : config.validate with
  | error e =>
    have hset : Schedule.setConfig config ⟨s.platform, Schedule.create s.platform name place⟩ = (.error e, _) :=
      Action.bind_of_error (by rw [hvalid]; rfl)
    rw [prepare, Action.bind_of_error hset]
    refine Option.eq_none_iff_forall_ne_some.mpr fun program hprogram => ?_
    obtain ⟨_, _, machine, _, _, hcreate⟩ := (h.compile_eq_some batch program).mp hprogram
    cases hvalid.symm.trans (Compile.create_ok hcreate).1
  | ok =>
    have hset : Schedule.setConfig config ⟨s.platform, Schedule.create s.platform name place⟩ =
        (.ok ⟨⟩, ⟨s.platform, { Schedule.create s.platform name place with config, machine := none }⟩) :=
      Action.bind_of_ok (Action.lift_eq_ok.mpr ⟨hvalid, rfl⟩)
    have hblank : ({ Schedule.create s.platform name place with config, machine := none }).Recalls place [] config :=
      ⟨rfl, rfl, rfl, rfl, nofun, fun _ => ⟨rfl, rfl⟩⟩
    rw [prepare, Action.bind_of_ok hset, Action.bind_of_ok (pushes_eq rfl)]
    have hready := hblank.append rfl steps
    exact h.compile_eq (t := ⟨s.platform, _⟩) hready rfl batch

end Recalls

end Schedule

namespace Neighbour

open Schedule (Recalls)
open Demand (declared inForce)

variable {place : Nat} {steps : List Step} {config : Config} {s : Hosted Neighbour}

theorem take_recalls (h : s.part.schedule.Recalls place steps config) (turn : Turn) :
    (take turn).Ends s fun _ t => t.part.schedule.Recalls place steps config := by
  have hunless {act : On Yield} (hact : act.Ends s fun _ t => t.part.schedule.Recalls place steps config) :
      (unlessDropped act).Ends s fun _ t => t.part.schedule.Recalls place steps config := by
    unfold unlessDropped
    refine Action.Ends.bind_get ?_
    split
    case isTrue => exact h
    case isFalse => exact hact
  have hschedule {α : Type} {act : Schedule.On α}
      (hact : act.Ends ⟨s.platform, s.part.schedule⟩ fun _ t => t.part.Recalls place steps config) :
      (onSchedule act).Ends s fun _ t => t.part.schedule.Recalls place steps config := hact
  have h : Recalls place steps config (⟨s.platform, s.part.schedule⟩ : Hosted Schedule).part := h
  cases turn with
  | compile batch =>
    exact hunless ((hschedule ((h.compile batch).mono fun _ _ ht => ht.1)).bind (fun _ _ ht => ht) fun _ _ ht => ht)
  | execute => exact hunless ((hschedule h.execute).bind (fun _ _ ht => ht) fun _ _ ht => ht)
  | sync objects => exact hunless ((hschedule (h.sync objects)).bind (fun _ _ ht => ht) fun _ _ ht => ht)
  | drop =>
    have hdrop := h.onContext Context.schooled_invalidate fun hgraph => by
      rw [(h.blank hgraph).2]
      rfl
    exact hunless ((hschedule hdrop).bind (fun _ _ ht => ht) fun _ _ ht => ht)
  | wait handle =>
    change (wait handle).Ends _ _
    unfold wait
    refine Action.Ends.bind_get ?_
    split
    case h_1 => exact h
    case h_2 => exact h

theorem comply_recalls (h : s.part.schedule.Recalls place steps config) (demand : Demand) :
    (comply demand s).2.part.schedule.Recalls place (steps ++ demand.step?.toList) (demand.settings config) := by
  have hturn (turn : Turn) : (discard (take turn) s).2.part.schedule.Recalls place (steps ++ []) config := by
    have hends : Recalls place steps config (take turn s).2.part.schedule := take_recalls h turn
    rw [List.append_nil]
    rwa [← Action.snd_bind_pure (take turn) (fun _ => ()) s] at hends
  cases demand with
  | push step => exact Recalls.push (s := ⟨s.platform, s.part.schedule⟩) h step
  | configure config' =>
    rw [show (Demand.configure config').step?.toList = [] from rfl, List.append_nil]
    exact (Recalls.setConfig (s := ⟨s.platform, s.part.schedule⟩) h config').1
  | compile batch => exact hturn _
  | execute => exact hturn _
  | wait handle => exact hturn _
  | sync objects => exact hturn _
  | meanwhile p => exact (List.append_nil steps).symm ▸ h

theorem complyAll_recalls (h : s.part.schedule.Recalls place steps config) (demands : List Demand) :
    (complyAll demands s).part.schedule.Recalls place (steps ++ declared demands) (inForce config demands) := by
  induction demands generalizing s steps config with
  | nil => exact (List.append_nil steps).symm ▸ h
  | cons demand demands ih =>
    have hrest := ih (comply_recalls h demand)
    rw [List.append_assoc] at hrest
    have hsteps : declared (demand :: demands) = demand.step?.toList ++ declared demands := by
      cases demand <;> rfl
    rwa [hsteps]

end Neighbour

namespace Schedule

open Demand (declared inForce)

-- The schedule once all the demands were made.
def after (p : Platform) (name : String) (place : Nat) (demands : List Demand) : Hosted Schedule :=
  let s := Neighbour.complyAll demands ⟨p, { schedule := create p name place }⟩
  ⟨s.platform, s.part.schedule⟩

-- Whatever was asked of a schedule before, and whatever others did on the platform: it compiles to what a new one
-- with its steps and settings would, and then each task is bound once. When that fails, or when settings are turned
-- down, the program that there was stays.
theorem compile_forgets (p : Platform) (name name' : String) (place : Nat) (demands : List Demand)
    (batch : Option Nat) (config : Config) :
    let s := after p name place demands
    ((compile batch).Ends s fun result t =>
      result.toOption = (prepare (inForce p.config demands) (declared demands) batch
        ⟨s.platform, create s.platform name' place⟩).1.toOption ∧
      match result with
      | .ok program => t.part.program? = some program ∧
        t.part.context.tasks = (declared demands).filterMap Step.task?
      | .error _ => t.part.program? = s.part.program?) ∧
    (setConfig config).Ends s fun result t => match result with
      | .ok _ => t.part.config = config
      | .error _ => t = s := by
  intro s
  have hrecalls : s.part.Recalls place (declared demands) (inForce p.config demands) :=
    Neighbour.complyAll_recalls (s := ⟨p, { schedule := create p name place }⟩) (.create p name place) demands
  have hprepare := hrecalls.compile_eq_prepare name' batch
  have hcompile := hrecalls.compile batch
  have hconfig := hrecalls.setConfig config
  unfold Action.Ends at hcompile hconfig ⊢
  constructor
  case left =>
    generalize compile batch s = outcome at hprepare hcompile ⊢
    obtain ⟨result, t⟩ := outcome
    cases result with
    | error e => exact ⟨hprepare, hcompile.2.1⟩
    | ok program => exact ⟨hprepare, hcompile.2.2⟩
  case right =>
    generalize setConfig config s = outcome at hconfig ⊢
    obtain ⟨result, t⟩ := outcome
    obtain ⟨ht, hresult⟩ := hconfig
    cases result with
    | error e => exact hresult.1
    | ok => exact ht.heeds.trans (Demand.settings_of_valid hresult _)

end Schedule
end Offload
