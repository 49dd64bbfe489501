import Offload.Proofs.Confined
import Offload.Proofs.History
import Offload.Proofs.Neighbours

/-!
Schedules from one execution to the next. The machine of a schedule is one for the steps that it has, and there is
data on the device only if every execution brings in what it brings out. So nothing but the kernels, the device and
the steps themselves is ever in the way of an execution.
-/

namespace Offload

namespace Context

variable {c : Context} {index : Nat}

theorem Empty.not_valid (h : c.Empty) : ¬c.Valid index := by
  rintro ⟨b, hb, hstate⟩
  have hbuffer := h b (List.mem_of_getElem? hb)
  rw [ObjectState.isValid, hbuffer] at hstate
  cases hstate

theorem empty_detachAll (c : Context) : c.detachAll.Empty := by
  intro x hx
  obtain ⟨b, _, rfl⟩ := List.mem_map.mp hx
  rfl

theorem Learned.of_same {s : Hosted Context} {p : Platform} (h : Learned s)
    (hsame : ∀ place ∈ s.part.devices, (s.platform.channel place).Same (p.channel place)) : Learned ⟨p, s.part⟩ := by
  intro x hx
  obtain ⟨place, t, hplace, ht, hlookup⟩ := h x hx
  have hmake : (p.channel place).device.make = (s.platform.channel place).device.make :=
    hsame place (List.mem_of_getElem? hplace)
  exact ⟨place, t, hplace, ht, by rwa [Device.lookup?_eq, hmake, ← Device.lookup?_eq]⟩

end Context

theorem compile_of_lengths {r r' : Registry} (hlengths : ∀ k, r.byteLength k = r'.byteLength k) (c : Context)
    (g : Graph) (batch : Option Nat) (config : Config) : compile r c g batch config = compile r' c g batch config :=
  compile_congr (fun _ => rfl) rfl (List.forall₂_same.mpr fun _ _ => ⟨rfl, hlengths _⟩) g batch config

namespace Schedule

open Compile (Made)
open Context (Books Trusted Learned Schooled Sustains)
open Tenant (Lodged)

variable {rest : Nat → List (BufferId × Nat)} {place : Nat} {q : Registry} {s t : Hosted Schedule}

-- The machine is what the steps are compiled to. Data is on the device only if the steps bring it in first.
structure Equipped (place : Nat) (q : Registry) (s : Hosted Schedule) : Prop where
  recalls : s.part.Recalls place s.part.steps s.part.config
  learned : Learned ⟨s.platform, s.part.context⟩
  lengths : ∀ k, s.platform.registry.byteLength k = q.byteLength k
  made    : ∀ m, s.part.machine = some m → ∃ batch program machine,
    Compiles q place s.part.steps s.part.config batch program ∧
      Machine.create program s.part.config = .ok machine ∧ m = { machine with counted := true }
  sated   : Step.Sated s.part.steps ∨ ∀ index, ¬s.part.context.Valid index

-- A schedule with another step has nothing that was made for those before.
theorem push_ends (s : Hosted Schedule) (step : Step) : (push step).Ends s fun _ t => t.part.graph = none ∧
    (t.platform = s.platform ∧ t.part.tenant = s.part.tenant ∨
      t.platform = (Context.invalidate ⟨s.platform, s.part.context⟩).2.platform) := by
  unfold push
  refine Action.Ends.bind_get ?_
  split
  case isFalse hgraph =>
    have hnone : s.part.graph = none := by simpa using hgraph
    exact ⟨hnone, .inl ⟨rfl, rfl⟩⟩
  case isTrue =>
    refine ⟨?_, .inr rfl⟩
    change (renew _).graph = none
    unfold renew
    split <;> rfl

namespace Equipped

-- What others do makes no difference.
theorem of_same {p : Platform} (h : Equipped place q s) (hsame : (s.platform.channel place).Same (p.channel place))
    (hlengths : ∀ k, p.registry.byteLength k = s.platform.registry.byteLength k) : Equipped place q ⟨p, s.part⟩ where
  recalls := h.recalls
  learned := h.learned.of_same fun place' hplace' => by
    have hplace' : place' ∈ s.part.context.devices := hplace'
    rw [h.recalls.devices] at hplace'
    exact List.mem_singleton.mp hplace' ▸ hsame
  lengths k := (hlengths k).trans (h.lengths k)
  made := h.made
  sated := h.sated

-- What is asked of a context without kernels and data.
theorem of_bare {x : Schedule} (hrecalls : x.Recalls place x.steps x.config) {p : Platform}
    (hlengths : ∀ k, p.registry.byteLength k = q.byteLength k) (hkernels : x.context.kernels = [])
    (hempty : x.context.Empty) (hmachine : x.machine = none) : Equipped place q ⟨p, x⟩ where
  recalls := hrecalls
  learned y hy := by
    have hy : y ∈ x.context.kernels := hy
    rw [hkernels] at hy
    cases hy
  lengths := hlengths
  made m hm := by cases hmachine.symm.trans hm
  sated := .inr fun _ => hempty.not_valid

theorem builtGraph (h : Equipped place q s) : Schedule.builtGraph.Ends s fun result t => Equipped place q t ∧
    t.platform = s.platform ∧ t.part.steps = s.part.steps ∧ t.part.config = s.part.config ∧
      ∀ g, result = .ok g → t.part.graph = some g := by
  have hrecalls := h.recalls.builtGraph
  have hcontext : Schedule.builtGraph.Ends s fun _ t => t.part.context = s.part.context ∨
      t.part.context.kernels = [] ∧ t.part.context.Empty ∧ t.part.machine = none := by
    unfold Schedule.builtGraph
    refine Action.Ends.bind_get ?_
    dsimp only
    cases hgraph : s.part.graph with
    | some g => exact .inl rfl
    | none =>
      obtain ⟨hmachine, hblank⟩ := h.recalls.blank hgraph
      refine Action.Ends.bind_lift (fun w hw => ?_) fun _ _ => .inl rfl
      have htraced := Wiring.traced_of_build (by rw [hblank]) (by rw [hblank]) hw
      exact Action.Ends.bind_modify (.inr ⟨htraced.kernels.trans (by rw [hblank]), htraced.empty, hmachine⟩)
  unfold Action.Ends at hrecalls hcontext ⊢
  generalize Schedule.builtGraph s = outcome at hrecalls hcontext ⊢
  obtain ⟨result, t⟩ := outcome
  obtain ⟨hrecalls, hplatform, hmachine, hresult⟩ := hrecalls
  obtain ⟨p, x⟩ := t
  cases hplatform
  refine ⟨?_, rfl, hrecalls.declares, hrecalls.heeds, fun g hg => ?_⟩
  case refine_2 =>
    cases hg
    exact hresult
  case refine_1 =>
    have hrecalls' := hrecalls
    rw [← hrecalls.declares, ← hrecalls.heeds] at hrecalls'
    rcases hcontext with hsame | ⟨hkernels, hempty, hnone⟩
    case inr => exact .of_bare hrecalls' h.lengths hkernels hempty hnone
    case inl =>
      have hlearned := h.learned
      have hmade := h.made
      have hsated := h.sated
      rw [← hsame] at hlearned hsated
      rw [← hmachine, ← hrecalls.declares, ← hrecalls.heeds] at hmade
      rw [← hrecalls.declares] at hsated
      exact ⟨hrecalls', hlearned, h.lengths, hmade, hsated⟩

theorem compile (h : Equipped place q s) (batch : Option Nat) : (Schedule.compile batch).Ends s fun result t =>
    Equipped place q t ∧ t.platform = s.platform ∧ t.part.steps = s.part.steps ∧ t.part.config = s.part.config ∧
      ∀ program, result = .ok program → t.part.machine.isSome := by
  unfold Schedule.compile
  refine h.builtGraph.bind (fun g t ⟨ht, hplatform, hsteps, hconfig, hgraph⟩ => ?_)
    fun _ _ ⟨ht, hplatform, hsteps, hconfig, _⟩ => ⟨ht, hplatform, hsteps, hconfig, nofun⟩
  refine Action.Ends.bind_get (Action.Ends.bind_lift (fun program hprogram => ?_)
    fun _ _ => ⟨ht, hplatform, hsteps, hconfig, nofun⟩)
  refine Action.Ends.bind_lift (fun machine hcreate => Action.Ends.bind_modify ?_)
    fun _ _ => ⟨ht, hplatform, hsteps, hconfig, nofun⟩
  have hgraph := hgraph g rfl
  rw [compile_of_lengths ht.lengths] at hprogram
  have hcompiles := (ht.recalls.compiles_iff hgraph q batch program).mpr ⟨hprogram, machine, hcreate⟩
  have hrecalls := ht.recalls
  refine ⟨⟨⟨rfl, rfl, hrecalls.device, hrecalls.devices, hrecalls.wired, fun hnone => ?_⟩, ht.learned, ht.lengths,
    fun m hm => ?_, ht.sated⟩, hplatform, hsteps, hconfig, fun _ _ => rfl⟩
  case refine_1 => cases hgraph.symm.trans hnone
  case refine_2 =>
    cases hm
    exact ⟨batch, program, machine, hcompiles, hcreate, rfl⟩

-- Whatever batches the machine's program can have been compiled for, the machine was made for these.
theorem renders_of_compiles (h : Equipped place q s) {m : Machine} (hm : s.part.machine = some m)
    {batch : Option Nat} (hcompiles : Compiles q place s.part.steps s.part.config batch m.program) :
    ∃ g place' d l passes, Made s.platform.registry s.part.context g batch place' d l passes m ∧
      m.Renders s.part.steps g l passes ⟨s.platform, s.part.context⟩ := by
  obtain ⟨-, program, machine, -, hcreate, rfl⟩ := h.made m hm
  have hprogram : machine.program = program := congrArg Machine.program (Compile.create_ok hcreate).2.1
  obtain ⟨g, hgraph⟩ : ∃ g, s.part.graph = some g := by
    refine Option.ne_none_iff_exists'.mp fun hnone => ?_
    cases hm.symm.trans (h.recalls.blank hnone).1
  obtain ⟨hcompile, -⟩ := (h.recalls.compiles_iff hgraph q batch program).mp (hprogram ▸ hcompiles)
  obtain ⟨place', d, l, passes, hmade⟩ := Compile.made_of_compile hcompile hcreate
  obtain ⟨name, w, hw, rfl, htasks, hobjects⟩ := h.recalls.wired g hgraph
  have htraced := Wiring.traced_of_build rfl rfl hw
  have hmade' : Made s.platform.registry s.part.context w.graph batch place' d l passes
      { machine with counted := true } := { hmade.of_tables rfl rfl rfl h.lengths with }
  refine ⟨w.graph, place', d, l, passes, hmade', ⟨batch, place', d, hmade'⟩, Wiring.wired_of_build hw, ?_, ?_, ?_, ?_,
    ?_, ?_⟩
  case refine_1 =>
    rw [Wiring.order_eq hw hmade.dependencies hmade.order]
    exact Graph.Follows.of_tables htraced.nodes hobjects.symm htasks.symm
  case refine_2 => exact hobjects ▸ htraced.objects
  case refine_3 => exact fun t ht => (htraced.tasks t (htasks ▸ ht)).1
  case refine_4 =>
    rw [Context.Distinct, ← hobjects]
    exact htraced.distinct
  case refine_5 =>
    intro t ht
    rw [← hobjects]
    exact (htraced.tasks t (htasks ▸ ht)).2
  case refine_6 => exact fun _ _ _ => Compile.blocking_last hcompile hcreate

theorem renders (h : Equipped place q s) {m : Machine} (hm : s.part.machine = some m) :
    (∃ g l passes, m.Renders s.part.steps g l passes ⟨s.platform, s.part.context⟩) ∧ m.config = s.part.config := by
  obtain ⟨batch, program, machine, hcompiles, hcreate, rfl⟩ := h.made m hm
  have hmachine := (Compile.create_ok hcreate).2.1
  have hprogram : machine.program = program := congrArg Machine.program hmachine
  obtain ⟨g, _, _, l, passes, -, hrenders⟩ := h.renders_of_compiles hm (hprogram.symm ▸ hcompiles)
  exact ⟨⟨g, l, passes, hrenders⟩, congrArg Machine.config hmachine⟩

theorem proper (h : Equipped place q s) : s.part.Proper place fun _ => True :=
  ⟨h.recalls.devices, fun _ _ _ _ => trivial, fun _ _ => trivial, h.recalls.blank⟩

-- What is done on the context, if it leaves it with data only where that is as it should be.
theorem onContext {α : Type} (h : Equipped place q s) {act : Context.On α} (hschooled : act.Keeps Schooled)
    (hblank : s.part.graph = none → (act ⟨s.platform, s.part.context⟩).2.part = s.part.context)
    (hact : act.Ends ⟨s.platform, s.part.context⟩ fun _ t =>
      (∀ k, t.platform.registry.byteLength k = s.platform.registry.byteLength k) ∧
        (Step.Sated s.part.steps ∨ ∀ index, ¬t.part.Valid index)) :
    (Schedule.onContext act).Ends s fun _ t => Equipped place q t :=
  ⟨h.recalls.onContext hschooled hblank, (hschooled _).learned h.learned,
    fun k => (hact.1 k).trans (h.lengths k), h.made, hact.2⟩

-- An execution that does well brings in what it brings out, and another one leaves no data.
theorem run (h : Equipped place q s) (hlodged : Lodged rest ⟨s.platform, s.part.tenant⟩) {m : Machine}
    (hm : s.part.machine = some m) : (Schedule.onContext m.execute).Ends s fun _ t => Equipped place q t := by
  obtain ⟨⟨g, l, passes, hrenders⟩, -⟩ := h.renders hm
  have hsuits := hlodged.suits m (by simp [tenant, hm])
  have hsustains := Machine.execute_sustains hlodged.books hsuits
  refine h.onContext m.schooled_execute (fun hgraph => by cases hm.symm.trans (h.recalls.blank hgraph).1) ?_
  rcases hexecute : m.execute ⟨s.platform, s.part.context⟩ with ⟨e | x, t⟩
  case error =>
    obtain ⟨ht, hfailed⟩ := hsustains.of_eq hexecute
    obtain ⟨u, rfl⟩ := hfailed e rfl
    rw [Action.Ends, hexecute]
    exact ⟨ht.stable.lengths, .inr fun _ => (Context.empty_detachAll _).not_valid⟩
  case ok =>
    have ht := (hsustains.of_eq hexecute).1
    rw [Action.Ends, hexecute]
    refine ⟨ht.stable.lengths, .inl (h.sated.elim id fun hnone => ?_)⟩
    exact (hrenders.execute_sates hlodged.books hlodged.trust hsuits hnone).of_eq hexecute x rfl

theorem sync (h : Equipped place q s) (hlodged : Lodged rest ⟨s.platform, s.part.tenant⟩)
    (objects : List HostObject) : (Schedule.sync objects).Ends s fun _ t => Equipped place q t := by
  refine h.onContext (Context.schooled_sync objects) (fun hgraph => ?_) ?_
  case refine_1 =>
    rw [Context.sync, Action.bind_of_ok (Action.get_apply _), (h.recalls.blank hgraph).2]
    rfl
  case refine_2 =>
    have hdeals := Context.sync_deals (s := ⟨s.platform, s.part.context⟩) hlodged.books objects
    refine hdeals.mono fun _ t ht =>
      ⟨(ht.sustains hlodged.books).stable.lengths, h.sated.imp_right fun hnone index => ?_⟩
    have hbindings := (ht.same hlodged.books fun _ _ => Context.Returns.reads).1
    rw [Context.Valid, hbindings]
    exact hnone index

theorem drop (h : Equipped place q s) (hlodged : Lodged rest ⟨s.platform, s.part.tenant⟩) :
    (Schedule.onContext Context.invalidate).Ends s fun _ t => Equipped place q t := by
  refine h.onContext Context.schooled_invalidate (fun hgraph => ?_) ?_
  case refine_1 =>
    rw [(h.recalls.blank hgraph).2]
    rfl
  case refine_2 =>
    have hupholds : Context.invalidate.Ends ⟨s.platform, s.part.context⟩ fun _ t =>
        Context.Upholds False rest ⟨s.platform, s.part.context⟩ t ∧ t.part = s.part.context.detachAll :=
      Context.invalidate_upholds hlodged.books
    refine hupholds.mono fun _ t ⟨ht, hpart⟩ => ⟨ht.stable.lengths, .inr fun index => ?_⟩
    rw [hpart]
    exact (Context.empty_detachAll _).not_valid

theorem setConfig (h : Equipped place q s) (config : Config) :
    (Schedule.setConfig config).Ends s fun _ t => Equipped place q t := by
  unfold Schedule.setConfig
  refine Action.Ends.bind_lift (fun _ _ => ?_) fun _ _ => h
  exact ⟨⟨rfl, rfl, h.recalls.device, h.recalls.devices, h.recalls.wired,
    fun hgraph => ⟨rfl, (h.recalls.blank hgraph).2⟩⟩, h.learned, h.lengths, nofun, h.sated⟩

theorem push (h : Equipped place q s) (hlodged : Lodged rest ⟨s.platform, s.part.tenant⟩) (step : Step) :
    (Schedule.push step).Ends s fun _ t => Equipped place q t := by
  have hpush := push_ends s step
  have hrecalls := h.recalls.push step
  unfold Action.Ends at hpush hrecalls ⊢
  generalize (Schedule.push step s).2 = t at hpush hrecalls ⊢
  obtain ⟨hgraph, hplatform⟩ := hpush
  obtain ⟨hmachine, hcontext⟩ := hrecalls.blank hgraph
  rw [← hrecalls.declares, ← hrecalls.heeds] at hrecalls
  refine .of_bare hrecalls (fun k => ?_) ?_ ?_ hmachine
  case refine_1 =>
    rcases hplatform with ⟨hsame, -⟩ | hgiven
    case inl => rw [hsame, h.lengths]
    case inr =>
      rw [hgiven]
      exact ((drop_minds hlodged h.proper).stays.lengths k).trans (h.lengths k)
  case refine_2 => rw [hcontext]
  case refine_3 =>
    rw [hcontext]
    nofun

-- The machine stands for the steps, if they are regular.
theorem regular (h : Equipped place q s) (hlodged : Lodged rest ⟨s.platform, s.part.tenant⟩)
    (hregular : ∀ step ∈ s.part.steps, step.Regular q) {m : Machine} (hm : s.part.machine = some m) :
    (∃ g l passes, m.Regular q s.part.steps g l passes ⟨s.platform, s.part.context⟩) ∧ m.config = s.part.config ∧
      m.Suits s.platform.registry s.part.context := by
  obtain ⟨⟨g, l, passes, hrenders⟩, hconfig⟩ := h.renders hm
  exact ⟨⟨g, l, passes, hrenders, hregular, h.lengths, fun k => h.lengths k ▸ hlodged.words k⟩, hconfig,
    hlodged.suits m (by simp [tenant, hm])⟩

theorem eq_place (h : Equipped place q s) {other : Nat} (hother : other ∈ s.part.context.devices) : other = place := by
  rw [h.recalls.devices] at hother
  exact List.mem_singleton.mp hother

-- What a machine fails for is one of the steps.
theorem run_fails (h : Equipped place q s) (hlodged : Lodged rest ⟨s.platform, s.part.tenant⟩)
    (hregular : ∀ step ∈ s.part.steps, step.Regular q) {m : Machine} (hm : s.part.machine = some m) :
    (Schedule.onContext m.execute).Ends s fun result t =>
      (t.platform.channel place).device.Accountable (s.platform.channel place).device.nextEvent ∧
        ∀ e, result = .error e → Step.Fails s.part.config.tuning (s.platform.channel place).device.nextEvent
          (s.platform.channel place) (t.platform.channel place) s.part.steps e := by
  obtain ⟨⟨g, l, passes, hregular⟩, hconfig, hsuits⟩ := h.regular hlodged hregular hm
  obtain ⟨place', hplace, hfails⟩ := hregular.execute_fails hlodged.books hlodged.trust h.learned hsuits h.sated
  cases h.eq_place hplace
  rw [hconfig] at hfails
  exact hfails

-- An execution is the run of a machine that was there or is made for the steps, unless they do not compile.
theorem execute_of_run {Q : Except Error Execution → Hosted Schedule → Prop} (h : Equipped place q s)
    (hlodged : Lodged rest ⟨s.platform, s.part.tenant⟩)
    (hrefused : ∀ e t, s.part.machine = none → Schedule.compile none s = (.error e, t) →
      t.platform = s.platform → Q (.error e) t)
    (hrun : ∀ t m, Equipped place q t → Lodged rest ⟨t.platform, t.part.tenant⟩ → t.platform = s.platform →
      t.part.steps = s.part.steps → t.part.config = s.part.config → t.part.machine = some m →
        (Schedule.onContext m.execute).Ends t Q) : Schedule.execute.Ends s Q := by
  unfold Schedule.execute
  refine Action.Ends.bind_get ?_
  split
  case isFalse hmachine =>
    refine Action.Ends.bind_get ?_
    split
    case h_1 m hm => exact hrun s m h hlodged rfl rfl rfl hm
    case h_2 hnone => exact absurd (by simp [hnone]) hmachine
  case isTrue hmachine =>
    have hcompile := h.compile none
    have hprepares := compile_prepares hlodged h.proper none
    rcases hc : Schedule.compile none s with ⟨e | program, t⟩
    case error =>
      obtain ⟨-, hplatform, -⟩ := hcompile.of_eq hc
      exact Action.Ends.bind_of_error hc (hrefused e t (by simpa using hmachine) hc hplatform)
    case ok =>
      obtain ⟨ht, hplatform, hsteps, hconfig, hmachine⟩ := hcompile.of_eq hc
      have hlodged' := (hprepares.of_eq hc).stays.toLodged
      refine Action.Ends.bind_of_ok hc (Action.Ends.bind_get ?_)
      split
      case h_2 hnone => simp [hnone] at hmachine
      case h_1 m hm => exact hrun t m ht hlodged' hplatform hsteps hconfig hm

theorem execute (h : Equipped place q s) (hlodged : Lodged rest ⟨s.platform, s.part.tenant⟩) :
    Schedule.execute.Ends s fun _ t => Equipped place q t := by
  refine h.execute_of_run hlodged (fun e t _ hcompile _ => ?_) fun _ _ ht hlodged' _ _ _ hm => ht.run hlodged' hm
  exact ((h.compile none).of_eq hcompile).1

theorem execute_fails (h : Equipped place q s) (hlodged : Lodged rest ⟨s.platform, s.part.tenant⟩)
    (hregular : ∀ step ∈ s.part.steps, step.Regular q) : Schedule.execute.Ends s fun result t =>
      (t.platform.channel place).device.Accountable (s.platform.channel place).device.nextEvent ∧
        ∀ e, result = .error e → s.part.machine = none ∧ (Schedule.compile none s).1 = .error e ∨
          Step.Fails s.part.config.tuning (s.platform.channel place).device.nextEvent (s.platform.channel place)
            (t.platform.channel place) s.part.steps e := by
  refine h.execute_of_run hlodged (fun e t hnone hcompile hplatform => ?_)
    fun t m ht hlodged' hplatform hsteps hconfig hm => ?_
  case refine_1 =>
    refine ⟨hplatform ▸ (hlodged.trust.honest place).past.accountable, fun e' he => .inl ⟨hnone, ?_⟩⟩
    rw [hcompile]
    exact congrArg Except.error (Except.error.inj he)
  case refine_2 =>
    have hrun := ht.run_fails hlodged' (hsteps ▸ hregular) hm
    rw [hplatform, hsteps, hconfig] at hrun
    exact hrun.mono fun _ _ ⟨ht, hfails⟩ => ⟨ht, fun e he => .inr (hfails e he)⟩

end Equipped

end Schedule
end Offload
