import Offload.Proofs.Affairs
import Offload.Proofs.Tally
import Offload.Proofs.Windows

/-!
What the executions of a schedule add to the counters, however it was cut into batches. Every pass launches and issues
as much as any other, and all of them together move every byte once.
-/

namespace Offload

open Compile (Made Laid Issued Layout sites passSites)
open Tenant (Lodged)

-- The object that a step brings in, and the one that it brings out.
def Step.broughtIn? : Step → Option HostObject
  | .streamIn o => some o
  | _ => none

def Step.broughtOut? : Step → Option HostObject
  | .streamOut o => some o
  | _ => none

-- What a step adds in one pass.
def Step.share (r : Registry) (pass : Pass) : Step → Tally
  | .streamIn o => { instructions := 1, bytesIn := portion pass.length (r.byteLength o.handle) }
  | .task _ => { instructions := 1, kernels := 1 }
  | .streamOut o => { instructions := 1, bytesOut := portion pass.length (r.byteLength o.handle) }

-- What it adds in so many passes as bring its object over.
def Step.load (r : Registry) (passes : Nat) : Step → Tally
  | .streamIn o => { instructions := passes, bytesIn := r.byteLength o.handle }
  | .task _ => { instructions := passes, kernels := passes }
  | .streamOut o => { instructions := passes, bytesOut := r.byteLength o.handle }

-- The bytes of all objects that steps bring in, and of those that they bring out.
def Step.bytesIn (r : Registry) (steps : List Step) : Nat :=
  ((steps.filterMap Step.broughtIn?).map fun o => r.byteLength o.handle).sum

def Step.bytesOut (r : Registry) (steps : List Step) : Nat :=
  ((steps.filterMap Step.broughtOut?).map fun o => r.byteLength o.handle).sum

-- What all steps add in these passes.
def Step.total (r : Registry) (passes : Nat) (steps : List Step) : Tally where
  instructions := passes * steps.length
  kernels := passes * (steps.filterMap Step.task?).length
  bytesIn := Step.bytesIn r steps
  bytesOut := Step.bytesOut r steps

-- A barrier is the last instruction before the end.
def endsWithBarrier (is : List Instruction) : Bool :=
  is.dropLast.getLast?.any (·.opcode = .barrier)

namespace Pass

variable {r : Registry} {c : Context} {batch : Option Nat} {passes : List Pass} {first last : Nat}

theorem Adjoin.add_sum (h : Adjoin first passes last) : first + (passes.map Pass.length).sum = last := by
  induction h with
  | nil => rfl
  | cons _ _ ih =>
    rw [List.map_cons, List.sum_cons, ← Nat.add_assoc]
    exact ih

-- All passes together move every byte of an object once.
theorem sum_portions (hplan : plan r c batch = .ok passes) {o : HostObject} (ho : o ∈ c.objects) :
    (passes.map fun p => portion p.length (r.byteLength o.handle)).sum = r.byteLength o.handle := by
  cases batch with
  | none =>
    cases hplan
    simp [whole, portion]
  | some batch =>
    obtain ⟨shape, hshape, hbatch, -, rfl⟩ := plan_ok_iff.mp hplan
    obtain ⟨b, hb, rfl⟩ := List.mem_map.mp ho
    rw [(hshape.alike b hb).2]
    by_cases hle : batch ≤ shape.total
    case neg =>
      -- one pass without a length, which stands for all of them
      rw [cut_large (Nat.lt_of_not_le hle)]
      simp [portion]
    case pos =>
      have hadjoin := adjoin_cut hbatch hle
      have hlengths : (cut shape batch).map (fun p => portion p.length shape.total) =
          (cut shape batch).map Pass.length :=
        List.map_congr_left fun p hp => if_pos (hadjoin.length_pos p hp)
      rw [hlengths, ← Nat.zero_add (List.sum _), hadjoin.add_sum]

end Pass

namespace Step

variable {r : Registry} {c : Context} {batch : Option Nat} {passes : List Pass} {steps : List Step} {step : Step}

-- What a step works on is bound.
def Bound (c : Context) (step : Step) : Prop :=
  ∀ o, step.broughtIn? = some o ∨ step.broughtOut? = some o → ∃ x ∈ c.objects, x.handle = o.handle

theorem bound_of_does {kind : NodeKind} (h : Wiring.Does c kind step) : step.Bound c := by
  rintro o (ho | ho)
  all_goals
    cases step <;> cases ho
    cases kind <;> first | exact h.elim | skip
    obtain ⟨x, hx, heq⟩ := h
    exact ⟨x, List.mem_of_getElem? hx, heq⟩

theorem sum_share (hplan : Pass.plan r c batch = .ok passes) (hbound : step.Bound c) :
    (passes.map fun p => step.share r p).sum = step.load r passes.length := by
  have hmoved (o : HostObject) (ho : step.broughtIn? = some o ∨ step.broughtOut? = some o) :
      (passes.map fun p => portion p.length (r.byteLength o.handle)).sum = r.byteLength o.handle := by
    obtain ⟨x, hx, heq⟩ := hbound o ho
    exact heq ▸ Pass.sum_portions hplan hx
  rw [Tally.sum_eq]
  cases step with
  | streamIn o => simp [share, load, Function.comp_def, hmoved o (.inl rfl)]
  | task t => simp [share, load]
  | streamOut o => simp [share, load, Function.comp_def, hmoved o (.inr rfl)]

theorem total_nil (r : Registry) (passes : Nat) : total r passes [] = 0 :=
  rfl

theorem total_cons (r : Registry) (passes : Nat) (step : Step) (steps : List Step) :
    total r passes (step :: steps) = step.load r passes + total r passes steps := by
  have hsucc (n : Nat) : passes * (n + 1) = passes + passes * n := by
    rw [Nat.mul_succ, Nat.add_comm]
  cases step with
  | streamIn o => exact Tally.ext rfl (hsucc _) (Nat.zero_add _).symm rfl rfl (Nat.zero_add _).symm
  | task t => exact Tally.ext rfl (hsucc _) (hsucc _) rfl (Nat.zero_add _).symm (Nat.zero_add _).symm
  | streamOut o => exact Tally.ext rfl (hsucc _) (Nat.zero_add _).symm rfl (Nat.zero_add _).symm rfl

-- The passes may as well be added up step by step.
theorem sum_shares (hplan : Pass.plan r c batch = .ok passes) (hbound : ∀ step ∈ steps, step.Bound c) :
    (passes.map fun p => (steps.map (share r p)).sum).sum = total r passes.length steps := by
  induction steps with
  | nil => simp [total_nil]
  | cons step steps ih =>
    obtain ⟨hstep, hsteps⟩ := List.forall_mem_cons.mp hbound
    rw [total_cons, ← ih hsteps, ← sum_share hplan hstep, ← List.sum_map_add]
    simp only [List.map_cons, List.sum_cons]

end Step
theorem endsWithBarrier_append {is js : List Instruction} (h : ∀ i ∈ is, i.opcode ≠ .barrier) (hjs : js ≠ []) :
    endsWithBarrier (is ++ js) = endsWithBarrier js := by
  rw [endsWithBarrier, List.dropLast_append_of_ne_nil hjs, List.getLast?_append, endsWithBarrier]
  cases js.dropLast.getLast? with
  | some i => rfl
  | none =>
    cases hlast : is.getLast? with
    | none => rfl
    | some i => exact decide_eq_false (h i (List.mem_of_getLast? hlast))

namespace Compile

open Context (sizes)

variable {r : Registry} {g : Graph} {l : Layout} {passes : List Pass} {pass : Pass} {batch : Option Nat}
  {place id k n : Nat} {d : Graph.Dependencies} {m : Machine} {i : Instruction} {is : List Instruction}
  {ids : List Nat} {kind : NodeKind} {step : Step} {steps : List Step} {s : Hosted Context}

-- A node adds the share of its step.
theorem Issued.tally_eq (h : Issued g l pass id i) (hwords : pass.InWords) (hkind : g.kind? id = some kind)
    (hdoes : Wiring.Does s.part kind step) : i.tally (sizes s) = step.share s.platform.registry pass := by
  have hlength : pass.length % wordLimit = pass.length := Nat.mod_eq_of_lt hwords.length
  have hsize {object : Nat} {o : HostObject} (hx : ∃ x, s.part.objects[object]? = some x ∧ x.handle = o.handle) :
      sizes s object = s.platform.registry.byteLength o.handle := by
    obtain ⟨x, hx, heq⟩ := hx
    rw [sizes, hx, ← heq]
    rfl
  rcases h.cases with ⟨task, hnode, rfl⟩ | ⟨object, hnode, rfl⟩ | ⟨object, hnode, rfl | rfl⟩ <;>
    cases hkind.symm.trans hnode <;> cases step <;> try exact hdoes.elim
  case inl.refl.task => rfl
  all_goals
    simp only [Instruction.tally, Step.share, hlength, hsize hdoes]

namespace Laid

-- One pass adds the shares of all steps in it.
theorem sum_pass (h : Laid g l passes (passSites ids k) is) (hfollows : g.Follows s.part ids steps)
    (hpass : passes[k]? = some pass) (hwords : pass.InWords) :
    (is.map (Instruction.tally (sizes s))).sum = (steps.map (Step.share s.platform.registry pass)).sum := by
  induction hfollows generalizing is with
  | nil =>
    cases h
    rfl
  | @cons id step ids steps hstep _ ih =>
    obtain ⟨kind, hkind, hdoes⟩ := hstep
    cases h with
    | @cons _ pass' i _ is hpass' hi hrest =>
      cases hpass.symm.trans hpass'
      have happends : (((l.appends id).map Instruction.addDep).map (Instruction.tally (sizes s))).sum = 0 := by
        simp [Instruction.tally, Function.comp_def]
      rw [List.map_append, List.sum_append, List.map_cons, List.sum_cons, happends, add_zero, ih hrest,
        hi.tally_eq hwords hkind hdoes, List.map_cons, List.sum_cons]

theorem sum_passes (h : Laid g l passes (sites ids n) is) (hfollows : g.Follows s.part ids steps)
    (hn : n ≤ passes.length) (hwords : ∀ pass ∈ passes, pass.InWords) :
    (is.map (Instruction.tally (sizes s))).sum =
      ((passes.take n).map fun pass => (steps.map (Step.share s.platform.registry pass)).sum).sum := by
  induction n generalizing is with
  | zero =>
    cases h
    rfl
  | succ n ih =>
    rw [sites_succ] at h
    obtain ⟨is₁, is₂, rfl, h₁, h₂⟩ := h.split
    have hpass : passes[n]? = some passes[n] := List.getElem?_eq_getElem hn
    rw [List.map_append, List.sum_append, ih h₁ (Nat.le_of_lt hn), List.take_succ_eq_append_getElem hn,
      List.map_append, List.sum_append,
      h₂.sum_pass hfollows hpass (hwords _ (List.getElem_mem hn)), List.map_singleton, List.sum_singleton]

end Laid

-- No node is a barrier, so that only the ending can have one.
theorem Made.endsWithBarrier_eq (h : Made r s.part g batch place d l passes m) :
    endsWithBarrier m.instructions = endsWithBarrier l.ending.instructions := by
  obtain ⟨nodes, blocks, his, hlaid⟩ := h.instructions
  have hblocks : ∀ i ∈ blocks, i.opcode ≠ .barrier := by
    intro i hi
    rcases hlaid.origin hi with ⟨_, rfl⟩ | ⟨_, _, _, _, hissued⟩
    case inl => exact nofun
    case inr => exact fun heq => by cases heq ▸ hissued.isNode
  have hinner : ∀ i ∈ .begin nodes s.part.tasks.length l.lists.lists.length :: .context l.device :: blocks,
      i.opcode ≠ .barrier := by
    simp only [List.forall_mem_cons]
    exact ⟨nofun, nofun, hblocks⟩
  have hending : l.ending.instructions ≠ [] := by cases l.ending <;> exact nofun
  rw [his]
  exact endsWithBarrier_append hinner hending

-- What the instructions of a machine add.
theorem Made.sum_tally (h : Made s.platform.registry s.part g batch place d l passes m)
    (hfollows : g.Follows s.part l.order steps) (hwords : ∀ k, s.platform.registry.byteLength k < wordLimit) :
    (m.instructions.map (Instruction.tally (sizes s))).sum =
      Step.total s.platform.registry passes.length steps +
        { instructions := 3 + (endsWithBarrier m.instructions).toNat
          barriers := (endsWithBarrier m.instructions).toNat } := by
  have hinWords := Pass.plan_inWords h.plan fun b _ => hwords b.object.handle
  have hbound : ∀ step ∈ steps, step.Bound s.part := by
    intro step hstep
    obtain ⟨id, _, kind, _, hdoes⟩ := exists_of_forall₂ hfollows hstep
    exact Step.bound_of_does hdoes
  obtain ⟨nodes, blocks, his, hlaid⟩ := h.instructions
  have hblocks := hlaid.sum_passes hfollows (Nat.le_refl _) hinWords
  rw [List.take_length, Step.sum_shares h.plan hbound] at hblocks
  rw [h.endsWithBarrier_eq, his]
  simp only [List.map_cons, List.sum_cons, List.map_append, List.sum_append, hblocks]
  rw [add_left_comm (Instruction.tally _ (.context _)), add_left_comm]
  congr 1
  cases l.ending <;> rfl

end Compile
namespace Schedule

variable {rest : Nat → List (BufferId × Nat)} {place : Nat} {q : Registry} {s t : Hosted Schedule} {m : Machine}
  {batch : Option Nat}

-- The program is one for the steps, and the counters went up from `c` by what it stands for: some instructions for
-- each step in each pass, and all bytes once, whatever batches it was made for.
def Accounts (place : Nat) (q : Registry) (steps : List Step) (config : Config) (c : Counters)
    (t : Hosted Schedule) : Prop :=
  ∃ program is, t.part.program? = some program ∧ program.decode = .ok is ∧
    (∃ batch, Compiles q place steps config batch program) ∧
    ∀ batch, Compiles q place steps config batch program → ∃ passes,
      Pass.plan q t.part.context batch = .ok passes ∧ t.platform.counters = c.plus
        { executions := 1
          instructions := 3 + passes.length * steps.length + (endsWithBarrier is).toNat
          kernels := passes.length * (steps.filterMap Step.task?).length
          barriers := (endsWithBarrier is).toNat
          bytesIn := Step.bytesIn q steps
          bytesOut := Step.bytesOut q steps }

namespace Equipped

theorem run_accounts (h : Equipped place q s) (hlodged : Lodged rest ⟨s.platform, s.part.tenant⟩)
    (harrays : ∀ step ∈ s.part.steps, ∀ o ∈ step.objects, o.isScalar = false) (hm : s.part.machine = some m) :
    (Schedule.onContext m.execute).Ends s fun result t =>
      ∀ e, result = .ok e → Accounts place q s.part.steps s.part.config s.platform.counters t := by
  obtain ⟨batch₀, program, machine, hcompiles₀, hcreate, rfl⟩ := h.made m hm
  obtain ⟨-, hmachine, hdecode⟩ := Compile.create_ok hcreate
  have hprogram : machine.program = program := congrArg Machine.program hmachine
  rcases hrun : Machine.execute { machine with counted := true } ⟨s.platform, s.part.context⟩ with ⟨_ | e, u⟩
  case error =>
    rw [Action.Ends, Schedule.onContext, Hosted.onPiece, hrun]
    intro e he
    cases he
  case ok =>
    have hobjects : ∀ o ∈ s.part.context.objects, o.isScalar = false := by
      obtain ⟨⟨_, _, _, hrenders⟩, -⟩ := h.renders hm
      intro o ho
      obtain ⟨step, hstep, ho⟩ := hrenders.objects o ho
      exact harrays step hstep o ho
    have hmeters := Machine.execute_meters rfl hobjects hrun
    rw [Action.Ends, Schedule.onContext, Hosted.onPiece, hrun]
    intro _ _
    refine ⟨program, machine.instructions, ?_, hdecode, ⟨batch₀, hcompiles₀⟩, fun batch hcompiles => ?_⟩
    case refine_1 => exact hprogram ▸ congrArg (Option.map Machine.program) hm
    case refine_2 =>
      -- the program may have been made for other batches, and is as good as made for these
      obtain ⟨g, _, _, l, passes, hmade, hrenders⟩ := h.renders_of_compiles hm (hprogram.symm ▸ hcompiles)
      have hwords (k : Handle) : s.platform.registry.byteLength k < wordLimit := hlodged.words k
      have hlengths : q.byteLength = s.platform.registry.byteLength := funext fun k => (h.lengths k).symm
      refine ⟨passes, (Compile.plan_of_tables hmeters.objects fun k => congrFun hlengths k).trans hmade.plan, ?_⟩
      rw [hmeters.counters, hmade.sum_tally hrenders.follows hwords]
      refine congrArg _ (Tally.ext rfl ?_ rfl ?_ ?_ ?_)
      case refine_1 =>
        change passes.length * s.part.steps.length + (3 + _) = _
        rw [Nat.add_left_comm, Nat.add_assoc]
      case refine_2 => exact Nat.zero_add _
      case refine_3 => rw [Step.bytesIn, hlengths]; rfl
      case refine_4 => rw [Step.bytesOut, hlengths]; rfl

theorem execute_accounts (h : Equipped place q s) (hlodged : Lodged rest ⟨s.platform, s.part.tenant⟩)
    (harrays : ∀ step ∈ s.part.steps, ∀ o ∈ step.objects, o.isScalar = false) :
    Schedule.execute.Ends s fun result t =>
      ∀ e, result = .ok e → Accounts place q s.part.steps s.part.config s.platform.counters t := by
  refine h.execute_of_run hlodged (fun _ _ _ _ _ => nofun) fun t m ht hlodged' hplatform hsteps hconfig hm => ?_
  have hrun := ht.run_accounts hlodged' (hsteps ▸ harrays) hm
  rwa [hplatform, hsteps, hconfig] at hrun

end Equipped
end Schedule

namespace Neighbourhood

variable {place k : Nat}

-- Whatever was asked of the schedules on a device before: where all objects are arrays, an execution of one of them
-- that does well adds to the counters what its steps stand for.
theorem proceed_accounts {p : Platform} (hfresh : House.Fresh ⟨p, []⟩) (hplace : place < p.channels.length)
    (plans : List Plan) (moves : List (Nat × Affair)) :
    let h := (settle p place plans).proceed moves
    ∀ x, h.neighbours[k]? = some x → (∀ step ∈ x.schedule.steps, ∀ o ∈ step.objects, o.isScalar = false) →
      ∀ e t, Schedule.execute ⟨h.platform, x.schedule⟩ = (.ok e, t) →
        Schedule.Accounts place p.registry x.schedule.steps x.schedule.config h.platform.counters t := by
  intro h x hx harrays e t hexecute
  have horderly : h.Orderly place p.registry := (settle_orderly hfresh hplace plans).proceed moves
  have haccounts := (horderly.equipped k x hx).execute_accounts (horderly.sound.lodged hx) harrays
  exact haccounts.of_eq hexecute e rfl

-- An object is counted up once more behind the step that brings it out, and it comes over byte by byte.
def countings : List (Nat × Affair) :=
  [(0, .turn .execute), (1, .turn .execute), (0, .push (.task (House.calling "increment" House.first))),
    (0, .turn (.compile (some 1))), (0, .turn .execute)]

def counted : Neighbourhood :=
  (settle House.inn.platform 0 errands).proceed countings

theorem inn_accounts :
    House.Fresh ⟨House.inn.platform, []⟩ ∧ 0 < House.inn.platform.channels.length ∧
      ∃ x e t, counted.neighbours[0]? = some x ∧
        (∀ step ∈ x.schedule.steps, ∀ o ∈ step.objects, o.isScalar = false) ∧
        Schedule.execute ⟨counted.platform, x.schedule⟩ = (.ok e, t) ∧
        Schedule.Accounts 0 House.inn.platform.registry x.schedule.steps x.schedule.config
          counted.platform.counters t ∧
        t.platform.counters = counted.platform.counters.plus
          { executions := 1, instructions := 12, kernels := 4, barriers := 1, bytesIn := 2, bytesOut := 2 } := by
  have hfresh : House.Fresh ⟨House.inn.platform, []⟩ := ⟨rfl, by simp [House.inn], by simp [House.inn], by decide⟩
  have hplace : 0 < House.inn.platform.channels.length := by decide
  have hcounted : (counted.neighbours[0]?.map fun x =>
      (x.schedule.steps.all (·.objects.all (!·.isScalar)),
        (Schedule.execute ⟨counted.platform, x.schedule⟩).1.isOk,
        (Schedule.execute ⟨counted.platform, x.schedule⟩).2.platform.counters)) =
      some (true, true, counted.platform.counters.plus
        { executions := 1, instructions := 12, kernels := 4, barriers := 1, bytesIn := 2, bytesOut := 2 }) := by
    decide +kernel
  obtain ⟨x, hx, hfacts⟩ := Option.map_eq_some_iff.mp hcounted
  rcases hexecute : Schedule.execute ⟨counted.platform, x.schedule⟩ with ⟨result, t⟩
  simp only [hexecute, Prod.mk.injEq, List.all_eq_true, Bool.not_eq_true'] at hfacts
  obtain ⟨harrays, hok, hcounters⟩ := hfacts
  cases result with
  | error e => cases hok
  | ok e =>
    have haccounts := proceed_accounts hfresh hplace errands countings x hx harrays e t hexecute
    exact ⟨hfresh, hplace, x, e, t, hx, harrays, hexecute, haccounts, hcounters⟩

end Neighbourhood
end Offload
