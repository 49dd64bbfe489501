import Offload.Machine
import Offload.Compile
import Offload.Proofs.Numbering
import Offload.Wiring

/-!
Programs are made without a device. Whatever goes wrong until there is a machine, the error names no event, and
what comes of it is a matter of the tables and of how long the objects are.
-/

namespace Offload

abbrev Action.Nameless {σ α : Type} (x : Action σ α) : Prop :=
  x.Errs Error.Nameless

-- A request was ruled out by its own arguments, and not because of an instruction that was to be replaced.
def Error.IsMisuse : Error → Prop
  | .config (.rewriteMismatch ..) => False
  | .config _ => True
  | _ => False

theorem Error.IsMisuse.exists_cause {e : Error} (h : e.IsMisuse) :
    ∃ cause, e = .config cause ∧ ∀ source target found, cause ≠ .rewriteMismatch source target found := by
  cases e with
  | config cause =>
    refine ⟨cause, rfl, fun source target found hcause => ?_⟩
    subst hcause
    exact h
  | _ => exact h.elim

abbrev Misused {α : Type} (x : Except Error α) : Prop :=
  Erring Error.IsMisuse x

theorem Erring.nameless {α : Type} {x : Except Error α} (h : Misused x) : Namelessly x := by
  refine h.mono fun e he => ?_
  obtain ⟨cause, rfl, _⟩ := he.exists_cause
  trivial

namespace Graph

theorem nameless_add (g : Graph) (kind : NodeKind) (inputs : List Nat) : Namelessly (g.add kind inputs) := by
  unfold add
  split
  case h_1 => exact .throw trivial
  case h_2 => exact .pure _

theorem misused_producerWithin (g : Graph) (fuel id : Nat) : Misused (g.producerWithin fuel id) := by
  induction fuel generalizing id with
  | zero => exact .throw trivial
  | succ fuel ih =>
    unfold producerWithin
    split
    case h_1 => exact .throw trivial
    case h_2 => exact ih _
    case h_3 => exact .pure _
    case h_4 => exact .pure _

theorem misused_nodeDependencies (g : Graph) (n : Node) : Misused (g.nodeDependencies n) := by
  unfold nodeDependencies
  split
  case isTrue => exact .bind (.mapM (fun _ => g.misused_producerWithin _ _) _) fun _ => .pure _
  case isFalse => exact .pure _

theorem misused_dependencies (g : Graph) : Misused g.dependencies :=
  .bind (.mapM g.misused_nodeDependencies _) fun _ => .pure _

theorem misused_order (g : Graph) (d : Dependencies) : Misused (g.order d) := by
  unfold order
  dsimp only
  split
  case isTrue => exact .pure _
  case isFalse => exact .throw trivial

end Graph

theorem Context.misused_place (c : Context) (device : Nat) : Misused (c.place device) := by
  unfold place
  split
  case h_1 => exact .pure _
  case h_2 => exact .throw trivial

namespace Pass

theorem misused_commonShape (r : Registry) (bs : List Binding) (shape : Option BatchShape) :
    Misused (commonShape r bs shape) := by
  induction bs generalizing shape with
  | nil => exact .pure _
  | cons b bs ih =>
    unfold commonShape
    split
    case h_1 => exact .throw trivial
    case h_2 =>
      dsimp only
      split
      case isTrue => exact ih _
      case isFalse => exact .throw trivial

theorem misused_plan (r : Registry) (c : Context) (batch : Option Nat) : Misused (plan r c batch) := by
  cases batch with
  | none => exact .pure _
  | some batch =>
    unfold plan
    dsimp only
    split
    case isTrue => exact .throw trivial
    case isFalse =>
      refine .bind (misused_commonShape _ _ _) fun shape => ?_
      split
      case h_1 =>
        split
        case isTrue => exact .throw trivial
        case isFalse => exact .pure _
      case h_2 => exact .throw trivial

-- All that counts is what is bound, and how long it is.
theorem commonShape_congr {r r' : Registry} {bs bs' : List Binding}
    (h : List.Forall₂ (fun b b' => b.object = b'.object ∧
      r.byteLength b.object.handle = r'.byteLength b.object.handle) bs bs') (shape : Option BatchShape) :
    commonShape r bs shape = commonShape r' bs' shape := by
  induction h generalizing shape with
  | nil => rfl
  | @cons b b' bs bs' hb _ ih =>
    obtain ⟨hobject, hlength⟩ := hb
    unfold commonShape
    rw [← hobject, hlength]
    simp only [ih]

theorem plan_congr {r r' : Registry} {c c' : Context}
    (h : List.Forall₂ (fun b b' => b.object = b'.object ∧
      r.byteLength b.object.handle = r'.byteLength b.object.handle) c.bindings c'.bindings)
    (batch : Option Nat) : plan r c batch = plan r' c' batch := by
  cases batch with
  | none => rfl
  | some batch => rw [plan, plan, commonShape_congr h]

end Pass

namespace Compile

theorem misused_device (g : Graph) : Misused (device g) := by
  unfold device
  split
  case h_1 => exact .throw trivial
  case h_2 =>
    split
    case h_1 => exact .pure _
    case h_2 => exact .throw trivial
  case h_3 => exact .throw trivial

theorem misused_layout (g : Graph) (device : Nat) : Misused (layout g device) :=
  .bind g.misused_dependencies fun _ => .bind (g.misused_order _) fun _ => .pure _

theorem nameless_emit (i : Instruction) : (Assembly.emit i).Nameless := by
  refine .bind .get fun a => ?_
  dsimp only
  split
  case h_1 => exact .bind (.set _) fun _ => .throw trivial
  case h_2 =>
    split
    case isTrue => exact .throw trivial
    case isFalse => exact .set _

theorem nameless_rewriteLast (source target : Opcode) : (Assembly.rewriteLast source target).Nameless := by
  refine .bind .get fun a => ?_
  split
  case h_1 =>
    split
    case isTrue => exact .set _
    case isFalse => exact .throw trivial
  case h_2 => exact .throw trivial

theorem nameless_assemble (body : List Instruction) (ending : Ending) : (assemble body ending).Nameless := by
  refine .bind (.forM nameless_emit _) fun _ => ?_
  cases ending with
  | blockingStreamOut => exact .bind (nameless_rewriteLast _ _) fun _ => nameless_emit _
  | barrier => exact .bind (nameless_emit _) fun _ => nameless_emit _

end Compile

theorem nameless_compile (r : Registry) (c : Context) (g : Graph) (batch : Option Nat) (config : Config) :
    Namelessly (compile r c g batch config) := by
  refine .bind (Compile.misused_device g).nameless fun _ => .bind (c.misused_place _).nameless fun _ =>
    .bind (Compile.misused_layout g _).nameless fun l => .bind (Pass.misused_plan r c batch).nameless fun passes => ?_
  have hassemble := Compile.nameless_assemble (Compile.body g l c.tasks.length passes) l.ending
    { limit := config.maxBytecodeSize }
  exact .bind hassemble fun _ => .pure _

theorem compile_congr {r r' : Registry} {c c' : Context} (hplace : ∀ device, c.place device = c'.place device)
    (htasks : c.tasks = c'.tasks) (hbindings : List.Forall₂ (fun b b' => b.object = b'.object ∧
      r.byteLength b.object.handle = r'.byteLength b.object.handle) c.bindings c'.bindings)
    (g : Graph) (batch : Option Nat) (config : Config) :
    compile r c g batch config = compile r' c' g batch config := by
  unfold compile
  simp only [hplace, Pass.plan_congr hbindings, htasks]

theorem Program.nameless_decodeFrom (lists fuel offset : Nat) (bytes : Bytes) :
    Namelessly (decodeFrom lists fuel offset bytes) := by
  induction fuel generalizing offset bytes with
  | zero => cases bytes <;> exact .throw trivial
  | succ fuel ih =>
    cases bytes with
    | nil => exact .throw trivial
    | cons byte bytes =>
      unfold decodeFrom
      split
      case h_1 => exact .throw trivial
      case h_2 =>
        split
        case h_1 => exact .throw trivial
        case h_2 =>
          dsimp only
          split
          case isTrue =>
            split
            case isTrue => exact .pure _
            case isFalse => exact .throw trivial
          case isFalse => exact .bind (ih _ _) fun _ => .pure _

theorem Config.nameless_validate (c : Config) : Namelessly c.validate := by
  unfold validate
  split
  case isTrue => exact .throw trivial
  case isFalse =>
    split
    case h_1 => exact .throw trivial
    case h_2 =>
      split
      case isTrue => exact .throw trivial
      case isFalse => exact .pure _

theorem Machine.nameless_create (program : Program) (config : Config) : Namelessly (create program config) := by
  refine .bind config.nameless_validate fun _ => .bind (Program.nameless_decodeFrom _ _ _ _) fun instructions => ?_
  split
  case h_1 =>
    split
    case isTrue => exact .pure _
    case isFalse => exact .throw trivial
  case h_2 => exact .throw trivial

namespace Wiring

theorem nameless_addNode (kind : NodeKind) (inputs : List Nat) : (addNode kind inputs).Nameless :=
  .bind .get fun w => .bind (.lift (w.graph.nameless_add _ _)) fun _ => .bind (.set _) fun _ => .pure _

theorem nameless_bind (o : HostObject) : (bind o).Nameless :=
  .bind .get fun _ => .bind (.set _) fun _ => .pure _

theorem nameless_source (object : Nat) : (source object).Nameless := by
  refine .bind .get fun w => ?_
  split
  case h_1 => exact .bind (nameless_addNode _ _) fun _ => .pure _
  case h_2 => exact .pure _

theorem nameless_argumentSources (arguments : List Argument) (inputs : List Nat) :
    (argumentSources arguments inputs).Nameless := by
  induction arguments generalizing inputs with
  | nil => exact .pure _
  | cons a arguments ih =>
    refine .bind (nameless_bind _) fun _ => .bind (nameless_source _) fun found => ?_
    split
    case h_1 => exact ih _
    case h_2 => exact ih _

theorem nameless_step (step : Step) : (Wiring.step step).Nameless := by
  cases step with
  | streamIn o =>
    exact .bind (nameless_bind o) fun _ => .bind (.modify _) fun _ => .bind (nameless_addNode _ _) fun _ =>
      .bind (.modify _) fun _ => .pure _
  | task t =>
    exact .bind .get fun _ => .bind (.set _) fun _ => .bind (nameless_argumentSources _ _) fun _ =>
      .bind (nameless_addNode _ _) fun _ => .bind (.modify _) fun _ => .pure _
  | streamOut o =>
    refine .bind (nameless_bind o) fun _ => .bind (.modify _) fun _ => .bind (nameless_source _) fun found => ?_
    split
    case h_1 => exact nameless_addNode _ _
    case h_2 => exact nameless_addNode _ _

theorem nameless_build (c : Context) (device : Nat) (steps : List Step) : Namelessly (build c device steps) := by
  have hstart : Namelessly (start c device) :=
    .bind (c.misused_place _).nameless fun _ => .bind (Graph.nameless_add _ _ _) fun _ => .pure _
  have hsteps : (steps.forM fun s => discard (Wiring.step s) : Action Wiring Unit).Nameless :=
    .forM (fun s => .bind (nameless_step s) fun _ => .pure _) steps
  exact .bind hstart fun w => .bind (hsteps w) fun _ => .pure _

end Wiring

end Offload
