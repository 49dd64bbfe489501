import Offload.Proofs.Bystanders
import Offload.Proofs.Nameless
import Offload.Schedule

/-!
Neighbours: schedules that share a device and the registry. In whatever order they take their turns, each of them
minds its own business: its own buffers, and the objects of its own steps.
-/

namespace Offload

-- What a schedule is to do.
structure Plan where
  name   : String
  config : Config
  steps  : List Step

def Step.handles (step : Step) : List Handle :=
  step.objects.map HostObject.handle

def Plan.handles (plan : Plan) : List Handle :=
  plan.steps.flatMap Step.handles

-- A schedule, with what is left of its executions. That may be waited for also when the schedule is gone.
structure Neighbour where
  schedule : Schedule
  handles  : List Execution := []
  dropped  : Bool := false

-- What is left of an execution is called by its place. One that is not there is passed over, and so is all that
-- is asked of a schedule that is gone.
inductive Turn
  | compile (batch : Option Nat)
  | execute
  | wait (handle : Nat)
  | sync (objects : List HostObject)
  | drop

inductive Yield
  | program (program : Program)
  | execution (e : Execution)
  | states (states : List Progress)
  | nothing

namespace Neighbour

abbrev On := Action (Hosted Neighbour)

def onSchedule {α : Type} (act : Schedule.On α) : On α :=
  Hosted.onPiece schedule (fun x s => { x with schedule := s }) act

def modifyNeighbour (f : Neighbour → Neighbour) : On Unit :=
  modify fun s => { s with part := f s.part }

def unlessDropped (act : On Yield) : On Yield := do
  if (← get).part.dropped then return .nothing
  act

def await : Action (Hosted Execution) Yield := do
  Execution.wait
  return .states (← get).part.states

def wait (handle : Nat) : On Yield := do
  match (← get).part.handles[handle]? with
  | none => return .nothing
  | some e => Hosted.onPiece (fun _ => e) (fun x e => { x with handles := x.handles.set handle e }) await

def take : Turn → On Yield
  | .compile batch => unlessDropped do
    return .program (← onSchedule (Schedule.compile batch))
  | .execute => unlessDropped do
    let e ← onSchedule Schedule.execute
    modifyNeighbour fun x => { x with handles := x.handles ++ [e] }
    return .execution e
  | .wait handle => wait handle
  | .sync objects => unlessDropped do
    onSchedule (Schedule.sync objects)
    return .nothing
  | .drop => unlessDropped do
    onSchedule (Schedule.onContext Context.invalidate)
    modifyNeighbour fun x => { x with dropped := true }
    return .nothing

-- What comes of one turn after the other when nobody else is there.
def run : List Turn → Hosted Neighbour → List (Except Error Yield) × Hosted Neighbour
  | [], s => ([], s)
  | turn :: turns, s =>
    let (result, s) := take turn s
    let (results, s) := run turns s
    (result :: results, s)

end Neighbour

-- The schedule of a plan, before its first turn.
def Plan.neighbour (plan : Plan) (p : Platform) (place : Nat) : Neighbour where
  schedule := { Schedule.create p plan.name place with config := plan.config, steps := plan.steps }

structure Neighbourhood where
  platform   : Platform
  neighbours : List Neighbour

namespace Neighbourhood

def after (h : Neighbourhood) (k : Nat) (s : Hosted Neighbour) : Neighbourhood where
  platform := s.platform
  neighbours := h.neighbours.set k s.part

-- The schedules of some plans, all on the same device.
def settle (p : Platform) (place : Nat) (plans : List Plan) : Neighbourhood where
  platform := p
  neighbours := plans.map (·.neighbour p place)

-- What comes of every turn, for the one whose turn it was.
def run (h : Neighbourhood) : List (Nat × Turn) → List (Nat × Except Error Yield) × Neighbourhood
  | [] => ([], h)
  | (k, turn) :: moves =>
    match h.neighbours[k]? with
    | none => run h moves
    | some x =>
      let (result, s) := Neighbour.take turn ⟨h.platform, x⟩
      let (results, h) := run (h.after k s) moves
      ((k, result) :: results, h)

end Neighbourhood

-- Waiting is nothing that a tenant would notice.
theorem Tenant.Lodged.idle {rest : Nat → List (BufferId × Nat)} {p p' : Platform} {t : Tenant}
    (h : Lodged rest ⟨p, t⟩) (hidle : p.Idle p') : Stays rest ⟨p, t⟩ ⟨p', t⟩ := by
  have hlengths (k : Handle) : p'.registry.byteLength k = p.registry.byteLength k := by
    rw [Registry.byteLength, hidle.bytes]
    rfl
  refine ⟨⟨⟨hidle.channels ▸ h.books.attached, fun place => ?_, fun place => ?_, h.books.housed, h.books.tidy⟩,
    ⟨fun place => hidle.honest place (h.trust.honest place), fun b hb => hlengths _ ▸ h.trust.inside b hb⟩,
    fun k => hlengths k ▸ h.words k, h.binds, h.covers,
    fun m hm => (h.suits m hm).mono hlengths List.prefix_rfl List.prefix_rfl⟩, hidle.channels, hlengths⟩
  case refine_1 => exact hidle.memory place ▸ h.books.orderly place
  case refine_2 => exact hidle.memory place ▸ h.books.balanced place

namespace Schedule

open Context (Books Grown)
open Tenant (Lodged Stays)

variable {α : Type} {rest : Nat → List (BufferId × Nat)} {place : Nat} {own : Handle → Prop} {s t u : Hosted Schedule}

def tenant (s : Schedule) : Tenant where
  context := s.context
  graphs := s.graph.toList
  machines := s.machine.toList

-- Nothing but the objects of the steps is bound, and before the steps are wired there is nothing at all.
structure Proper (place : Nat) (own : Handle → Prop) (s : Schedule) : Prop where
  devices : s.context.devices = [place]
  steps   : ∀ step ∈ s.steps, ∀ h ∈ step.handles, own h
  bound   : ∀ b ∈ s.context.bindings, own b.object.handle
  blank   : s.graph = none → s.machine = none ∧ s.context = { name := s.context.name, devices := [place] }

-- What the steps are wired into for the first time.
theorem Proper.traced {s : Schedule} (hproper : s.Proper place own) (hgraph : s.graph = none) {w : Wiring}
    (hw : Wiring.build s.context s.device s.steps = .ok w) :
    Wiring.Traced s.context s.steps w ∧ ∀ b ∈ w.context.bindings, own b.object.handle := by
  have hcontext := (hproper.blank hgraph).2
  have htraced := Wiring.traced_of_build (by rw [hcontext]) (by rw [hcontext]) hw
  refine ⟨htraced, fun b hb => ?_⟩
  obtain ⟨step, hstep, ho⟩ := htraced.objects b.object (List.mem_map_of_mem hb)
  exact hproper.steps step hstep _ (List.mem_map_of_mem ho)

-- What others rely on, and the schedule itself.
structure Minds (rest : Nat → List (BufferId × Nat)) (place : Nat) (own : Handle → Prop) (s t : Hosted Schedule) :
    Prop where
  stays  : Stays rest ⟨s.platform, s.part.tenant⟩ ⟨t.platform, t.part.tenant⟩
  proper : t.part.Proper place own
  leaves : s.platform.Leaves place ((s.part.context.heldAt place).map Prod.fst) own t.platform

-- The steps were wired or a program was made, and nothing happened on the platform.
structure Prepares (rest : Nat → List (BufferId × Nat)) (place : Nat) (own : Handle → Prop) (s t : Hosted Schedule) :
    Prop where
  stays    : Stays rest ⟨s.platform, s.part.tenant⟩ ⟨t.platform, t.part.tenant⟩
  proper   : t.part.Proper place own
  grown    : Grown s.part.context t.part.context
  platform : t.platform = s.platform

theorem Prepares.minds (h : Prepares rest place own s t) : Minds rest place own s t :=
  ⟨h.stays, h.proper, h.platform ▸ .refl _⟩

theorem Prepares.trans (h : Prepares rest place own s t) (h' : Prepares rest place own t u) :
    Prepares rest place own s u :=
  ⟨h.stays.trans h'.stays, h'.proper, Context.grown_lasting.trans h.grown h'.grown, h'.platform.trans h.platform⟩

theorem prepares_refl (hlodged : Lodged rest ⟨s.platform, s.part.tenant⟩) (hproper : s.part.Proper place own) :
    Prepares rest place own s s :=
  ⟨hlodged.stays, hproper, Context.grown_lasting.refl _, rfl⟩

theorem Prepares.minds_of_minds (h : Prepares rest place own s t) (h' : Minds rest place own t u) :
    Minds rest place own s u := by
  have hheld : t.part.context.heldAt place = s.part.context.heldAt place := by
    rw [Context.heldAt, Context.heldAt, h.grown.held, h.grown.activePlace?]
  have hleaves := h'.leaves
  rw [h.platform, hheld] at hleaves
  exact ⟨h.stays.trans h'.stays, h'.proper, hleaves⟩

theorem builtGraph_prepares (hlodged : Lodged rest ⟨s.platform, s.part.tenant⟩)
    (hproper : s.part.Proper place own) :
    builtGraph.Ends s fun result t => Prepares rest place own s t ∧
      ∀ g, result = .ok g → t.part.graph = some g := by
  have hrefl := prepares_refl hlodged hproper
  unfold builtGraph
  refine Action.Ends.bind_get ?_
  dsimp only
  cases hgraph : s.part.graph with
  | some g => exact ⟨hrefl, fun _ hg => by cases hg; exact hgraph⟩
  | none =>
    refine Action.Ends.bind_lift (fun w hw => ?_) fun _ _ => ⟨hrefl, nofun⟩
    have hsteps := Wiring.build_ok hw
    obtain ⟨htraced, hbound⟩ := hproper.traced hgraph hw
    have hgrown := (Wiring.grows_steps s.part.steps).of_eq hsteps
    have hcovers := Wiring.covers_steps hsteps (Wiring.covers_start _ s.part.device)
    have hstays : Stays rest ⟨s.platform, s.part.tenant⟩ ⟨s.platform,
        { s.part with context := w.context, graph := some w.graph : Schedule }.tenant⟩ := by
      simpa [tenant, hgraph] using (hlodged.grown hgrown).trans ((hlodged.grown hgrown).addGraph hcovers)
    have hdevices := htraced.devices.trans hproper.devices
    exact Action.Ends.bind_modify
      ⟨⟨hstays, ⟨hdevices, hproper.steps, hbound, nofun⟩, hgrown, rfl⟩, fun g hg => by cases hg; rfl⟩

theorem compile_prepares (hlodged : Lodged rest ⟨s.platform, s.part.tenant⟩)
    (hproper : s.part.Proper place own) (batch : Option Nat) :
    (compile batch).Ends s fun _ t => Prepares rest place own s t := by
  unfold compile
  refine (builtGraph_prepares hlodged hproper).bind (fun g t ⟨ht, hgraph⟩ => ?_) fun _ _ ht => ht.1
  have hgraph := hgraph g rfl
  have hmem : g ∈ t.part.tenant.graphs := by simp [tenant, hgraph]
  refine Action.Ends.bind_get (Action.Ends.bind_lift (fun program hprogram => ?_) fun _ _ => ht)
  refine Action.Ends.bind_lift (fun m hm => ?_) fun _ _ => ht
  have hsuits := Compile.suits_of_compile hprogram hm (ht.stays.covers g hmem) ht.stays.binds ht.stays.words
  refine ht.trans ⟨⟨⟨ht.stays.books, ht.stays.trust, ht.stays.words, ht.stays.binds, ht.stays.covers, ?_⟩, rfl,
    fun _ => rfl⟩, ⟨ht.proper.devices, ht.proper.steps, ht.proper.bound, ?_⟩, Context.grown_lasting.refl _, rfl⟩
  case refine_1 =>
    intro m' hm'
    cases List.mem_singleton.mp hm'
    exact hsuits
  case refine_2 =>
    intro hnone
    cases hgraph.symm.trans hnone

theorem onContext_minds (hlodged : Lodged rest ⟨s.platform, s.part.tenant⟩) (hproper : s.part.Proper place own)
    {P : Prop} (hP : P) {act : Context.On α}
    (hact : act.Ends ⟨s.platform, s.part.context⟩ fun _ v => Context.Sustains P rest ⟨s.platform, s.part.context⟩ v)
    (hdeals : act.Ends ⟨s.platform, s.part.context⟩ fun _ v =>
      Context.Deals (fun _ _ => True) ⟨s.platform, s.part.context⟩ v)
    (hschooled : act.Keeps Context.Schooled)
    (hblank : s.part.graph = none → (act ⟨s.platform, s.part.context⟩).2.part = s.part.context) :
    (onContext act).Ends s fun _ t => Minds rest place own s t := by
  have hbound := Context.forall_objects (Q := (own ·.handle)) hact.stable.objects hproper.bound
  refine ⟨hlodged.sustains hP hact, ⟨(hschooled _).devices.trans hproper.devices, hproper.steps, hbound,
    fun hgraph => ?_⟩, hdeals.leaves hlodged.books (hschooled _) hproper.bound place⟩
  obtain ⟨hmachine, hcontext⟩ := hproper.blank hgraph
  have hsame : (onContext act s).2.part.context = s.part.context := hblank hgraph
  rw [hsame]
  exact ⟨hmachine, hcontext⟩

-- A machine is for a graph that is there.
theorem run_minds (hlodged : Lodged rest ⟨s.platform, s.part.tenant⟩) (hproper : s.part.Proper place own)
    {m : Machine} (hm : s.part.machine = some m) :
    (onContext m.execute).Ends s fun result t => Minds rest place own s t ∧
      ∀ e, result = .ok e → ∀ h ∈ e.pending, own h := by
  have hsuits := hlodged.suits m (by simp [tenant, hm])
  have hsustains := (Machine.execute_sustains hlodged.books hsuits).mono fun _ _ ht => ht.1
  have hdeals := Machine.execute_deals (A := fun _ _ => True) hlodged.books hsuits.grounded
    (fun _ _ _ _ _ _ _ => trivial) fun _ => trivial
  have hminds := onContext_minds hlodged hproper hlodged.trust hsustains hdeals m.schooled_execute fun hgraph => by
    cases hm.symm.trans (hproper.blank hgraph).1
  refine ⟨hminds, fun e he h hh => ?_⟩
  have hsecures := (Machine.execute_vouches hlodged.books hsuits).2 e he
  obtain ⟨b, hb, rfl⟩ := (hsecures.offers h hh).bound
  exact hminds.proper.bound b hb

theorem execute_minds (hlodged : Lodged rest ⟨s.platform, s.part.tenant⟩) (hproper : s.part.Proper place own) :
    execute.Ends s fun result t => Minds rest place own s t ∧
      ∀ e, result = .ok e → ∀ h ∈ e.pending, own h := by
  have hu := prepares_refl hlodged hproper
  unfold execute
  refine Action.Ends.bind_get ?_
  split
  case' isTrue =>
    refine (compile_prepares hlodged hproper none).bind (fun _ u hu => ?_) fun _ _ hu => ⟨hu.minds, nofun⟩
  all_goals
    refine Action.Ends.bind_get ?_
    split
    case h_2 => exact ⟨hu.minds, nofun⟩
    case h_1 m hm =>
      exact (run_minds hu.stays.toLodged hu.proper hm).mono fun _ _ ⟨ht, hpending⟩ =>
        ⟨hu.minds_of_minds ht, hpending⟩

theorem sync_minds (hlodged : Lodged rest ⟨s.platform, s.part.tenant⟩) (hproper : s.part.Proper place own)
    (objects : List HostObject) : (sync objects).Ends s fun _ t => Minds rest place own s t := by
  refine onContext_minds (P := True) hlodged hproper trivial
    ((Context.sync_upholds hlodged.books (fun _ => hlodged.trust) objects).mono fun _ _ ht => ht.toSustains)
    ((Context.sync_deals hlodged.books objects).mono fun _ _ ht => ht.mono fun _ _ _ => trivial)
    (Context.schooled_sync objects) fun hgraph => ?_
  rw [Context.sync, Action.bind_of_ok (Action.get_apply _), (hproper.blank hgraph).2]
  rfl

theorem drop_minds (hlodged : Lodged rest ⟨s.platform, s.part.tenant⟩) (hproper : s.part.Proper place own) :
    (onContext Context.invalidate).Ends s fun _ t => Minds rest place own s t := by
  refine onContext_minds (P := True) hlodged hproper trivial
    ((Context.invalidate_upholds hlodged.books).mono fun _ _ ht => ht.1.toSustains)
    (Context.Deals.of_does .clear trivial) Context.schooled_invalidate fun hgraph => ?_
  rw [(hproper.blank hgraph).2]
  rfl

end Schedule

namespace Neighbour

open Schedule (Prepares)
open Tenant (Lodged Stays)

variable {α : Type} {rest : Nat → List (BufferId × Nat)} {place : Nat} {own : Handle → Prop} {s t u : Hosted Neighbour}

structure Proper (place : Nat) (own : Handle → Prop) (x : Neighbour) : Prop where
  schedule : x.schedule.Proper place own
  pending  : ∀ e ∈ x.handles, ∀ h ∈ e.pending, own h

structure Minds (rest : Nat → List (BufferId × Nat)) (place : Nat) (own : Handle → Prop) (s t : Hosted Neighbour) :
    Prop where
  stays  : Stays rest ⟨s.platform, s.part.schedule.tenant⟩ ⟨t.platform, t.part.schedule.tenant⟩
  proper : t.part.Proper place own
  leaves : s.platform.Leaves place ((s.part.schedule.context.heldAt place).map Prod.fst) own t.platform

theorem minds_refl (hlodged : Lodged rest ⟨s.platform, s.part.schedule.tenant⟩)
    (hproper : s.part.Proper place own) : Minds rest place own s s :=
  ⟨hlodged.stays, hproper, .refl _⟩

-- The schedule minds its business, and whatever is kept of an execution is about its objects.
theorem Minds.of_schedule {v : Hosted Schedule} (h : Schedule.Minds rest place own ⟨s.platform, s.part.schedule⟩ v)
    {handles : List Execution} (hpending : ∀ e ∈ handles, ∀ h ∈ e.pending, own h) (dropped : Bool) :
    Minds rest place own s ⟨v.platform, { schedule := v.part, handles, dropped }⟩ :=
  ⟨h.stays, ⟨h.proper, hpending⟩, h.leaves⟩

theorem unlessDropped_minds (hlodged : Lodged rest ⟨s.platform, s.part.schedule.tenant⟩)
    (hproper : s.part.Proper place own) {act : On Yield}
    (hact : act.Ends s fun _ t => Minds rest place own s t) :
    (unlessDropped act).Ends s fun _ t => Minds rest place own s t := by
  unfold unlessDropped
  refine Action.Ends.bind_get ?_
  split
  case isTrue => exact minds_refl hlodged hproper
  case isFalse => exact hact

theorem await_snd (s : Hosted Execution) : (await s).2 = (Execution.wait s).2 := by
  unfold await
  rcases hwait : Execution.wait s with ⟨e | ⟨⟩, t⟩
  case error => rw [Action.bind_of_error hwait]
  case ok =>
    rw [Action.bind_of_ok hwait]
    rfl

theorem wait_minds (hlodged : Lodged rest ⟨s.platform, s.part.schedule.tenant⟩) (hproper : s.part.Proper place own)
    (handle : Nat) : (wait handle).Ends s fun _ t => Minds rest place own s t := by
  unfold wait
  refine Action.Ends.bind_get ?_
  split
  case h_1 => exact minds_refl hlodged hproper
  case h_2 e he =>
    have hpending := hproper.pending e (List.mem_of_getElem? he)
    have hend := await_snd ⟨s.platform, e⟩
    have hawaits := Execution.wait_awaits ⟨s.platform, e⟩
    have hleaves := Execution.wait_leaves (s := ⟨s.platform, e⟩) hpending place
      ((s.part.schedule.context.heldAt place).map Prod.fst)
    rw [← hend] at hleaves
    have hidle := hawaits.idle
    rw [← hend] at hidle
    refine ⟨hlodged.idle hidle, ⟨hproper.schedule, fun e' he' h hh => ?_⟩, hleaves⟩
    rcases List.mem_or_eq_of_mem_set he' with hold | rfl
    case inl => exact hproper.pending e' hold h hh
    case inr => exact hpending h (hawaits.pending (hend ▸ hh))

theorem take_minds (hlodged : Lodged rest ⟨s.platform, s.part.schedule.tenant⟩) (hproper : s.part.Proper place own)
    (turn : Turn) : (take turn).Ends s fun _ t => Minds rest place own s t := by
  cases turn with
  | wait handle => exact wait_minds hlodged hproper handle
  | compile batch =>
    refine unlessDropped_minds hlodged hproper ?_
    have hcompile : (onSchedule (Schedule.compile batch)).Ends s fun _ t => Minds rest place own s t :=
      .of_schedule (Schedule.compile_prepares hlodged hproper.schedule batch).minds hproper.pending _
    exact hcompile.bind (fun _ _ ht => ht) fun _ _ ht => ht
  | sync objects =>
    refine unlessDropped_minds hlodged hproper ?_
    have hsync : (onSchedule (Schedule.sync objects)).Ends s fun _ t => Minds rest place own s t :=
      .of_schedule (Schedule.sync_minds hlodged hproper.schedule objects) hproper.pending _
    exact hsync.bind (fun _ _ ht => ht) fun _ _ ht => ht
  | drop =>
    refine unlessDropped_minds hlodged hproper ?_
    exact .of_schedule (Schedule.drop_minds hlodged hproper.schedule) hproper.pending true
  | execute =>
    refine unlessDropped_minds hlodged hproper ?_
    have hexecute : (onSchedule Schedule.execute).Ends s fun result t => Minds rest place own s t ∧
        ∀ e, result = .ok e → ∀ h ∈ e.pending, own h := by
      obtain ⟨hminds, hpending⟩ := Schedule.execute_minds (s := ⟨s.platform, s.part.schedule⟩) hlodged
        hproper.schedule
      exact ⟨.of_schedule hminds hproper.pending _, hpending⟩
    refine hexecute.bind (fun e t ⟨ht, hpending⟩ => ?_) fun _ _ ht => ht.1
    refine Action.Ends.bind_modify ⟨ht.stays, ⟨ht.proper.schedule, fun e' he' => ?_⟩, ht.leaves⟩
    rcases List.mem_append.mp he' with hold | hnew
    case inl => exact ht.proper.pending e' hold
    case inr => exact List.mem_singleton.mp hnew ▸ hpending e rfl

end Neighbour

theorem Plan.proper_neighbour (plan : Plan) (p : Platform) (place : Nat) :
    (plan.neighbour p place).Proper place (· ∈ plan.handles) :=
  ⟨⟨rfl, fun step hstep _ hh => List.mem_flatMap.mpr ⟨step, hstep, hh⟩, nofun, fun _ => ⟨rfl, rfl⟩⟩, nofun⟩

namespace Neighbourhood

open Tenant (Lodged)

variable {h : Neighbourhood} {place k : Nat} {own : Nat → Handle → Prop} {x : Neighbour} {turn : Turn}

def tenants (h : Neighbourhood) : List Tenant :=
  h.neighbours.map (·.schedule.tenant)

-- All buffers are accounted for, and everybody has to do with what is their own.
structure Sound (place : Nat) (own : Nat → Handle → Prop) (h : Neighbourhood) : Prop where
  house  : House.Sound h.platform h.tenants
  proper : ∀ k (x : Neighbour), h.neighbours[k]? = some x → x.Proper place (own k)

-- What the others hold.
def others (h : Neighbourhood) (k : Nat) : Nat → List (BufferId × Nat) :=
  House.heldBy (h.tenants.eraseIdx k)

theorem tenants_eq (hx : h.neighbours[k]? = some x) : h.tenants[k]? = some x.schedule.tenant := by
  rw [tenants, List.getElem?_map, hx, Option.map_some]

theorem Sound.lodged (hsound : h.Sound place own) (hx : h.neighbours[k]? = some x) :
    Lodged (h.others k) ⟨h.platform, x.schedule.tenant⟩ :=
  (hsound.house.perm (perm_cons_eraseIdx (tenants_eq hx))).lodged

theorem Sound.minds (hsound : h.Sound place own) (hx : h.neighbours[k]? = some x) (turn : Turn) :
    (Neighbour.take turn).Ends ⟨h.platform, x⟩ fun _ t =>
      Neighbour.Minds (h.others k) place (own k) ⟨h.platform, x⟩ t :=
  Neighbour.take_minds (hsound.lodged hx) (hsound.proper k x hx) turn

-- Whoever minds their business leaves everything in order.
theorem Sound.of_minds (hsound : h.Sound place own) (hx : h.neighbours[k]? = some x) {t : Hosted Neighbour}
    (hminds : Neighbour.Minds (h.others k) place (own k) ⟨h.platform, x⟩ t) : (h.after k t).Sound place own := by
  have hfirst := hsound.house.perm (perm_cons_eraseIdx (tenants_eq hx))
  refine ⟨?_, fun j y hy => ?_⟩
  case refine_1 =>
    have hnext := (hfirst.stays hminds.stays).perm (set_perm_cons (tenants_eq hx) _).symm
    rwa [tenants, ← List.map_set] at hnext
  case refine_2 =>
    obtain ⟨hlt, -⟩ := List.getElem?_eq_some_iff.mp hx
    by_cases heq : k = j
    case pos =>
      subst heq
      rw [after, List.getElem?_set_self hlt] at hy
      cases hy
      exact hminds.proper
    case neg =>
      rw [after, List.getElem?_set_ne heq] at hy
      exact hsound.proper j y hy

theorem Sound.step (hsound : h.Sound place own) (hx : h.neighbours[k]? = some x) (turn : Turn) :
    (h.after k (Neighbour.take turn ⟨h.platform, x⟩).2).Sound place own :=
  hsound.of_minds hx (hsound.minds hx turn)

theorem run_cons (hx : h.neighbours[k]? = some x) (turn : Turn) (moves : List (Nat × Turn)) :
    h.run ((k, turn) :: moves) =
      ((k, (Neighbour.take turn ⟨h.platform, x⟩).1) ::
          ((h.after k (Neighbour.take turn ⟨h.platform, x⟩).2).run moves).1,
        ((h.after k (Neighbour.take turn ⟨h.platform, x⟩).2).run moves).2) := by
  rw [run, hx]
  rfl

theorem run_cons_of_none (hnone : h.neighbours[k]? = none) (turn : Turn) (moves : List (Nat × Turn)) :
    h.run ((k, turn) :: moves) = h.run moves := by
  rw [run, hnone]

-- Time goes on, for all of them together.
theorem run_adds (hsound : h.Sound place own) (moves : List (Nat × Turn)) :
    (h.platform.channel place).Adds (fun _ => True) ((h.run moves).2.platform.channel place) := by
  induction moves generalizing h with
  | nil => exact Channel.adds_lasting.refl _
  | cons move moves ih =>
    obtain ⟨k, turn⟩ := move
    cases hx : h.neighbours[k]? with
    | none => rw [run_cons_of_none hx]; exact ih hsound
    | some x =>
      rw [run_cons hx]
      exact Channel.adds_lasting.trans (hsound.minds hx turn).leaves.adds (ih (hsound.step hx turn))

-- Whose object it is.
def Belongs (plans : List Plan) (k : Nat) (h : Handle) : Prop :=
  ∃ plan, plans[k]? = some plan ∧ h ∈ plan.handles

theorem belongs_eq {plans : List Plan} {plan : Plan} (hplan : plans[k]? = some plan) :
    Belongs plans k = (· ∈ plan.handles) :=
  funext fun _ => propext ⟨fun ⟨_, heq, hmem⟩ => Option.some.inj (hplan.symm.trans heq) ▸ hmem,
    fun hmem => ⟨plan, hplan, hmem⟩⟩

-- One after the other moves in.
theorem settle_sound {p : Platform} (hfresh : House.Fresh ⟨p, []⟩) (hplace : place < p.channels.length)
    (plans : List Plan) : (settle p place plans).Sound place (Belongs plans) := by
  have hall (ts : List Tenant) (hts : House.Sound p ts) :
      House.Sound p (ts ++ plans.map fun plan => (plan.neighbour p place).schedule.tenant) := by
    induction plans generalizing ts with
    | nil => rwa [List.map_nil, List.append_nil]
    | cons plan plans ih =>
      have hplaces : ∀ other ∈ [place], other < p.channels.length := by simpa using hplace
      have hnext := House.step_sound (h := ⟨p, ts⟩) hts (.enter plan.name [place])
      rw [House.step, if_pos hplaces] at hnext
      rw [List.map_cons, List.append_cons]
      exact ih _ hnext
  refine ⟨?_, fun k x hx => ?_⟩
  case refine_1 =>
    rw [tenants, settle, List.map_map]
    exact hall [] hfresh.sound
  case refine_2 =>
    rw [settle, List.getElem?_map] at hx
    obtain ⟨plan, hplan, rfl⟩ := Option.map_eq_some_iff.mp hx
    exact belongs_eq hplan ▸ plan.proper_neighbour p place

end Neighbourhood
end Offload
