import Offload.Proofs.Household
import Offload.Proofs.Suited

/-!
Customs: what is true of every tenant because each keeps to it, and puts no other one out, whatever it does.
The first custom is that machines come from steps, by way of a graph that was built of them.
-/

namespace Offload

namespace House

open Context

variable {Q : Tenant.Deed → Prop} {J : Platform → Prop} {K : Platform → Tenant → Prop} {p : Platform}
  {t : Tenant} {ts : List Tenant} {h : House}

-- Who enters finds the platform in order. Whoever acts leaves it in order, and all tenants as they should be.
structure Custom (Q : Tenant.Deed → Prop) (J : Platform → Prop) (K : Platform → Tenant → Prop) : Prop where
  enter  : ∀ p name devices, J p → K p { context := { name, devices } }
  act    : ∀ p t ts deed, Sound p (t :: ts) → J p → (∀ x ∈ t :: ts, K p x) → Q deed →
    (Tenant.perform deed).Ends ⟨p, t⟩ fun _ u => J u.platform ∧ ∀ x ∈ u.part :: ts, K u.platform x
  leaves : Q .invalidate

theorem step_custom (hcustom : Custom Q J K) (hsound : Sound h.platform h.tenants) (hJ : J h.platform)
    (hK : ∀ t ∈ h.tenants, K h.platform t) {move : Move} (hmove : move.Meets Q) :
    J (h.step move).platform ∧ ∀ t ∈ (h.step move).tenants, K (h.step move).platform t := by
  have hact {n : Nat} {t : Tenant} {deed : Tenant.Deed} (ht : h.tenants[n]? = some t) (hdeed : Q deed) :
      (Tenant.perform deed).Ends ⟨h.platform, t⟩ fun _ u =>
        J u.platform ∧ ∀ x ∈ u.part :: h.tenants.eraseIdx n, K u.platform x :=
    have hperm := perm_cons_eraseIdx ht
    hcustom.act _ _ _ deed (hsound.perm hperm) hJ (fun x hx => hK x (hperm.mem_iff.mpr hx)) hdeed
  cases move with
  | enter name devices =>
    simp only [step]
    split
    case isFalse => exact ⟨hJ, hK⟩
    case isTrue =>
      refine ⟨hJ, fun t ht => (List.mem_append.mp ht).elim (hK t) fun hnew => ?_⟩
      cases List.mem_singleton.mp hnew
      exact hcustom.enter _ _ _ hJ
  | act n deed =>
    simp only [step]
    split
    case h_1 => exact ⟨hJ, hK⟩
    case h_2 t ht =>
      exact (hact ht hmove).imp_right fun hall x hx => hall x ((set_perm_cons ht _).mem_iff.mp hx)
  | leave n =>
    simp only [step]
    split
    case h_1 => exact ⟨hJ, hK⟩
    case h_2 t ht =>
      exact (hact ht hcustom.leaves).imp_right fun hall x hx => hall x (List.mem_cons_of_mem _ hx)

theorem run_custom (hcustom : Custom Q J K) (hsound : Sound h.platform h.tenants) (hJ : J h.platform)
    (hK : ∀ t ∈ h.tenants, K h.platform t) {moves : List Move} (hmoves : ∀ move ∈ moves, move.Meets Q) :
    J (h.run moves).platform ∧ ∀ t ∈ (h.run moves).tenants, K (h.run moves).platform t := by
  unfold run
  induction moves generalizing h with
  | nil => exact ⟨hJ, hK⟩
  | cons move moves ih =>
    obtain ⟨hmove, hlater⟩ := List.forall_mem_cons.mp hmoves
    obtain ⟨hJ', hK'⟩ := step_custom hcustom hsound hJ hK hmove
    exact ih (step_sound hsound move) hJ' hK' hlater

end House

namespace Household

open House (Custom)

variable {Q : Tenant.Deed → Prop} {J : Platform → Prop} {K : Platform → Tenant → Prop} {h : Household}

-- Customs outlast the waiting for what is left of executions, if they do not depend on it.
theorem step_custom (hcustom : Custom Q J K)
    (hwait : ∀ p e, J p → J (Execution.wait ⟨p, e⟩).2.platform ∧
      ∀ t, K p t → K (Execution.wait ⟨p, e⟩).2.platform t)
    (hsound : House.Sound h.platform h.house.tenants) (hJ : J h.platform)
    (hK : ∀ t ∈ h.house.tenants, K h.platform t) {move : Move} (hmove : move.Meets Q) :
    J (h.step move).platform ∧ ∀ t ∈ (h.step move).house.tenants, K (h.step move).platform t := by
  cases move with
  | house move =>
    have hstep := House.step_custom (h := h.house) hcustom hsound hJ hK hmove
    rwa [← house_step] at hstep
  | wait k n =>
    rw [(h.step_wait k n).1]
    simp only [step]
    cases h.guests[k]? with
    | none => exact ⟨hJ, hK⟩
    | some g =>
      dsimp only
      cases g.handles[n]? with
      | none => exact ⟨hJ, hK⟩
      | some e => exact (hwait h.platform e hJ).imp_right fun hkept t ht => hkept t (hK t ht)
  | waitLate n =>
    rw [(h.step_waitLate n).1]
    simp only [step]
    cases h.late[n]? with
    | none => exact ⟨hJ, hK⟩
    | some e => exact (hwait h.platform e hJ).imp_right fun hkept t ht => hkept t (hK t ht)

theorem run_custom (hcustom : Custom Q J K)
    (hwait : ∀ p e, J p → J (Execution.wait ⟨p, e⟩).2.platform ∧
      ∀ t, K p t → K (Execution.wait ⟨p, e⟩).2.platform t)
    (hsound : House.Sound h.platform h.house.tenants) (hJ : J h.platform)
    (hK : ∀ t ∈ h.house.tenants, K h.platform t) {moves : List Move}
    (hmoves : ∀ move ∈ moves, move.Meets Q) :
    J (h.run moves).platform ∧ ∀ t ∈ (h.run moves).house.tenants, K (h.run moves).platform t := by
  unfold run
  induction moves generalizing h with
  | nil => exact ⟨hJ, hK⟩
  | cons move moves ih =>
    obtain ⟨hmove, hlater⟩ := List.forall_mem_cons.mp hmoves
    obtain ⟨hJ', hK'⟩ := step_custom hcustom hwait hsound hJ hK hmove
    exact ih (step_sound hsound move) hJ' hK' hlater

end Household

namespace Context

variable {R : List Step → Prop} {c c' : Context} {g : Graph}

theorem building_distinct : Wiring.Building (fun _ => True) fun c c' => c.Distinct → c'.Distinct where
  lasting := ⟨fun _ => id, fun h h' => h' ∘ h⟩
  bind c o := (Bound.bindOne c o).distinct
  modifyState _ index f _ h := h.modifyState index f
  addTask c t _ := (Bound.bindEach c (t.arguments.map Argument.object)).distinct

-- A graph that was built of such steps, with what they are about in the tables.
def Bears (R : List Step → Prop) (c : Context) (g : Graph) : Prop :=
  ∃ (w : Wiring) (steps : List Step), R steps ∧ w.graph = g ∧ w.Follows steps ∧ g.Wired ∧
    w.context.objects <+: c.objects ∧ w.context.tasks <+: c.tasks

theorem Bears.mono (h : c.Bears R g) (hobjects : c.objects <+: c'.objects) (htasks : c.tasks <+: c'.tasks) :
    c'.Bears R g := by
  obtain ⟨w, steps, hR, hgraph, hfollows, hwired, hobjects', htasks'⟩ := h
  exact ⟨w, steps, hR, hgraph, hfollows, hwired, hobjects'.trans hobjects, htasks'.trans htasks⟩

end Context

-- A machine for the program of a graph that was built of such steps.
def Machine.Stems (R : List Step → Prop) (c : Context) (m : Machine) : Prop :=
  ∃ g r c' batch config config' program, c.Bears R g ∧ Offload.compile r c' g batch config = .ok program ∧
    Machine.create program config' = .ok m

theorem Machine.Stems.mono {R : List Step → Prop} {c c' : Context} {m : Machine} (h : m.Stems R c)
    (hobjects : c.objects <+: c'.objects) (htasks : c.tasks <+: c'.tasks) : m.Stems R c' := by
  obtain ⟨g, r, c₀, batch, config, config', program, hbears, hcompile, hcreate⟩ := h
  exact ⟨g, r, c₀, batch, config, config', program, hbears.mono hobjects htasks, hcompile, hcreate⟩

namespace Tenant

open Context

variable {R : List Step → Prop} {rest : Nat → List (BufferId × Nat)} {s : Hosted Tenant} {t : Tenant}
  {c : Context}

def Deed.Builds (R : List Step → Prop) : Deed → Prop
  | .build _ steps => R steps
  | _ => True

-- All graphs and machines of a tenant come from such steps.
structure Rooted (R : List Step → Prop) (t : Tenant) : Prop where
  distinct : t.context.Distinct
  graphs   : ∀ g ∈ t.graphs, t.context.Bears R g
  machines : ∀ m ∈ t.machines, m.Stems R t.context

theorem Rooted.tables (h : t.Rooted R) (hdistinct : c.Distinct) (hobjects : t.context.objects <+: c.objects)
    (htasks : t.context.tasks <+: c.tasks) : Rooted R { t with context := c } where
  distinct := hdistinct
  graphs g hg := (h.graphs g hg).mono hobjects htasks
  machines m hm := (h.machines m hm).mono hobjects htasks

theorem Rooted.stable (h : t.Rooted R) (hobjects : c.objects = t.context.objects)
    (htasks : c.tasks = t.context.tasks) : Rooted R { t with context := c } := by
  refine h.tables ?_ (hobjects ▸ List.prefix_rfl) (htasks ▸ List.prefix_rfl)
  rw [Distinct, hobjects]
  exact h.distinct

theorem Rooted.addGraph (h : t.Rooted R) {g : Graph} (hg : t.context.Bears R g) :
    Rooted R { t with graphs := t.graphs ++ [g] } :=
  { h with graphs := by simpa [or_imp, forall_and] using ⟨h.graphs, hg⟩ }

theorem Rooted.addMachine (h : t.Rooted R) {m : Machine} (hm : m.Stems R t.context) :
    Rooted R { t with machines := t.machines ++ [m] } :=
  { h with machines := by simpa [or_imp, forall_and] using ⟨h.machines, hm⟩ }

theorem onContext_rooted (h : s.part.Rooted R) {α : Type} {act : Context.On α} {P : Prop}
    (hact : act.Ends ⟨s.platform, s.part.context⟩ fun _ v =>
      Sustains P rest ⟨s.platform, s.part.context⟩ v) :
    (onContext act).Ends s fun _ u => u.part.Rooted R :=
  have hact : Sustains P rest _ _ := hact
  h.stable hact.stable.objects hact.stable.tasks

theorem build_rooted (h : s.part.Rooted R) (device : Nat) {steps : List Step} (hR : R steps) :
    (build device steps).Ends s fun _ u => u.part.Rooted R := by
  unfold build
  refine Action.Ends.bind_get (Action.Ends.bind_lift (fun start hstart => ?_) fun _ _ => h)
  cases Wiring.start_ok hstart
  rcases hsteps : (steps.forM fun s => discard (Wiring.step s) : Action Wiring Unit)
    { context := s.part.context, graph := ({} : Graph).push (.context device) [] } with ⟨result, w⟩
  have hgrown : Grown s.part.context w.context := (Wiring.grows_steps steps).of_eq hsteps
  have hdistinct := (building_distinct.keeps_steps fun _ _ => trivial).of_eq hsteps h.distinct
  have hnew := h.tables hdistinct hgrown.objects hgrown.tasks
  refine Action.Ends.bind_modify (Action.Ends.bind_lift (fun _ hok => ?_) fun _ _ => hnew)
  subst hok
  have hwired : w.graph.Wired := (Wiring.keepsWired_steps steps).of_eq hsteps (Wiring.wired_start device)
  exact hnew.addGraph
    ⟨w, steps, hR, rfl, Wiring.follows_of_steps hsteps, hwired, List.prefix_rfl, List.prefix_rfl⟩

theorem compile_rooted (h : s.part.Rooted R) (graph : Nat) (batch : Option Nat) (config config' : Config) :
    (compile graph batch config config').Ends s fun _ u => u.part.Rooted R := by
  unfold compile
  refine Action.Ends.bind_get ?_
  split
  case h_2 => exact h
  case h_1 g hg =>
    refine Action.Ends.bind_lift (fun program hprogram => ?_) fun _ _ => h
    refine Action.Ends.bind_lift (fun machine hmachine => ?_) fun _ _ => h
    exact h.addMachine ⟨g, _, _, _, _, _, program, h.graphs g (List.mem_of_getElem? hg), hprogram, hmachine⟩

theorem perform_rooted (hlodged : Lodged rest s) (h : s.part.Rooted R) {deed : Deed} (hdeed : deed.Builds R) :
    (perform deed).Ends s fun _ u => u.part.Rooted R := by
  cases deed with
  | bind o =>
    have hgrown := s.part.context.grown_bind o
    exact h.tables (building_distinct.bind _ o h.distinct) hgrown.objects hgrown.tasks
  | build device steps => exact build_rooted h device hdeed
  | compile graph batch config config' => exact compile_rooted h graph batch config config'
  | execute machine =>
    unfold perform execute
    refine Action.Ends.bind_get ?_
    split
    case h_2 => exact h
    case h_1 m hm =>
      have hends := Machine.execute_sustains hlodged.books (hlodged.suits m (List.mem_of_getElem? hm))
      exact (onContext_rooted h hends.1).bind (fun _ _ hu => hu) fun _ _ hu => hu
  | sync objects =>
    exact onContext_rooted h ((sync_upholds (P := False) hlodged.books False.elim objects).mono
      fun _ _ hu => hu.toSustains)
  | invalidate =>
    exact onContext_rooted h ((invalidate_upholds (P := False) hlodged.books).mono
      fun _ _ hu => hu.1.toSustains)

theorem rooted_custom (R : List Step → Prop) :
    House.Custom (Deed.Builds R) (fun _ => True) fun _ t => t.Rooted R where
  enter _ _ _ _ := ⟨List.nodup_nil, nofun, nofun⟩
  act _ t _ _ hsound _ hall hdeed :=
    (perform_rooted hsound.lodged (hall t List.mem_cons_self) hdeed).mono fun _ _ hu =>
      ⟨trivial, List.forall_mem_cons.mpr ⟨hu, fun x hx => hall x (List.mem_cons_of_mem t hx)⟩⟩
  leaves := trivial

end Tenant

-- Whatever happens in a house, its machines come from steps that were given to somebody to build.
theorem House.run_rooted {R : List Step → Prop} {h : House} (hfresh : h.Fresh) {moves : List House.Move}
    (hmoves : ∀ move ∈ moves, move.Meets (Tenant.Deed.Builds R)) {t : Tenant}
    (ht : t ∈ (h.run moves).tenants) : t.Rooted R := by
  have hnobody : ∀ t ∈ h.tenants, t.Rooted R := by
    rw [hfresh.tenants]
    exact nofun
  exact (House.run_custom (Tenant.rooted_custom R) hfresh.sound trivial hnobody hmoves).2 t ht

end Offload
