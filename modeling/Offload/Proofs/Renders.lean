import Offload.Proofs.Nameless
import Offload.Proofs.Outcomes

/-!
Machines that stand for steps. The instructions of the nodes ask for nothing that is not there, and within a pass
they want buffers of one size for each object. What a pass brings out is what it brought in or wrote before, or else
nothing is brought out at all.
-/

namespace Offload

open Compile (Made Laid Issued Site sites passSites)

-- An array consists of elements.
structure HostObject.Whole (r : Registry) (o : HostObject) : Prop where
  registered : (r.entry? o.handle).map Entry.kind = some o.kind
  elements   : ∀ e, o.kind = .array e → e.size ∣ r.byteLength o.handle

theorem HostObject.Whole.eq {r : Registry} {o o' : HostObject} (h : o.Whole r) (h' : o'.Whole r)
    (heq : o.handle = o'.handle) : o = o' := by
  have hkind : o.kind = o'.kind := Option.some.inj (by rw [← h.registered, heq, h'.registered])
  cases o
  cases o'
  cases heq
  cases hkind
  rfl

-- A step with registered objects; no task is given one of them twice.
structure Step.Regular (r : Registry) (step : Step) : Prop where
  whole : ∀ o ∈ step.objects, o.Whole r
  apart : ∀ t, step = .task t → t.Apart

theorem Step.regular_streamIn {r : Registry} {o : HostObject} (h : o.Whole r) : (Step.streamIn o).Regular r where
  whole _ ho := List.mem_singleton.mp ho ▸ h
  apart _ heq := by cases heq

theorem Step.regular_streamOut {r : Registry} {o : HostObject} (h : o.Whole r) : (Step.streamOut o).Regular r where
  whole _ ho := List.mem_singleton.mp ho ▸ h
  apart _ heq := by cases heq

theorem Step.regular_task {r : Registry} {t : Task} (h : ∀ a ∈ t.arguments, a.object.Whole r) (hapart : t.Apart) :
    (Step.task t).Regular r where
  whole o ho := by
    obtain ⟨a, ha, rfl⟩ := List.mem_map.mp ho
    exact h a ha
  apart _ heq := by cases heq; exact hapart

-- Whatever is brought out was brought in or written before.
def Step.Sated (steps : List Step) : Prop :=
  ∀ before o after, steps = before ++ .streamOut o :: after → ∃ step ∈ before, step.Fills o.handle

-- The nodes do what the steps say, one by one.
abbrev Graph.Follows (g : Graph) (c : Context) : List Nat → List Step → Prop :=
  List.Forall₂ fun id step => ∃ kind, g.kind? id = some kind ∧ Wiring.Does c kind step

theorem Graph.Follows.of_tables {g : Graph} {c c' : Context} {ids : List Nat} {steps : List Step}
    (h : g.Follows c ids steps) (hobjects : c'.objects = c.objects) (htasks : c'.tasks = c.tasks) :
    g.Follows c' ids steps :=
  h.imp fun _ _ ⟨kind, hkind, hdoes⟩ =>
    ⟨kind, hkind, hdoes.mono (hobjects ▸ List.prefix_rfl) (htasks ▸ List.prefix_rfl)⟩

-- The machine was made for the steps, and for what is in the tables.
structure Machine.Renders (steps : List Step) (g : Graph) (l : Compile.Layout) (passes : List Pass) (m : Machine)
    (s : Hosted Context) : Prop where
  made     : ∃ batch place d, Made s.platform.registry s.part g batch place d l passes m
  wired    : g.Wired
  follows  : g.Follows s.part l.order steps
  objects  : ∀ o ∈ s.part.objects, ∃ step ∈ steps, o ∈ step.objects
  tasks    : ∀ t ∈ s.part.tasks, .task t ∈ steps
  distinct : s.part.Distinct
  binds    : s.part.Binds
  blocking : ∀ pre i post, m.instructions = pre ++ i :: post → i.opcode = .streamOutBlocking → post = [.finish]

-- The steps are regular besides; their objects were registered, and may have changed since, but not in length.
structure Machine.Regular (q : Registry) (steps : List Step) (g : Graph) (l : Compile.Layout) (passes : List Pass)
    (m : Machine) (s : Hosted Context) : Prop extends m.Renders steps g l passes s where
  steps   : ∀ step ∈ steps, step.Regular q
  lengths : ∀ k, s.platform.registry.byteLength k = q.byteLength k
  words   : ∀ k, q.byteLength k < wordLimit

namespace Compile

variable {r r' : Registry} {c c' : Context} {g : Graph} {l : Layout} {passes : List Pass} {pass : Pass}
  {batch : Option Nat} {place id : Nat} {d : Graph.Dependencies} {m : Machine} {i : Instruction}
  {is : List Instruction} {kind : NodeKind} {step : Step} {ss : List Site}

theorem plan_of_tables (hobjects : c'.objects = c.objects) (hlengths : ∀ k, r'.byteLength k = r.byteLength k) :
    Pass.plan r' c' batch = Pass.plan r c batch := by
  have hrefl : List.Forall₂ (· = ·) c'.objects c.objects := hobjects ▸ List.forall₂_refl _
  exact Pass.plan_congr ((List.forall₂_map_left_iff.mp (List.forall₂_map_right_iff.mp hrefl)).imp
    fun _ _ hb => ⟨hb, hb ▸ hlengths _⟩) batch

theorem Made.of_tables (h : Made r c g batch place d l passes m) (hdevices : c'.devices = c.devices)
    (htasks : c'.tasks = c.tasks) (hobjects : c'.objects = c.objects)
    (hlengths : ∀ k, r'.byteLength k = r.byteLength k) : Made r' c' g batch place d l passes m := by
  refine { h with place := ?_, plan := (plan_of_tables hobjects hlengths).trans h.plan, instructions := ?_ }
  case refine_1 =>
    rw [Context.place_ok, hdevices]
    exact Context.place_ok.mp h.place
  case refine_2 =>
    rw [htasks]
    exact h.instructions

theorem body_not_blocking {tasks : Nat} (hi : i ∈ body g l tasks passes) : i.opcode ≠ .streamOutBlocking := by
  rcases List.mem_cons.mp hi with rfl | hi
  case inl => exact nofun
  rcases List.mem_cons.mp hi with rfl | hi
  case inl => exact nofun
  obtain ⟨pass, _, hi⟩ := List.mem_flatMap.mp hi
  obtain ⟨id, _, hi⟩ := List.mem_flatMap.mp hi
  unfold nodeBlock nodeInstruction? at hi
  split at hi
  case h_1 => cases hi
  case h_2 j hj =>
    rcases List.mem_cons.mp hi with rfl | happend
    case inl => split at hj <;> cases hj <;> nofun
    case inr =>
      obtain ⟨_, _, rfl⟩ := List.mem_map.mp happend
      exact nofun

-- What is neither before the last two nor the last one has only one behind it.
theorem eq_singleton_of_append {α : Type} {front post pre : List α} {x y z : α}
    (h : front ++ x :: post = pre ++ [y, z]) (hpre : x ∉ pre) (hne : x ≠ z) : post = [z] := by
  have hsplit : front ++ x :: post = (pre ++ [y]) ++ [z] := by rw [h, List.append_assoc]; rfl
  rcases List.eq_nil_or_concat' post with rfl | ⟨mid, last, rfl⟩
  case inl => exact absurd (List.cons.inj (List.append_inj_right' hsplit rfl)).1 hne
  case inr =>
    rw [← List.cons_append, ← List.append_assoc] at hsplit
    obtain ⟨hmid, hlast⟩ := List.append_inj' hsplit rfl
    rcases List.eq_nil_or_concat' mid with rfl | ⟨mid, other, rfl⟩
    case inl => exact hlast
    case inr =>
      rw [← List.cons_append, ← List.append_assoc] at hmid
      have hmem : x ∈ front ++ x :: mid := List.mem_append_right front List.mem_cons_self
      exact absurd (List.append_inj_left' hmid rfl ▸ hmem) hpre

-- What blocks is the last of all.
theorem blocking_last {config config' : Config} {program : Program} (h : compile r c g batch config = .ok program)
    (hm : Machine.create program config' = .ok m) {pre post : List Instruction}
    (his : m.instructions = pre ++ i :: post) (hi : i.opcode = .streamOutBlocking) : post = [.finish] := by
  obtain ⟨_, l, passes, a, -, -, -, -, hassemble, rfl⟩ := compile_ok h
  obtain ⟨is, hholds, hbody⟩ := assemble_ok hassemble
  have hmade := instructions_of_holds hholds (create_ok hm).2.2
  rw [his, List.map_append] at hmade
  have hplain {js : List Instruction} (hjs : ∀ j ∈ js, j.opcode ≠ .streamOutBlocking) :
      i ∉ js.map Instruction.wrapped := by
    intro hmem
    obtain ⟨j, hj, rfl⟩ := List.mem_map.mp hmem
    exact hjs j hj (j.opcode_wrapped ▸ hi)
  rcases hbody with ⟨hending, rfl⟩ | ⟨hending, init, last, hinit, _, rfl⟩
  case inl =>
    have hmem : i ∈ pre ++ i :: post := List.mem_append_right pre List.mem_cons_self
    rw [hmade] at hmem
    rcases List.mem_append.mp hmem with hmem | hmem
    case inl => exact absurd hmem (hplain fun _ => body_not_blocking)
    case inr =>
      refine absurd hmem (hplain fun j hj => ?_)
      rcases mem_ending hj with ⟨_, rfl⟩ | rfl
      case inl => exact Opcode.noConfusion
      case inr => exact Opcode.noConfusion
  case inr =>
    have hfirst : i ∉ init.map Instruction.wrapped :=
      hplain fun j hj => body_not_blocking (hinit ▸ List.mem_append_left _ hj)
    have hne : i ≠ .finish := fun heq => by rw [heq] at hi; cases hi
    rw [hending, List.map_append, List.append_assoc] at hmade
    exact eq_singleton_of_append hmade hfirst hne

theorem exists_sites_eq (order : List Nat) {n : Nat} (hn : 0 < n) :
    ∃ later, sites order n = passSites order 0 ++ later := by
  obtain ⟨n, rfl⟩ := Nat.exists_eq_succ_of_ne_zero (Nat.ne_of_gt hn)
  exact ⟨_, by rw [sites, List.range_succ_eq_map, List.flatMap_cons]⟩

theorem Laid.not_context (h : Laid g l passes ss is) : ∀ i ∈ is, i.opcode ≠ .context := by
  intro i hi
  rcases h.origin hi with ⟨_, rfl⟩ | ⟨_, _, _, _, hissued⟩
  case inl => exact nofun
  case inr =>
    intro heq
    cases heq ▸ hissued.isNode

theorem Issued.means (h : Issued g l pass id i) (hkind : g.kind? id = some kind) (hdoes : Wiring.Does c kind step) :
    i.Means c step := by
  rcases h.cases with ⟨task, hnode, rfl⟩ | ⟨object, hnode, rfl⟩ | ⟨object, hnode, rfl | rfl⟩ <;>
    cases hkind.symm.trans hnode <;> cases step <;> first | exact hdoes.elim | exact hdoes

end Compile

namespace Machine

open Context Compile

variable {rest : Nat → List (BufferId × Nat)} {s t : Hosted Context} {m : Machine} {steps : List Step} {g : Graph}
  {l : Layout} {passes : List Pass} {pass : Pass} {id index k n : Nat} {i : Instruction} {is tail : List Instruction}
  {r r' : Run} {o : HostObject} {q : Registry}

namespace Renders

theorem of_stable (h : m.Renders steps g l passes s) (hstable : Stable s t) : m.Renders steps g l passes t := by
  obtain ⟨batch, place, d, hmade⟩ := h.made
  constructor
  case made =>
    exact ⟨batch, place, d, hmade.of_tables hstable.devices hstable.tasks hstable.objects hstable.lengths⟩
  case wired => exact h.wired
  case follows => exact h.follows.of_tables hstable.objects hstable.tasks
  case objects => exact hstable.objects ▸ h.objects
  case tasks => exact hstable.tasks ▸ h.tasks
  case distinct =>
    rw [Distinct, hstable.objects]
    exact h.distinct
  case binds =>
    rw [Binds, hstable.tasks, hstable.objects]
    exact h.binds
  case blocking => exact h.blocking

-- Every node stands for a step.
theorem does (h : m.Renders steps g l passes s) (hid : id ∈ l.order) :
    ∃ step ∈ steps, ∃ kind, g.kind? id = some kind ∧ Wiring.Does s.part kind step :=
  exists_of_forall₂ h.follows.flip hid

theorem objectIndex?_eq (h : m.Renders steps g l passes s) (ho : s.part.objects[index]? = some o) :
    s.part.objectIndex? o.handle = some index := by
  obtain ⟨b, hb, rfl⟩ := getElem?_objects_iff.mp ho
  exact h.distinct.objectIndex?_eq hb

-- Of some nodes, an instruction replaces the data of an object if a step fills it.
theorem replaces_iff (h : m.Renders steps g l passes s) {ids : List Nat} {before : List Step}
    (hlaid : Laid g l passes (passSites ids n) is)
    (hbefore : g.Follows s.part ids before)
    (ho : s.part.objects[index]? = some o) :
    (∃ i ∈ is, i.Replaces s index) ↔ ∃ step ∈ before, step.Fills o.handle := by
  have hfills := fills_iff_replaces h.distinct (h.objectIndex?_eq ho)
  constructor
  case mp =>
    intro ⟨i, hi, hreplaces⟩
    rcases hlaid.origin hi with ⟨list, rfl⟩ | ⟨site, hsite, pass, -, hissued⟩
    case inl => exact hreplaces.elim
    case inr =>
      obtain ⟨id, hid, rfl⟩ := List.mem_map.mp hsite
      obtain ⟨step, hstep, kind, hkind, hdoes⟩ := exists_of_forall₂ hbefore.flip hid
      exact ⟨step, hstep, ((hissued.means hkind hdoes).fills_iff _).mp ((hfills i).mpr hreplaces)⟩
  case mpr =>
    intro ⟨step, hstep, hfilled⟩
    obtain ⟨id, hid, kind, hkind, hdoes⟩ := exists_of_forall₂ hbefore hstep
    obtain ⟨i, hi, _, hissued⟩ := hlaid.exists_issued (List.mem_map_of_mem hid)
    exact ⟨i, hi, (hfills i).mp (((hissued.means hkind hdoes).fills_iff _).mpr hfilled)⟩

-- Where a pass comes to its end without any data from before, there was nothing to bring out that it did not have.
theorem sated (h : m.Renders steps g l passes s) (hlaid : Laid g l passes (passSites l.order n) is)
    (hreach : Reaches m k is r s r' t) (hbooks : Books rest s) (hfit : Run.Fit False (is ++ tail) r s)
    (hnone : ∀ index, ¬s.part.Valid index) : Step.Sated steps := by
  intro before o after hsteps
  obtain ⟨ids, from', horder, hbefore, hfrom⟩ := split_of_forall₂ (hsteps ▸ h.follows).flip
  obtain ⟨id, post, ⟨kind, hkind, hdoes⟩, -, rfl⟩ := List.forall₂_cons_left_iff.mp hfrom
  rw [horder, passSites, List.map_append] at hlaid
  obtain ⟨is₁, is₂, rfl, hlaid₁, hlaid₂⟩ := hlaid.split
  obtain ⟨r₁, s₁, hreach₁, hreach₂⟩ := hreach.split
  cases hlaid₂ with
  | @cons site _ i _ _ _ hissued _ =>
    cases hreach₂ with
    | step hstep _ =>
      rw [List.append_assoc] at hfit
      obtain ⟨object, hmeans, hvalid⟩ : ∃ object, (∃ x, s.part.objects[object]? = some x ∧ x.handle = o.handle) ∧
          s₁.part.Valid object := by
        have hmeans := hissued.means hkind hdoes
        rcases hissued.cases with ⟨_, _, rfl⟩ | ⟨_, _, rfl⟩ | ⟨object, _, hi⟩
        case inl => exact hmeans.elim
        case inr.inl => exact hmeans.elim
        case inr.inr =>
          refine ⟨object, ?_, step_streamOut_valid hi hstep⟩
          rcases hi with rfl | rfl <;> exact hmeans
      obtain ⟨x, hx, hsame⟩ := hmeans
      have hfilled := ((hreach₁.valid hbooks hfit hlaid₁.not_context).mp hvalid).resolve_left (hnone object)
      exact hsame ▸ (h.replaces_iff hlaid₁ hbefore.flip hx).mp hfilled

-- So it is with several passes, the first of which is as good as any.
theorem sated_of_sites (h : m.Renders steps g l passes s) (hlaid : Laid g l passes (sites l.order n) is) (hn : 0 < n)
    (hreach : Reaches m k is r s r' t) (hbooks : Books rest s) (hfit : Run.Fit False (is ++ tail) r s)
    (hnone : ∀ index, ¬s.part.Valid index) : Step.Sated steps := by
  obtain ⟨later, hsites⟩ := exists_sites_eq l.order hn
  rw [hsites] at hlaid
  obtain ⟨is₁, is₂, rfl, hlaid₁, -⟩ := hlaid.split
  obtain ⟨r₁, s₁, hreach₁, -⟩ := hreach.split
  exact h.sated hlaid₁ hreach₁ hbooks (List.append_assoc is₁ is₂ tail ▸ hfit) hnone

-- What no step of a schedule brings before it is to be brought out is not there, unless it was from the beginning.
theorem blank (h : m.Renders steps g l passes s) {seen : List Nat} {before after : List Step}
    (hlaid : Laid g l passes (sites l.order n ++ passSites seen n) is) (hreach : Reaches m k is r s r' t)
    (hbooks : Books rest s) (hfit : Run.Fit False (is ++ tail) r s)
    (hbefore : g.Follows s.part seen before)
    (hsteps : steps = before ++ .streamOut o :: after)
    (ho : ∃ x, s.part.objects[index]? = some x ∧ x.handle = o.handle) (hnone : ∀ index, ¬s.part.Valid index)
    (hunfilled : ¬∃ step ∈ before, step.Fills o.handle) :
    ¬t.part.Valid index := by
  -- a pass before this one would have failed there
  have hfirst : n = 0 := by
    by_contra hn
    obtain ⟨is₁, is₂, rfl, hlaid₁, -⟩ := hlaid.split
    obtain ⟨r₁, s₁, hreach₁, -⟩ := hreach.split
    exact hunfilled (h.sated_of_sites hlaid₁ (Nat.pos_of_ne_zero hn) hreach₁ hbooks
      (List.append_assoc is₁ is₂ tail ▸ hfit) hnone before o after hsteps)
  subst hfirst
  obtain ⟨x, hx, hsame⟩ := ho
  intro hvalid
  have hfilled := ((hreach.valid hbooks hfit hlaid.not_context).mp hvalid).resolve_left (hnone index)
  exact hunfilled (hsame ▸ (h.replaces_iff hlaid hbefore hx).mp hfilled)

end Renders

namespace Regular

theorem of_stable (h : m.Regular q steps g l passes s) (hstable : Stable s t) : m.Regular q steps g l passes t :=
  ⟨h.toRenders.of_stable hstable, h.steps, fun k => (hstable.lengths k).trans (h.lengths k), h.words⟩

theorem whole (h : m.Regular q steps g l passes s) (ho : o ∈ s.part.objects) : o.Whole q := by
  obtain ⟨step, hstep, ho⟩ := h.objects o ho
  exact (h.steps step hstep).whole o ho

theorem inside (h : m.Regular q steps g l passes s) (hpass : pass ∈ passes) :
    pass.InWords ∧ ∀ o : HostObject, o.handle ∈ s.part.objects.map HostObject.handle →
      pass.offset + transferSize s.platform.registry o pass.length ≤ s.platform.registry.byteLength o.handle := by
  obtain ⟨_, _, _, hmade⟩ := h.made
  exact ⟨Pass.plan_inWords hmade.plan (fun b _ => h.lengths b.object.handle ▸ h.words b.object.handle) pass hpass,
    fun o ho => transferSize_of_inside (inside_of_plan hmade.plan hpass ho)⟩

-- The instructions ask for what is there.
theorem modest (h : m.Regular q steps g l passes s) (hmem : i ∈ m.instructions) (hid : id ∈ l.order)
    (hpass : pass ∈ passes) (hi : Issued g l pass id i) : i.Modest s := by
  obtain ⟨_, _, _, hmade⟩ := h.made
  obtain ⟨hinWords, hinside⟩ := h.inside hpass
  obtain ⟨step, hstep, kind, hkind, hdoes⟩ := h.does hid
  have hwindow {object : Nat} {o : HostObject} (hx : ∃ x, s.part.objects[object]? = some x ∧ x.handle = o.handle) :
      ∃ x, s.part.objects[object]? = some x ∧ pass.offset % wordLimit +
        transferSize s.platform.registry x (pass.length % wordLimit) ≤ s.platform.registry.byteLength x.handle := by
    obtain ⟨x, hx, -⟩ := hx
    rw [Nat.mod_eq_of_lt hinWords.offset, Nat.mod_eq_of_lt hinWords.length]
    exact ⟨x, hx, hinside x (List.mem_map_of_mem (List.mem_of_getElem? hx))⟩
  have hprompt := hmade.prompt h.wired hmem
  rcases hi.cases with ⟨task, hnode, rfl⟩ | ⟨object, hnode, rfl⟩ | ⟨object, hnode, rfl | rfl⟩ <;>
    cases hkind.symm.trans hnode <;> cases step <;> try exact hdoes.elim
  case inl.refl.task t => exact ⟨t, hdoes, (h.steps _ hstep).apart t rfl, h.binds t (List.mem_of_getElem? hdoes)⟩
  case inr.inl.refl.streamIn o => exact ⟨hprompt, hwindow hdoes⟩
  case inr.inr.inl.refl.streamOut o => exact hwindow hdoes
  case inr.inr.inr.refl.streamOut o => exact hwindow hdoes

-- In a pass every instruction wants as much of an object as its window.
theorem brings (h : m.Regular q steps g l passes s) (hpass : pass ∈ passes) (hi : Issued g l pass id i)
    (ho : s.part.objects[index]? = some o) : i.Brings s index (transferSize s.platform.registry o pass.length) := by
  obtain ⟨batch, _, _, hmade⟩ := h.made
  obtain ⟨hinWords, -⟩ := h.inside hpass
  have hmem := List.mem_of_getElem? ho
  rcases hi.cases with ⟨task, -, rfl⟩ | ⟨object, -, rfl⟩ | ⟨object, -, rfl | rfl⟩
  case inr.inl =>
    rintro rfl x hx
    cases ho.symm.trans hx
    rw [Nat.mod_eq_of_lt hinWords.length]
  case inl =>
    intro t ht a ha _ hindex
    have hsame : a.object = o := by
      have hargument := (h.steps _ (h.tasks t (List.mem_of_getElem? ht))).whole a.object (List.mem_map_of_mem ha)
      obtain ⟨b, hb, heq⟩ := exists_of_objectIndex? hindex
      cases ho.symm.trans (getElem?_objects hb)
      exact hargument.eq (h.whole hmem) heq.symm
    rw [hsame, Nat.mod_eq_of_lt hinWords.threads]
    exact Pass.argumentSize_eq hmade.plan hpass hmem fun e he => h.lengths o.handle ▸ (h.whole hmem).elements e he
  case inr.inr.inl => trivial
  case inr.inr.inr => trivial

-- What was filled in a pass is data, and as much as the pass is to bring out.
theorem filled (h : m.Regular q steps g l passes s) {ids : List Nat} {before : List Step}
    (hpass : passes[n]? = some pass) (hlaid : Laid g l passes (passSites ids n) is) (hreach : Reaches m k is r s r' t)
    (hbooks : Books rest s) (hfit : Run.Fit False (is ++ tail) r s) (hbefore : g.Follows s.part ids before)
    (ho : s.part.objects[index]? = some o) (hfilled : ∃ step ∈ before, step.Fills o.handle) :
    t.part.Valid index ∧ t.part.Stocked index (transferSize s.platform.registry o pass.length) := by
  have hreplaces := (h.replaces_iff hlaid hbefore ho).mpr hfilled
  refine ⟨(hreach.valid hbooks hfit hlaid.not_context).mpr (.inr hreplaces),
    hreach.stocked hbooks hfit hlaid.not_context (fun i hi => ?_) (.inr hreplaces)⟩
  rcases hlaid.origin hi with ⟨_, rfl⟩ | ⟨site, hsite, pass', hpass', hissued⟩
  case inl => trivial
  case inr =>
    obtain ⟨_, _, rfl⟩ := List.mem_map.mp hsite
    cases hpass.symm.trans hpass'
    exact h.brings (List.mem_of_getElem? hpass) hissued ho

-- Where a run comes to a stream-out there is enough data, unless no step before it in the pass brought any.
theorem enough (h : m.Regular q steps g l passes s) {seen : List Nat} {before after : List Step} {b : Binding}
    (hpass : passes[n]? = some pass) (hlaid : Laid g l passes (sites l.order n ++ passSites seen n) is)
    (hreach : Reaches m k is r s r' t) (hbooks : Books rest s) (hfit : Run.Fit False (is ++ tail) r s)
    (hbefore : g.Follows s.part seen before) (hsteps : steps = before ++ .streamOut o :: after)
    (ho : ∃ x, s.part.objects[index]? = some x ∧ x.handle = o.handle)
    (hsated : Step.Sated steps ∨ ∀ index, ¬s.part.Valid index) (hb : t.part.bindings[index]? = some b) :
    (b.state.isValid → transferSize t.platform.registry b.object pass.length ≤ b.state.size) ∧
      (¬b.state.isValid → ∀ step ∈ before, ¬step.Fills b.object.handle) := by
  have hstable := (hreach.fit hbooks hfit).1.stable
  obtain ⟨x, hx, hsame⟩ := ho
  have hobject : b.object = x := by
    have hget := getElem?_objects hb
    rw [hstable.objects, hx] at hget
    exact (Option.some.inj hget).symm
  rw [hobject]
  by_cases hfilled : ∃ step ∈ before, step.Fills x.handle
  case neg =>
    refine ⟨fun hvalid => ?_, fun _ step hstep hfills => hfilled ⟨step, hstep, hfills⟩⟩
    rw [hsame] at hfilled
    have hnone := hsated.resolve_left fun hsated => hfilled (hsated before o after hsteps)
    exact absurd ⟨b, hb, hvalid⟩ (h.blank hlaid hreach hbooks hfit hbefore hsteps ⟨x, hx, hsame⟩ hnone hfilled)
  case pos =>
    obtain ⟨is₁, is₂, rfl, -, hlaid₂⟩ := hlaid.split
    obtain ⟨r₁, s₁, hreach₁, hreach₂⟩ := hreach.split
    rw [List.append_assoc] at hfit
    obtain ⟨hsustains, hfit₁⟩ := hreach₁.fit hbooks hfit
    have hstable₁ := hsustains.stable
    obtain ⟨⟨b₁, hb₁, hvalid⟩, b₂, hb₂, -, hsize⟩ := (h.of_stable hstable₁).filled hpass hlaid₂ hreach₂
      hsustains.books hfit₁ (hbefore.of_tables hstable₁.objects hstable₁.tasks) (hstable₁.objects ▸ hx) hfilled
    cases hb.symm.trans hb₁
    cases hb.symm.trans hb₂
    refine ⟨fun _ => Nat.le_of_eq ?_, fun hinvalid => absurd hvalid hinvalid⟩
    rw [hsize, transferSize_of_lengths hstable.lengths, transferSize_of_lengths hstable₁.lengths]

theorem heeds (h : m.Regular q steps g l passes s) {seen : List Nat} {before after : List Step} {step : Step}
    (hpass : passes[n]? = some pass) (hlaid : Laid g l passes (sites l.order n ++ passSites seen n) is)
    (hreach : Reaches m k is r s r' t) (hbooks : Books rest s) (hfit : Run.Fit False (is ++ tail) r s)
    (hbefore : g.Follows s.part seen before) (hsteps : steps = before ++ step :: after) (hi : Issued g l pass id i)
    (hmeans : i.Means s.part step) (hsated : Step.Sated steps ∨ ∀ index, ¬s.part.Valid index) : i.Heeds t before := by
  have hlength := Nat.mod_eq_of_lt (h.inside (List.mem_of_getElem? hpass)).1.length
  have henough {o : HostObject} (hstep : step = .streamOut o) {object : Nat}
      (hmeans : ∃ x, s.part.objects[object]? = some x ∧ x.handle = o.handle) (b : Binding)
      (hb : t.part.bindings[object]? = some b) :=
    h.enough hpass hlaid hreach hbooks hfit hbefore (hstep ▸ hsteps) hmeans hsated hb
  rcases hi.cases with ⟨_, _, rfl⟩ | ⟨_, _, rfl⟩ | ⟨object, _, rfl | rfl⟩
  case inl => trivial
  case inr.inl => trivial
  case inr.inr.inl =>
    rw [hlength]
    cases step with
    | streamOut o => exact henough rfl hmeans
    | _ => exact hmeans.elim
  case inr.inr.inr =>
    rw [hlength]
    cases step with
    | streamOut o => exact henough rfl hmeans
    | _ => exact hmeans.elim

end Regular

end Machine
end Offload
