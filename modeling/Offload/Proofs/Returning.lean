import Offload.Proofs.Blocks
import Offload.Proofs.Built
import Offload.Proofs.Mirrors
import Offload.Proofs.Suited

/-!
Machines that return what they took. If whatever is copied back of an object is all of it, or the window that
was brought latest, and no task has to do with the object, then its bytes are what they were.
-/

namespace Offload

namespace Instruction

-- Where the window starts that the buffer of an object holds after the instruction, if that is known.
def brings (object : Nat) (latest : Option Nat) : Instruction → Option Nat
  | .streamIn index offset _ _ => if index = object then some offset else latest
  | .context _ => none
  | _ => latest

-- All of the object is copied back or, if it is an array, the window that was brought latest.
def BringsBack (array : Prop) (object : Nat) (latest : Option Nat) : Instruction → Prop
  | .streamOut index offset length _ | .streamOutBlocking index offset length _ =>
    index = object → offset = 0 ∧ length = 0 ∨ array ∧ latest = some offset
  | _ => True

-- What is copied to a buffer does not wait for anything.
def Prompt : Instruction → Prop
  | .streamIn _ _ _ wait => wait = none
  | _ => True

end Instruction

def BringsBack (array : Prop) (object : Nat) : Option Nat → List Instruction → Prop
  | _, [] => True
  | latest, i :: is => i.BringsBack array object latest ∧ BringsBack array object (i.brings object latest) is

-- The places of the bindings that a deal may change.
def Deal.Alters (c : Context) : Deal → Nat → Prop
  | .attach index, other | .detach index, other | .fill index _ _, other => other = index
  | .mark task _, other => ∃ a ∈ task.arguments, c.objectIndex? a.object.handle = some other
  | .clear, _ => True
  | _, _ => False

namespace Context

variable {rest : Nat → List (BufferId × Nat)} {s t u : Hosted Context} {c : Context} {index : Nat}
  {A : Hosted Context → Deal → Prop} {d : Deal}

theorem Does.binding_eq (hdoes : Does d s t) (hfree : ¬d.Alters s.part index) :
    t.part.bindings[index]? = s.part.bindings[index]? := by
  cases hdoes with
  | attach => exact bindings_modifyState_ne (Ne.symm hfree) _ _
  | detach => exact bindings_modifyState_ne (Ne.symm hfree) _ _
  | fill => exact bindings_modifyState_ne (Ne.symm hfree) _ _
  | mark => exact bindings_markArguments (fun a ha hfound => hfree ⟨a, ha, hfound⟩) _
  | clear => exact absurd trivial hfree
  | _ => rfl

theorem Deals.binding_eq (hdeals : Deals A s t) (hbooks : Books rest s)
    (hfree : ∀ u d, u.part.objects = s.part.objects → A u d → ¬d.Alters u.part index) :
    t.part.bindings[index]? = s.part.bindings[index]? :=
  hdeals.keep (I := fun u => u.part.bindings[index]? = s.part.bindings[index]?) hbooks rfl
    (fun u v hc hu => by rw [hc.bindings, hu])
    fun d u v hsustains hd hdoes hu => (hdoes.binding_eq (hfree u d hsustains.stable.objects hd)).trans hu

-- If it is known which window of an array was brought latest, it is the one on record.
def Latest (c : Context) (object : Nat) (latest : Option Nat) : Prop :=
  ∀ offset, latest = some offset → ∀ b, c.bindings[object]? = some b → b.object.isScalar = false →
    b.state.hostOffset = offset

theorem Latest.of_eq {c' : Context} {latest : Option Nat} (h : c.Latest index latest)
    (hsame : c'.bindings[index]? = c.bindings[index]?) : c'.Latest index latest := by
  rw [Latest, hsame]
  exact h

theorem objectIndex?_ne {o : HostObject} (ho : c.objects[index]? = some o) {h : Handle} (hne : h ≠ o.handle) :
    c.objectIndex? h ≠ some index := by
  intro hfound
  obtain ⟨b, hb, rfl⟩ := getElem?_objects_iff.mp ho
  exact hne (handle_of_objectIndex? hfound hb).symm

-- A task does nothing to objects that it has nothing to do with.
theorem Takes.not_alters {threads : Nat} {arguments : List Argument} {o : HostObject}
    (hobject : u.part.objects[index]? = some o) (havoids : ∀ a ∈ arguments, a.object.handle ≠ o.handle)
    (h : Takes threads arguments u d) : ¬d.Alters u.part index := by
  cases d with
  | attach other =>
    obtain ⟨a, ha, hfound⟩ := h
    exact fun heq => objectIndex?_ne hobject (havoids a ha) (heq ▸ hfound)
  | detach other =>
    obtain ⟨a, ha, _, b, hplaces, _⟩ := h
    exact fun heq => objectIndex?_ne hobject (havoids a ha) (heq ▸ hplaces.1)
  | _ => exact h.elim

end Context

namespace Instruction

open Context

variable {s u : Hosted Context} {wait : List EventId} {object : Nat} {o : HostObject} {k : Handle} {d : Deal}
  {i : Instruction}

-- The window on record stays, unless another one is brought.
theorem not_alters (hkept : ∀ latest, i.brings object latest = latest)
    (hobject : s.part.objects[object]? = some o) (havoids : ∀ t ∈ s.part.tasks, t.Avoids o.handle)
    (hsame : u.part.objects = s.part.objects) (h : i.Permits s wait u d) : ¬d.Alters u.part object := by
  cases i with
  | context => exact absurd (hkept (some 0)) nofun
  | streamIn index offset length list =>
    have hne : object ≠ index := fun heq => by
      subst heq
      have hnone := hkept none
      rw [brings, if_pos rfl] at hnone
      cases hnone
    cases d with
    | attach other => exact fun heq => hne (heq.trans h)
    | detach other => exact fun heq => hne (heq.trans h)
    | fill other offset' wait' => exact fun heq => hne (heq.trans h.1)
    | mark | clear => exact h.elim
    | _ => exact id
  | launch task device list offset threads =>
    have htakes (hd : ∃ t, s.part.tasks[task]? = some t ∧ Takes threads t.arguments u d) :
        ¬d.Alters u.part object := by
      obtain ⟨t, ht, htakes⟩ := hd
      exact htakes.not_alters (hsame ▸ hobject) (havoids t (List.mem_of_getElem? ht))
    cases d with
    | mark t offset' =>
      rintro ⟨a, ha, hfound⟩
      exact objectIndex?_ne (hsame ▸ hobject) (havoids t (List.mem_of_getElem? h.1) a ha) hfound
    | run => exact id
    | _ => exact htakes h
  | streamOut => cases d <;> first | exact id | exact h.elim
  | streamOutBlocking => cases d <;> first | exact id | exact h.elim
  | _ => exact h.elim

-- What an instruction may do spares an object that it brings back.
theorem spares_of_permits {r : Run} (hprompt : i.Prompt) (havoids : ∀ t ∈ s.part.tasks, t.Avoids k)
    (hback : ∀ index b, s.part.bindings[index]? = some b → b.object.handle = k → ∃ latest,
      s.part.Latest index latest ∧ i.BringsBack (b.object.isScalar = false) index latest)
    (h : i.Permits s (r.waiting i.wait?) u d) : d.Spares k u := by
  -- both ways of bringing an object out
  have hdeliver {index offset length other offset' length' : Nat}
      (h : u = s ∧ other = index ∧ offset' = offset ∧ ∃ b, s.part.bindings[index]? = some b ∧
        length' = Machine.transferSize s.platform.registry b.object length)
      (hback : ∀ b, s.part.bindings[index]? = some b → b.object.handle = k → ∃ latest,
        s.part.Latest index latest ∧
          (offset = 0 ∧ length = 0 ∨ b.object.isScalar = false ∧ latest = some offset)) :
      (Deal.deliver other offset' length').Spares k u := by
    obtain ⟨rfl, rfl, rfl, b, hb, rfl⟩ := h
    intro b' hb' hhandle
    cases hb.symm.trans hb'
    obtain ⟨latest, hlatest, hwindow⟩ := hback b hb hhandle
    rcases hwindow with ⟨rfl, rfl⟩ | ⟨harray, hoffset⟩
    case inl => exact .inr ⟨rfl, hhandle ▸ rfl⟩
    case inr => exact .inl (hlatest _ hoffset b hb harray)
  cases i with
  | streamIn index offset length list =>
    cases d with
    | fill other offset' wait' =>
      have hwait : list = none := hprompt
      subst hwait
      exact fun _ _ _ => h.2.1
    | attach | detach | miss => trivial
    | _ => exact h.elim
  | launch =>
    cases d with
    | run t => exact havoids t (List.mem_of_getElem? h)
    | mark t => exact havoids t (List.mem_of_getElem? h.1)
    | attach | detach => trivial
    | _ => exact h.elim fun _ h => h.2.elim
  | streamOut index offset length =>
    cases d with
    | deliver =>
      exact hdeliver h fun b hb hhandle => (hback _ b hb hhandle).imp fun _ => And.imp_right (· rfl)
    | _ => exact h.elim
  | streamOutBlocking index offset length =>
    cases d with
    | deliver =>
      exact hdeliver h fun b hb hhandle => (hback _ b hb hhandle).imp fun _ => And.imp_right (· rfl)
    | own => trivial
    | _ => exact h.elim
  | context =>
    cases d with
    | clear | turn => trivial
    | _ => exact h.elim
  | _ => exact h.elim

end Instruction

-- A machine that brings back what it brings of an object, in the context it was made for.
structure Machine.Returns (k : Handle) (c : Context) (m : Machine) : Prop where
  prompt : ∀ i ∈ m.instructions, i.Prompt
  back   : ∀ (object : Nat) (o : HostObject), c.objects[object]? = some o → o.handle = k →
    BringsBack (o.isScalar = false) object none m.instructions

namespace Machine

open Context

variable {rest : Nat → List (BufferId × Nat)} {s t : Hosted Context} {m : Machine} {r r' : Run} {n : Nat}
  {i : Instruction} {is : List Instruction} {k : Handle} {object : Nat} {o : HostObject} {latest : Option Nat}

theorem step_latest (hbooks : Books rest s) (hplaced : r.Placed s)
    (hworks : i.WorksOn (r.target.map Target.index)) (hobject : s.part.objects[object]? = some o)
    (havoids : ∀ t ∈ s.part.tasks, t.Avoids o.handle) (hlatest : s.part.Latest object latest)
    (hstep : m.step n i r s = (.ok r', t)) : t.part.Latest object (i.brings object latest) := by
  obtain ⟨hdeals, hok⟩ := (step_deals (m := m) (k := n) hbooks hplaced hworks).of_eq hstep
  have hkept (hsame : ∀ latest, i.brings object latest = latest) :
      t.part.Latest object (i.brings object latest) := by
    rw [hsame]
    exact hlatest.of_eq (hdeals.binding_eq hbooks fun u d hu hd => i.not_alters hsame hobject havoids hu hd)
  cases i with
  | context => exact nofun
  | streamIn index offset length list =>
    by_cases heq : index = object
    case neg => exact hkept fun _ => if_neg heq
    case pos =>
      subst heq
      obtain ⟨b, hb, _, hoffset⟩ := (hok r' rfl).1
      intro offset' hoffset' x hx harray
      cases hb.symm.trans hx
      rw [Instruction.brings, if_pos rfl] at hoffset'
      cases hoffset'
      exact hoffset harray
  | _ => exact hkept fun _ => rfl

-- As long as every instruction brings back what was brought, the object is spared.
theorem steps_spares (hbooks : Books rest s) (hfit : Run.Fit False is r s) (hprompt : ∀ i ∈ is, i.Prompt)
    (havoids : ∀ t ∈ s.part.tasks, t.Avoids k)
    (hback : ∀ (object : Nat) (o : HostObject), s.part.objects[object]? = some o → o.handle = k → ∃ latest,
      s.part.Latest object latest ∧ BringsBack (o.isScalar = false) object latest is) :
    (m.steps n is r).Ends s fun _ t => Deals (fun u d => d.Spares k u) s t := by
  induction is generalizing n r s with
  | nil => exact Relation.ReflTransGen.refl
  | cons i is ih =>
    obtain ⟨hnow, hlater⟩ := List.forall_mem_cons.mp hprompt
    have hfirst {result : Except Error Run} {t : Hosted Context} (h : m.step n i r s = (result, t)) :
        Deals (fun u d => d.Spares k u) s t := by
      refine Deals.mono ((step_deals hbooks hfit.placed hfit.grounded.1).of_eq h).1 fun u d hd =>
        i.spares_of_permits hnow havoids (fun index b hb hhandle => ?_) hd
      exact (hback index b.object (getElem?_objects hb) hhandle).imp fun _ => And.imp_right And.left
    refine steps_cons_ends (fun r' t hstep => ?_) fun e _ t hstep =>
      (hfirst hstep).trans (Deals.of_does .clear trivial)
    obtain ⟨hsustains, hfits⟩ := (step_fit hbooks hfit).of_eq hstep
    have hstable := hsustains.stable
    refine (ih hsustains.books (hfits r' rfl).1 hlater (hstable.tasks ▸ havoids)
      fun object o ho hhandle => ?_).mono fun _ _ hrest => (hfirst hstep).trans hrest
    rw [hstable.objects] at ho
    obtain ⟨latest, hlatest, hbrings⟩ := hback object o ho hhandle
    exact ⟨_, step_latest hbooks hfit.placed hfit.grounded.1 ho (hhandle ▸ havoids) hlatest hstep, hbrings.2⟩

theorem execute_spares (hbooks : Books rest s) (hgrounded : Grounded none m.instructions)
    (havoids : ∀ t ∈ s.part.tasks, t.Avoids k) (hreturns : m.Returns k s.part) :
    m.execute.Ends s fun _ t => Deals (fun u d => d.Spares k u) s t :=
  execute_of_steps (fun _ _ hc hu => hu.trans (Deals.of_calm hc))
    (steps_spares hbooks (fit_start hgrounded) hreturns.prompt havoids fun object o ho hhandle =>
      ⟨none, nofun, hreturns.back object o ho hhandle⟩)

end Machine

-- In the order in which its nodes were added, each stream-out of an object comes after a stream-in of it.
def Graph.Refills (object : Nat) (g : Graph) : Prop :=
  ∀ pre id post, g.instructionNodes = pre ++ id :: post → g.kind? id = some (.streamOut object) →
    ∃ id' ∈ pre, g.kind? id' = some (.streamIn object)

section

variable {array : Prop} {object : Nat} {latest : Option Nat} {is js : List Instruction}

theorem bringsBack_append : BringsBack array object latest (is ++ js) ↔ BringsBack array object latest is ∧
    BringsBack array object (is.foldl (fun latest i => i.brings object latest) latest) js := by
  induction is generalizing latest with
  | nil => exact ⟨fun h => ⟨trivial, h⟩, And.right⟩
  | cons i is ih =>
    rw [List.cons_append, BringsBack, ih, ← and_assoc]
    rfl

theorem bringsBack_addDeps (lists : List Nat) :
    BringsBack array object latest (lists.map .addDep ++ is) ↔ BringsBack array object latest is := by
  induction lists with
  | nil => rfl
  | cons list lists ih => exact ⟨fun h => ih.mp h.2, fun h => ⟨trivial, ih.mpr h⟩⟩

end

namespace Compile

variable {r : Registry} {c : Context} {g : Graph} {l : Layout} {passes : List Pass} {pass : Pass} {id : Nat}
  {i : Instruction} {is : List Instruction} {array : Prop} {object : Nat} {latest : Option Nat}

-- What a node can become in a pass.
theorem Issued.cases (h : Issued g l pass id i) :
    (∃ task, g.kind? id = some (.task task) ∧ i = .launch task l.device (l.waits.lookup id)
      (pass.offset % wordLimit) (pass.threads % wordLimit)) ∨
    (∃ object, g.kind? id = some (.streamIn object) ∧ i = .streamIn object (pass.offset % wordLimit)
      (pass.length % wordLimit) (l.waits.lookup id)) ∨
    ∃ object, g.kind? id = some (.streamOut object) ∧
      (i = .streamOut object (pass.offset % wordLimit) (pass.length % wordLimit) (l.waits.lookup id) ∨
        i = .streamOutBlocking object (pass.offset % wordLimit) (pass.length % wordLimit)
          (l.waits.lookup id)) := by
  obtain ⟨j, hj, hij⟩ := h
  unfold nodeInstruction? at hj
  split at hj <;> cases hj
  case h_1.refl task hkind =>
    refine .inl ⟨task, hkind, ?_⟩
    rcases hij with rfl | ⟨_, hopcode, _⟩
    case inl => rfl
    case inr => cases hopcode
  case h_2.refl index hkind =>
    refine .inr (.inl ⟨index, hkind, ?_⟩)
    rcases hij with rfl | ⟨_, hopcode, _⟩
    case inl => rfl
    case inr => cases hopcode
  case h_3.refl index hkind =>
    refine .inr (.inr ⟨index, hkind, ?_⟩)
    rcases hij with rfl | ⟨_, _, rfl⟩
    case inl => exact .inl rfl
    case inr => exact .inr rfl

-- A stream-in brings the window of its pass.
theorem Issued.brings_eq (h : Issued g l pass id i) : i.brings object latest =
    if g.kind? id = some (.streamIn object) then some (pass.offset % wordLimit) else latest := by
  rcases h.cases with ⟨task, hkind, rfl⟩ | ⟨index, hkind, rfl⟩ | ⟨index, hkind, rfl | rfl⟩ <;> rw [hkind]
  case inl => exact (if_neg nofun).symm
  case inr.inl =>
    by_cases heq : index = object
    case pos =>
      subst heq
      rw [Instruction.brings, if_pos rfl, if_pos rfl]
    case neg => rw [Instruction.brings, if_neg heq, if_neg fun hsame => heq (by cases hsame; rfl)]
  case inr.inr.inl => exact (if_neg nofun).symm
  case inr.inr.inr => exact (if_neg nofun).symm

theorem Issued.bringsBack (h : Issued g l pass id i) (hwindow : g.kind? id = some (.streamOut object) →
    pass.offset = 0 ∧ pass.length = 0 ∨ array ∧ latest = some (pass.offset % wordLimit)) :
    i.BringsBack array object latest := by
  have hback {index : Nat} (hkind : g.kind? id = some (.streamOut index)) (heq : index = object) :
      pass.offset % wordLimit = 0 ∧ pass.length % wordLimit = 0 ∨
        array ∧ latest = some (pass.offset % wordLimit) := by
    refine (hwindow (heq ▸ hkind)).imp_left fun ⟨hoffset, hlength⟩ => ?_
    rw [hoffset, hlength]
    exact ⟨rfl, rfl⟩
  rcases h.cases with ⟨task, hkind, rfl⟩ | ⟨index, hkind, rfl⟩ | ⟨index, hkind, rfl | rfl⟩
  case inl => trivial
  case inr.inl => trivial
  case inr.inr.inl => exact hback hkind
  case inr.inr.inr => exact hback hkind

-- In a pass over all of the objects everything may be copied back, and in another what was brought in it.
theorem bringsBack_pass {nodes : List Nat} {n : Nat} (h : Laid g l passes (passSites nodes n) is)
    (hpass : passes[n]? = some pass)
    (hwindow : pass.offset = 0 ∧ pass.length = 0 ∨ array ∧ ∀ pre id post, nodes = pre ++ id :: post →
      g.kind? id = some (.streamOut object) → latest = some (pass.offset % wordLimit) ∨
        ∃ id' ∈ pre, g.kind? id' = some (.streamIn object)) :
    BringsBack array object latest is := by
  induction nodes generalizing latest is with
  | nil =>
    cases h
    trivial
  | cons id nodes ih =>
    cases h with
    | cons hpass' hi hrest =>
      cases hpass.symm.trans hpass'
      refine ⟨hi.bringsBack fun hkind => ?_, (bringsBack_addDeps _).mpr (ih hrest ?_)⟩
      case refine_1 =>
        refine hwindow.imp_right fun ⟨harray, hbefore⟩ => ⟨harray, ?_⟩
        exact (hbefore [] id nodes rfl hkind).resolve_right nofun
      case refine_2 =>
        refine hwindow.imp_right fun ⟨harray, hbefore⟩ => ⟨harray, fun pre id' post hnodes hkind => ?_⟩
        rw [hi.brings_eq]
        rcases hbefore (id :: pre) id' post (by rw [hnodes]; rfl) hkind with hlatest | ⟨j, hj, hin⟩
        case inl =>
          refine .inl ?_
          split
          case isTrue => rfl
          case isFalse => exact hlatest
        case inr =>
          rcases List.mem_cons.mp hj with rfl | hpre
          case inl => exact .inl (if_pos hin)
          case inr => exact .inr ⟨j, hpre, hin⟩

theorem bringsBack_passes {order : List Nat} {n : Nat} (h : Laid g l passes (sites order n) is)
    (hpasses : ∀ pass ∈ passes, pass.offset = 0 ∧ pass.length = 0 ∨ array ∧
      ∀ pre id post, order = pre ++ id :: post → g.kind? id = some (.streamOut object) →
        ∃ id' ∈ pre, g.kind? id' = some (.streamIn object)) (hn : n ≤ passes.length) :
    BringsBack array object latest is := by
  induction n generalizing is with
  | zero =>
    cases h
    trivial
  | succ n ih =>
    rw [sites_succ] at h
    obtain ⟨is₁, is₂, rfl, hbefore, hlast⟩ := h.split
    have hget := List.getElem?_eq_getElem hn
    refine bringsBack_append.mpr ⟨ih hbefore (Nat.le_of_lt hn), bringsBack_pass hlast hget ?_⟩
    exact (hpasses _ (List.getElem_mem hn)).imp_right fun ⟨harray, hrefills⟩ =>
      ⟨harray, fun pre id post hnodes hkind => .inr (hrefills pre id post hnodes hkind)⟩

-- Nothing is waited for by what depends on nothing.
theorem Made.prompt {batch : Option Nat} {place : Nat} {d : Graph.Dependencies} {m : Machine}
    (hmade : Made r c g batch place d l passes m) (hwired : g.Wired) (hi : i ∈ m.instructions) : i.Prompt := by
  obtain ⟨nodes, blocks, his, hlaid⟩ := hmade.instructions
  rw [his] at hi
  rcases List.mem_cons.mp hi with rfl | hi
  case inl => trivial
  rcases List.mem_cons.mp hi with rfl | hi
  case inl => trivial
  rcases List.mem_append.mp hi with hblock | hending
  case inr => rcases mem_ending hending with ⟨_, rfl⟩ | rfl <;> trivial
  case inl =>
    rcases hlaid.origin hblock with ⟨_, rfl⟩ | ⟨⟨_, id⟩, _, pass, _, hissued⟩
    case inl => trivial
    case inr =>
      rcases hissued.cases with ⟨_, _, rfl⟩ | ⟨object, hkind, rfl⟩ | ⟨_, _, rfl | rfl⟩
      case inl => trivial
      case inr.inr.inl => trivial
      case inr.inr.inr => trivial
      case inr.inl =>
        cases hwait : l.waits.lookup id with
        | none => exact rfl
        | some list =>
          obtain ⟨_, _, hdeps, _⟩ := hmade.faithful.listed hwait
          obtain ⟨dep, hdep⟩ := List.exists_mem_of_ne_nil _ hdeps
          exact absurd ((Graph.Dependencies.mem_of_iff hmade.dependencies).mp hdep)
            (hwired.not_feeds_streamIn hkind dep)

-- A program returns an object that it takes as a whole, or that its graph brings in before it is brought out.
theorem returns_of_compile {batch : Option Nat} {config config' : Config} {program : Program} {m : Machine}
    {k : Handle} (h : compile r c g batch config = .ok program)
    (hm : Machine.create program config' = .ok m) (hwired : g.Wired) (hrefills : batch = none ∨
      ∀ (object : Nat) (o : HostObject), c.objects[object]? = some o → o.handle = k → g.Refills object) :
    m.Returns k c := by
  obtain ⟨place, d, l, passes, hmade⟩ := made_of_compile h hm
  refine ⟨fun i hi => hmade.prompt hwired hi, fun object o ho hk => ?_⟩
  have hpasses : ∀ pass ∈ passes, pass.offset = 0 ∧ pass.length = 0 ∨ o.isScalar = false ∧
      ∀ pre id post, l.order = pre ++ id :: post → g.kind? id = some (.streamOut object) →
        ∃ id' ∈ pre, g.kind? id' = some (.streamIn object) := by
    intro pass hpass
    rcases (Pass.plan_inside hmade.plan).2 pass hpass with rfl | hinside
    case inl => exact .inl ⟨rfl, rfl⟩
    case inr =>
      rcases hrefills with rfl | hrefills
      case inl =>
        cases hmade.plan
        cases List.mem_singleton.mp hpass
        exact .inl ⟨rfl, rfl⟩
      case inr =>
        obtain ⟨b, hb, rfl⟩ := List.mem_map.mp (List.mem_of_getElem? ho)
        rw [hwired.order_eq hmade.dependencies hmade.order]
        exact .inr ⟨(hinside b hb).1, hrefills object b.object ho hk⟩
  obtain ⟨nodes, blocks, his, hlaid⟩ := hmade.instructions
  rw [his]
  refine ⟨trivial, trivial, bringsBack_append.mpr
    ⟨bringsBack_passes hlaid hpasses (Nat.le_refl _), ?_⟩⟩
  cases l.ending with
  | blockingStreamOut => exact ⟨trivial, trivial⟩
  | barrier => exact ⟨trivial, trivial, trivial⟩

end Compile

-- What is bound later is nothing that a machine knows of.
theorem Machine.Returns.mono {m : Machine} {registry : Registry} {k : Handle} {c c' : Context}
    (hsuits : m.Suits registry c) (hobjects : c.objects <+: c'.objects) (h : m.Returns k c) :
    m.Returns k c' := by
  refine ⟨h.prompt, fun object o ho hk => ?_⟩
  cases hold : c.objects[object]? with
  | some x =>
    cases ho.symm.trans (WaitLists.getElem?_of_prefix hobjects hold)
    exact h.back object o hold hk
  | none =>
    obtain ⟨slots, tasks, lists, device, is, his, hall⟩ := hsuits
    have hfree : ∀ i ∈ is, ∀ latest, i.BringsBack (o.isScalar = false) object latest := by
      intro i hi latest
      have hadmits := (hall i hi).2.2
      cases i with
      | streamOut | streamOutBlocking =>
        obtain ⟨x, hx, _⟩ := hadmits
        intro heq
        rw [heq, hold] at hx
        cases hx
      | _ => trivial
    rw [his]
    refine ⟨trivial, trivial, ?_⟩
    generalize ((Instruction.context device).brings object
      ((Instruction.begin slots tasks lists).brings object none)) = latest
    clear his hall
    induction is generalizing latest with
    | nil => trivial
    | cons i is ih =>
      obtain ⟨hnow, hlater⟩ := List.forall_mem_cons.mp hfree
      exact ⟨hnow latest, ih hlater _⟩

-- Each stream-out of the object comes after a stream-in of it.
def Step.Refills (k : Handle) (steps : List Step) : Prop :=
  ∀ pre o post, steps = pre ++ .streamOut o :: post → o.handle = k →
    ∃ o', .streamIn o' ∈ pre ∧ o'.handle = k

theorem Context.Distinct.index_of_objects {c : Context} (hdistinct : c.Distinct) {index index' : Nat}
    {o o' : HostObject} (ho : c.objects[index]? = some o) (ho' : c.objects[index']? = some o')
    (heq : o.handle = o'.handle) : index = index' := by
  obtain ⟨b, hb, rfl⟩ := getElem?_objects_iff.mp ho
  obtain ⟨b', hb', rfl⟩ := getElem?_objects_iff.mp ho'
  exact hdistinct.index_eq hb hb' heq

theorem exists_of_forall₂ {α β : Type} {R : α → β → Prop} {xs : List α} {ys : List β} {y : β}
    (h : List.Forall₂ R xs ys) (hy : y ∈ ys) : ∃ x ∈ xs, R x y := by
  induction h with
  | nil => cases hy
  | @cons x y' xs ys hxy _ ih =>
    rcases List.mem_cons.mp hy with rfl | hrest
    case inl => exact ⟨x, List.mem_cons_self, hxy⟩
    case inr => exact (ih hrest).imp fun _ => And.imp_left (List.mem_cons_of_mem x)

theorem Wiring.Follows.refills {w : Wiring} {steps : List Step} {k : Handle} {object : Nat} {o : HostObject}
    (h : w.Follows steps) (hdistinct : w.context.Distinct) (hsteps : Step.Refills k steps)
    (ho : w.context.objects[object]? = some o) (hk : o.handle = k) : w.graph.Refills object := by
  intro pre id post hnodes hkind
  rw [Follows, hnodes] at h
  have hbefore := List.forall₂_take pre.length h
  have hfrom := List.forall₂_drop pre.length h
  rw [List.take_left] at hbefore
  rw [List.drop_left] at hfrom
  have hsplit := List.take_append_drop pre.length steps
  cases hstep : steps.drop pre.length with
  | nil =>
    rw [hstep] at hfrom
    cases hfrom
  | cons step later =>
    rw [hstep] at hfrom hsplit
    obtain ⟨⟨_, hkind', hdoes⟩, _⟩ := List.forall₂_cons.mp hfrom
    cases hkind.symm.trans hkind'
    cases step with
    | streamIn | task => exact hdoes.elim
    | streamOut out =>
      obtain ⟨x, hx, hout⟩ := hdoes
      cases ho.symm.trans hx
      obtain ⟨brought, hmem, hbrought⟩ := hsteps _ out later hsplit.symm (hout.symm.trans hk)
      obtain ⟨id', hid', kind, hkind', hdoes⟩ := exists_of_forall₂ hbefore hmem
      cases kind with
      | streamIn index =>
        obtain ⟨x', hx', hin⟩ := hdoes
        have hsame : index = object := hdistinct.index_of_objects hx' hx ((hin.trans hbrought).trans hk.symm)
        exact ⟨id', hid', hsame ▸ hkind'⟩
      | _ => exact hdoes.elim

end Offload
