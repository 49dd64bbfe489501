import Offload.Proofs.Course
import Offload.Proofs.Passes
import Offload.Proofs.Shape

/-!
Machines for the programs of a context's own graphs. They work on one device, and every instruction stays
within the objects and tasks of the context, so that their transfers fail with an excuse only.
-/

namespace Offload

namespace Context

-- What a node stands for is in the tables.
def Refers (c : Context) : NodeKind → Prop
  | .task index => ∃ t, c.tasks[index]? = some t
  | .streamIn index | .streamOut index => ∃ o, c.objects[index]? = some o
  | _ => True

def Covers (c : Context) (g : Graph) : Prop :=
  ∀ id ∈ g.instructionNodes, ∃ kind, g.kind? id = some kind ∧ c.Refers kind

-- The arguments of all tasks are bound.
def Binds (c : Context) : Prop :=
  ∀ t ∈ c.tasks, ∀ a ∈ t.arguments, a.object.handle ∈ c.objects.map HostObject.handle

end Context

-- After one CONTEXT a machine stays on its device, and within what is bound.
def Machine.Suits (m : Machine) (registry : Registry) (c : Context) : Prop :=
  ∃ slots tasks lists device is,
    m.instructions = .begin slots tasks lists :: .context device :: is ∧
      ∀ i ∈ is, i.opcode ≠ .context ∧ i.WorksOn (some device) ∧ c.Admits registry i

theorem Machine.Suits.mono {m : Machine} {registry registry' : Registry} {c c' : Context}
    (hlengths : ∀ k, registry'.byteLength k = registry.byteLength k) (hobjects : c.objects <+: c'.objects)
    (htasks : c.tasks <+: c'.tasks) (h : m.Suits registry c) : m.Suits registry' c' := by
  obtain ⟨slots, tasks, lists, device, is, his, hall⟩ := h
  refine ⟨slots, tasks, lists, device, is, his, fun i hi => ?_⟩
  obtain ⟨hne, hworks, hadmits⟩ := hall i hi
  exact ⟨hne, hworks, hadmits.mono hlengths hobjects htasks⟩

namespace Compile

open Context (Covers Binds)

variable {r : Registry} {c : Context} {g : Graph} {l : Layout} {passes : List Pass} {batch : Option Nat}
  {pass : Pass} {id : Nat} {i : Instruction}

-- The window of a pass lies within every bound object.
theorem inside_of_plan (hplan : Pass.plan r c batch = .ok passes) (hpass : pass ∈ passes) {o : HostObject}
    (ho : o.handle ∈ c.objects.map HostObject.handle) : pass.Inside (r.byteLength o.handle) := by
  rcases (Pass.plan_inside hplan).2 pass hpass with rfl | hinside
  case inl => exact Pass.inside_whole _
  case inr =>
    obtain ⟨_, b, hb, heq⟩ := Context.exists_of_mem_objects ho
    exact heq ▸ (hinside b (List.mem_of_getElem? hb)).2

theorem transferSize_of_inside {o : HostObject} (h : pass.Inside (r.byteLength o.handle)) :
    pass.offset + Machine.transferSize r o pass.length ≤ r.byteLength o.handle := by
  unfold Machine.transferSize
  split
  case isTrue => exact h.window
  case isFalse hzero => rw [h.whole (Nat.eq_zero_of_not_pos hzero), Nat.zero_add]

-- What becomes of a node in a pass stays within what is bound.
theorem admits_of_issued (hcovers : c.Covers g) (hbinds : c.Binds)
    (hplan : Pass.plan r c batch = .ok passes) (hpass : pass ∈ passes) (hwords : pass.InWords)
    (h : Issued g l pass id i) :
    i.opcode ≠ .context ∧ i.WorksOn (some l.device) ∧ c.Admits r i := by
  obtain ⟨j, hj, hij⟩ := h
  have hoffset := Nat.mod_eq_of_lt hwords.offset
  have hlength := Nat.mod_eq_of_lt hwords.length
  unfold nodeInstruction? at hj
  cases hkind : g.kind? id with
  | none => simp [hkind] at hj
  | some kind =>
    have hrefers (hi : kind.isInstruction) : c.Refers kind := by
      obtain ⟨kind', hkind', hrefers⟩ := hcovers id (Graph.mem_instructionNodes.mpr ⟨kind, hkind, hi⟩)
      cases hkind.symm.trans hkind'
      exact hrefers
    cases kind with
    | context => simp [hkind] at hj
    | dataDependency => simp [hkind] at hj
    | task index =>
      simp only [hkind, Option.some.injEq] at hj
      subst hj
      obtain ⟨t, ht⟩ := hrefers rfl
      rcases hij with rfl | ⟨_, hopcode, _⟩
      case inr => cases hopcode
      case inl =>
        refine ⟨nofun, rfl, t, ht, fun a ha => ?_⟩
        have hinside := inside_of_plan hplan hpass (hbinds t (List.mem_of_getElem? ht) a ha)
        rw [hoffset]
        exact Nat.le_trans (Nat.le_add_right _ _) hinside.window
    | streamIn index =>
      simp only [hkind, Option.some.injEq] at hj
      subst hj
      rcases hij with rfl | ⟨_, hopcode, _⟩
      case inl => exact ⟨nofun, trivial, trivial⟩
      case inr => cases hopcode
    | streamOut index =>
      simp only [hkind, Option.some.injEq] at hj
      subst hj
      obtain ⟨o, ho⟩ := hrefers rfl
      have hfits : ∃ o, c.objects[index]? = some o ∧
          pass.offset % wordLimit + Machine.transferSize r o (pass.length % wordLimit) ≤
            r.byteLength o.handle := by
        rw [hoffset, hlength]
        exact ⟨o, ho, transferSize_of_inside
          (inside_of_plan hplan hpass (List.mem_map_of_mem (List.mem_of_getElem? ho)))⟩
      rcases hij with rfl | ⟨_, _, rfl⟩
      case inl => exact ⟨nofun, trivial, hfits⟩
      case inr => exact ⟨nofun, trivial, hfits⟩

theorem mem_ending {e : Ending} (h : i ∈ e.instructions) : (∃ list, i = .barrier list) ∨ i = .finish := by
  cases e with
  | blockingStreamOut => exact .inr (List.mem_singleton.mp h)
  | barrier list =>
    rcases List.mem_cons.mp h with hbarrier | hfinish
    case inl => exact .inl ⟨_, hbarrier⟩
    case inr => exact .inr (List.mem_singleton.mp hfinish)

theorem suits_of_compile {config config' : Config} {program : Program} {m : Machine}
    (h : compile r c g batch config = .ok program) (hm : Machine.create program config' = .ok m)
    (hcovers : c.Covers g) (hbinds : c.Binds) (hwords : ∀ k, r.byteLength k < wordLimit) : m.Suits r c := by
  obtain ⟨place, d, l, passes, hmade⟩ := made_of_compile h hm
  obtain ⟨nodes, blocks, his, hlaid⟩ := hmade.instructions
  have hinWords := Pass.plan_inWords hmade.plan fun b _ => hwords b.object.handle
  refine ⟨nodes, _, _, l.device, _, his, fun i hi => ?_⟩
  rcases List.mem_append.mp hi with hblock | hending
  case inl =>
    rcases hlaid.origin hblock with ⟨list, rfl⟩ | ⟨⟨_, id⟩, _, pass, hpass, hissued⟩
    case inl => exact ⟨nofun, trivial, trivial⟩
    case inr =>
      have hmem := List.mem_of_getElem? hpass
      exact admits_of_issued hcovers hbinds hmade.plan hmem (hinWords pass hmem) hissued
  case inr =>
    rcases mem_ending hending with ⟨_, rfl⟩ | rfl
    case inl => exact ⟨nofun, trivial, trivial⟩
    case inr => exact ⟨nofun, trivial, trivial⟩

end Compile

namespace Machine

open Context

variable {rest : Nat → List (BufferId × Nat)} {s t : Hosted Context} {m : Machine}

theorem grounded_of_worksOn {device : Nat} {is : List Instruction}
    (h : ∀ i ∈ is, i.opcode ≠ .context ∧ i.WorksOn (some device)) : Grounded (some device) is := by
  induction is with
  | nil => trivial
  | cons i is ih =>
    obtain ⟨hne, hworks⟩ := h i List.mem_cons_self
    refine ⟨hworks, ?_⟩
    rw [Instruction.turnsTo_of_ne hne]
    exact ih fun j hj => h j (List.mem_cons_of_mem i hj)

theorem Suits.grounded {registry : Registry} {c : Context} (h : m.Suits registry c) :
    Grounded none m.instructions := by
  obtain ⟨slots, tasks, lists, device, is, his, hall⟩ := h
  rw [his]
  exact ⟨trivial, trivial, grounded_of_worksOn fun i hi => ⟨(hall i hi).1, (hall i hi).2.1⟩⟩

-- At the start no event is mentioned, and none is before the first command.
theorem not_mentions_start {r : Run} (hlists : r.lists = (Run.start m).lists) (hlast : r.last = none)
    (e : EventId) : ¬r.Mentions e := by
  rintro (⟨l, hl, he⟩ | he)
  case inl =>
    obtain ⟨_, _, rfl⟩ := List.mem_map.mp (hlists ▸ hl)
    cases he
  case inr => cases hlast.symm.trans he

-- An execution of a machine that suits its context keeps the books, and whoever trusted it may go on.
theorem execute_sustains (hbooks : Books rest s) (hsuits : m.Suits s.platform.registry s.part) :
    m.execute.Ends s (Ended (Trusted s) rest s) := by
  obtain ⟨slots, tasks, lists, device, is, his, hall⟩ := hsuits
  have hsteps : (m.steps 0 m.instructions (Run.start m)).Ends s (Ended (Trusted s) rest s) := by
    rw [his]
    refine steps_cons ?_
    have hbegin : Upholds (Trusted s) rest s (m.step 0 (.begin slots tasks lists) (Run.start m) s).2 :=
      step_upholds hbooks nofun trivial nofun fun _ => ⟨nofun, trivial⟩
    refine ⟨hbegin.toSustains, fun r hr => ?_⟩
    obtain ⟨_, hr₁⟩ := step_begin (Prod.ext hr rfl)
    subst hr₁
    generalize (m.step 0 (.begin slots tasks lists) (Run.start m) s).2 = s₁ at hbegin
    refine steps_cons ((step_context_sustains (P := Trusted s) hbegin.books device).mono
      fun result t ⟨ht, hok⟩ => ⟨ht, fun r' hr' => ?_⟩)
    obtain ⟨hplaced, hcurrent, hlists, hlast⟩ := hok r' hr'
    have hboth := hbegin.toSustains.trans ht
    refine steps_sustains hboth.books ⟨hplaced, ?_, fun htrust => ⟨fun tgt _ => ⟨?_, fun e he => ?_⟩, ?_⟩⟩
    case refine_1 =>
      rw [hcurrent]
      exact grounded_of_worksOn fun i hi => ⟨(hall i hi).1, (hall i hi).2.1⟩
    case refine_2 => exact ((hboth.trust htrust htrust).honest _).past
    case refine_3 => exact absurd he (not_mentions_start (m := m) hlists hlast e)
    case refine_4 =>
      exact fun i hi => ⟨(hall i hi).1, hboth.stable.admits (hall i hi).2.2⟩
  exact (execute_ended ⟨device, by simp [his]⟩ hsteps).mono fun _ _ h => h.1

end Machine
end Offload
