import Offload.Proofs.Confined

/-!
Where the data of a buffer belongs. Whatever a pass brings to an object belongs to the window of the pass, and the
context remembers this until something else is brought.
-/

namespace Offload

namespace Context

variable {rest : Nat → List (BufferId × Nat)} {s t : Hosted Context} {c : Context} {d : Deal}
  {index offset : Nat} {f : ObjectState → ObjectState}

-- There is data of the object, which is that from the offset on.
def Starts (c : Context) (index offset : Nat) : Prop :=
  ∃ b, c.bindings[index]? = some b ∧ b.state.isValid ∧ b.state.hostOffset = offset

theorem Starts.modifyState {other : Nat} (h : c.Starts index offset)
    (hf : other = index → ∀ st : ObjectState, st.isValid → (f st).isValid ∧ (f st).hostOffset = offset) :
    (c.modifyState other f).Starts index offset := by
  obtain ⟨b, hb, hvalid, hoffset⟩ := h
  by_cases heq : other = index
  case neg => exact ⟨b, (bindings_modifyState_ne heq c f).trans hb, hvalid, hoffset⟩
  case pos =>
    subst heq
    exact ⟨_, getElem?_modify_of_some hb _, hf rfl b.state hvalid⟩

theorem Starts.of_bindings {c' : Context} (hbindings : c'.bindings = c.bindings) (h : c.Starts index offset) :
    c'.Starts index offset := by
  rwa [Starts, hbindings]

-- What a task writes belongs to where it was launched, if there is anything.
theorem starts_markWritten {task : Task} {a : Argument} (ha : a ∈ task.arguments) (hwrites : a.access.writes)
    (hindex : c.objectIndex? a.object.handle = some index) (hvalid : (c.markWritten task offset).Valid index) :
    (c.markWritten task offset).Starts index offset := by
  obtain ⟨b, hb, _⟩ := exists_of_objectIndex? hindex
  obtain ⟨b', hb', hbuffer⟩ : ∃ b', (c.markWritten task offset).bindings[index]? = some b' ∧
      b'.state.buffer = b.state.buffer :=
    exists_markArguments (Q := (·.buffer = b.state.buffer)) (fun _ h => h) ⟨b, hb, rfl⟩ task.arguments
  obtain ⟨x, hx, hstate⟩ := hvalid
  cases hb'.symm.trans hx
  have hfilled : c.Filled index := ⟨b, hb, hbuffer ▸ (Bool.and_eq_true_iff.mp hstate).1⟩
  exact exists_markWritten (Q := fun st => st.isValid ∧ st.hostOffset = offset)
    (fun st h => ⟨by rwa [ObjectState.isValid_markWritten], rfl⟩)
    (fun st h => ⟨isValid_markWritten_of_isValid offset st h.1, rfl⟩) ha hwrites hindex hfilled

-- As long as data is neither given up nor replaced, it belongs to where it came from.
theorem Does.starts (hdoes : Does d s t) (h : s.part.Starts index offset)
    (hmark : ∀ task offset', d = .mark task offset' → offset' = offset) :
    t.part.Starts index offset ∨ d = .detach index ∨ d = .clear ∨ ∃ offset' wait, d = .fill index offset' wait := by
  cases hdoes with
  | @attach _ other size place b id memory hplace hb hnone =>
    refine .inl (h.modifyState fun heq st _ => ?_)
    subst heq
    obtain ⟨x, hx, hvalid, _⟩ := h
    cases hb.symm.trans hx
    simp [ObjectState.isValid, hnone] at hvalid
  | @detach _ other =>
    by_cases heq : other = index
    case pos => exact .inr (.inl (by rw [heq]))
    case neg => exact .inl (h.modifyState fun h => absurd h heq)
  | @fill _ other offset' _ _ _ _ wait =>
    by_cases heq : other = index
    case pos => exact .inr (.inr (.inr ⟨offset', wait, by rw [heq]⟩))
    case neg => exact .inl (h.modifyState fun h => absurd h heq)
  | @mark _ task offset' =>
    cases hmark task offset' rfl
    exact .inl (exists_markArguments (Q := fun st => st.isValid ∧ st.hostOffset = offset)
      (fun st hst => ⟨isValid_markWritten_of_isValid offset st hst.1, rfl⟩) h task.arguments)
  | clear => exact .inr (.inr (.inl rfl))
  | _ => exact .inl h

end Context

-- The instruction is about what belongs to an offset.
def Instruction.Begins (offset : Nat) : Instruction → Prop
  | .streamIn _ offset' _ _ | .launch _ _ _ offset' _ => offset' = offset
  | _ => True

namespace Machine

open Context Compile

variable {rest : Nat → List (BufferId × Nat)} {s t : Hosted Context} {m : Machine} {steps : List Step} {g : Graph}
  {l : Layout} {passes : List Pass} {pass : Pass} {index offset k n : Nat} {i : Instruction}
  {is tail : List Instruction} {r r' : Run} {o : HostObject} {q : Registry}

-- What an instruction brings to an array belongs to its offset.
theorem starts_of_replaces (hachieves : i.Achieves s t) (hstep : m.step k i r s = (.ok r', t))
    (hobjects : t.part.objects = s.part.objects)
    (harray : ∀ o, s.part.objects[index]? = some o → o.isScalar = false) (hbegins : i.Begins offset)
    (hreplaces : i.Replaces s index) : t.part.Starts index offset := by
  cases i with
  | streamIn object offset' length list =>
    cases hreplaces
    cases hbegins
    obtain ⟨b, hb, hvalid, hoffset⟩ := hachieves
    have hobject : s.part.objects[index]? = some b.object := hobjects ▸ getElem?_objects hb
    exact ⟨b, hb, hvalid, hoffset (harray b.object hobject)⟩
  | launch task device list offset' threads =>
    cases hbegins
    obtain ⟨event, u, hlaunch, hu, _⟩ := step_launch hstep
    have hvalid := hu.valid.mp (Replaces.valid hreplaces hachieves)
    obtain ⟨t', ht, a, ha, hwrites, hindex⟩ := hreplaces
    obtain ⟨t'', _, _, _, _, _, _, x, ht'', _, _, _, _, _, rfl⟩ := launch_ok hlaunch
    cases ht.symm.trans ht''
    refine Starts.of_bindings hu.bindings (starts_markWritten ha hwrites ?_ hvalid)
    have hmarked : t.part.objects = (x.part.markWritten t' offset).objects := congrArg (List.map _) hu.bindings
    rw [objectIndex?_eq, ← objects_markArguments x.part offset t'.arguments, ← markWritten, ← hmarked, hobjects,
      ← objectIndex?_eq]
    exact hindex
  | _ => exact hreplaces.elim

-- An instruction that does well leaves the data where it was, or brings other data to where it says.
theorem step_starts (hi : i.opcode ≠ .context) (hbooks : Books rest s) (hplaced : r.Placed s)
    (hworks : i.WorksOn (r.target.map Target.index))
    (harray : ∀ o, s.part.objects[index]? = some o → o.isScalar = false) (hbegins : i.Begins offset)
    (hstep : m.step k i r s = (.ok r', t)) (h : s.part.Starts index offset ∨ i.Replaces s index) :
    t.part.Starts index offset := by
  obtain ⟨hdeals, hok⟩ := (step_deals (m := m) (k := k) hbooks hplaced hworks).of_eq hstep
  by_cases hreplaces : i.Replaces s index
  case pos =>
    exact starts_of_replaces (hok r' rfl).1 hstep (hdeals.sustains hbooks).stable.objects harray hbegins hreplaces
  case neg =>
    refine hdeals.keep (I := fun u => u.part.Starts index offset) hbooks (h.resolve_right hreplaces)
      (fun _ _ hc => .of_bindings hc.bindings) fun d u v hsustains hd hdoes hu => ?_
    refine (hdoes.starts hu fun task offset' heq => ?_).resolve_right fun hgone =>
      hreplaces (replaces_of_permits hi hsustains.stable hd hgone)
    subst heq
    cases i with
    | launch => exact hd.2.trans hbegins
    | _ => exact hd.elim

-- So it is with any number of instructions, if they are all about the same offset.
theorem Reaches.starts {s' : Hosted Context} {pre : List Instruction} (h : Reaches m k pre r s r' s')
    (hbooks : Books rest s) (hfit : Run.Fit False (pre ++ is) r s) (hpre : ∀ i ∈ pre, i.opcode ≠ .context)
    (harray : ∀ o, s.part.objects[index]? = some o → o.isScalar = false) (hbegins : ∀ i ∈ pre, i.Begins offset)
    (hs : s.part.Starts index offset ∨ ∃ i ∈ pre, i.Replaces s index) : s'.part.Starts index offset :=
  h.brought (P := fun u => u.part.Starts index offset)
    (Q := fun u i => (∀ o, u.part.objects[index]? = some o → o.isScalar = false) ∧ i.opcode ≠ .context ∧
      i.Begins offset)
    hbooks hfit (fun i hi => ⟨harray, hpre i hi, hbegins i hi⟩)
    (fun _ _ _ hstable => And.imp_left fun harray o ho => harray o (hstable.objects ▸ ho))
    (fun _ _ _ _ _ _ hbooks hplaced hworks ⟨harray, hi, hbegins⟩ =>
      step_starts hi hbooks hplaced hworks harray hbegins) hs

-- The ending brings nothing.
theorem Reaches.starts_ending {ending : Ending} (h : Reaches m k ending.instructions r s r' t) (hbooks : Books rest s)
    (hfit : Run.Fit False ending.instructions r s) (ho : s.part.objects[index]? = some o) (harray : o.isScalar = false)
    (hstarts : s.part.Starts index offset) : t.part.Starts index offset := by
  rw [← List.append_nil ending.instructions] at hfit
  refine h.starts hbooks hfit (fun i hi => ?_) (fun x hx => ?_) (fun i hi => ?_) (.inl hstarts)
  case refine_1 =>
    intro hopcode
    rcases ending.of_mem hi with ⟨_, rfl⟩ | rfl <;> cases hopcode
  case refine_2 =>
    cases ho.symm.trans hx
    exact harray
  case refine_3 => rcases ending.of_mem hi with ⟨_, rfl⟩ | rfl <;> trivial

namespace Renders.Ready

variable {tgt : Target} {front blocks : List Instruction}

-- An execution that does well goes through the blocks, and then through the ending.
theorem runs {e : Execution} {v : Hosted Context} (h : Ready m steps g l passes rest tgt front blocks s r t)
    (hexecute : m.execute s = (.ok e, v)) :
    ∃ r₁ s₁ r₂ s₂, Reaches m front.length blocks r t r₁ s₁ ∧
      Reaches m (front.length + blocks.length) l.ending.instructions r₁ s₁ r₂ s₂ ∧ v.part = s₂.part := by
  obtain ⟨r₂, s₂, hall, -, htgt, -⟩ := execute_ok hexecute
  obtain ⟨_, hsame⟩ := Machine.execute_eq hall htgt
  have hsteps := steps_ok.mpr hall
  rw [h.instructions, steps_append h.reaches, Nat.zero_add] at hsteps
  obtain ⟨r₁, s₁, hblocks, hending⟩ := (steps_ok.mp hsteps).split
  exact ⟨r₁, s₁, r₂, s₂, hblocks, hending, congrArg (·.2.part) (hexecute.symm.trans hsame)⟩

-- The last of the blocks are those of the last pass.
theorem last {before : List Pass} (h : Ready m steps g l passes rest tgt front blocks s r t)
    (hpasses : passes = before ++ [pass]) :
    ∃ is₁ is₂, blocks = is₁ ++ is₂ ∧ Laid g l passes (passSites l.order before.length) is₂ := by
  have hlaid := h.laid
  rw [hpasses, List.length_append, List.length_singleton, sites, List.range_succ, List.flatMap_append,
    List.flatMap_singleton, ← hpasses] at hlaid
  obtain ⟨is₁, is₂, heq, -, hlaid₂⟩ := hlaid.split
  exact ⟨is₁, is₂, heq, hlaid₂⟩

end Renders.Ready

namespace Regular

-- In a pass every instruction is about the offset of the window.
theorem begins (h : m.Regular q steps g l passes s) (hpass : pass ∈ passes) {id : Nat} (hi : Issued g l pass id i) :
    i.Begins pass.offset := by
  have hoffset := Nat.mod_eq_of_lt (h.inside hpass).1.offset
  rcases hi.cases with ⟨_, -, rfl⟩ | ⟨_, -, rfl⟩ | ⟨_, -, rfl | rfl⟩
  case inl => exact hoffset
  case inr.inl => exact hoffset
  case inr.inr.inl => trivial
  case inr.inr.inr => trivial

-- What was filled in a pass belongs to its window.
theorem starts (h : m.Regular q steps g l passes s) (hpass : passes[n]? = some pass)
    (hlaid : Laid g l passes (passSites l.order n) is) (hreach : Reaches m k is r s r' t) (hbooks : Books rest s)
    (hfit : Run.Fit False (is ++ tail) r s) (ho : s.part.objects[index]? = some o) (harray : o.isScalar = false)
    (hfilled : ∃ step ∈ steps, step.Fills o.handle) : t.part.Starts index pass.offset := by
  have hreplaces := (h.replaces_iff hlaid h.follows ho).mpr hfilled
  refine hreach.starts hbooks hfit hlaid.not_context (fun x hx => ?_) (fun i hi => ?_) (.inr hreplaces)
  case refine_1 =>
    cases ho.symm.trans hx
    exact harray
  case refine_2 =>
    rcases hlaid.origin hi with ⟨_, rfl⟩ | ⟨site, hsite, pass', hpass', hissued⟩
    case inl => trivial
    case inr =>
      obtain ⟨_, _, rfl⟩ := List.mem_map.mp hsite
      cases hpass.symm.trans hpass'
      exact h.begins (List.mem_of_getElem? hpass) hissued

-- After an execution that does well, whatever its steps fill is there, and belongs to the window of the last pass.
theorem execute_starts {before : List Pass} (h : m.Regular q steps g l passes s) (hbooks : Books rest s)
    (htrust : Trusted s) (hsuits : m.Suits s.platform.registry s.part) (hpasses : passes = before ++ [pass])
    (ho : s.part.objects[index]? = some o) (harray : o.isScalar = false)
    (hfilled : ∃ step ∈ steps, step.Fills o.handle) :
    m.execute.Ends s fun result t => ∀ e, result = .ok e → t.part.Starts index pass.offset := by
  rcases hexecute : m.execute s with ⟨result, v⟩
  rw [Action.Ends, hexecute]
  rintro e rfl
  obtain ⟨tgt, front, blocks, r, t, hready⟩ := h.ready hbooks htrust hsuits
  obtain ⟨r₂, s₂, r₃, s₃, hblocks, hending, hpart⟩ := hready.runs hexecute
  rw [hpart]
  obtain ⟨is₁, is₂, rfl, hlaid⟩ := hready.last hpasses
  obtain ⟨r₁, s₁, hreach₁, hreach₂⟩ := hblocks.split
  have hfit := hready.fit
  rw [List.append_assoc] at hfit
  obtain ⟨hsustains₁, hfit₁⟩ := hreach₁.fit hready.opens.sustains.books hfit
  obtain ⟨hsustains₂, hfit₂⟩ := hreach₂.fit hsustains₁.books hfit₁
  have hstable₁ := stable_lasting.trans hready.opens.sustains.stable hsustains₁.stable
  have hstable₂ := stable_lasting.trans hstable₁ hsustains₂.stable
  have hpass : passes[before.length]? = some pass := by
    rw [hpasses]
    exact List.getElem?_concat_length
  have hstarts := (h.of_stable hstable₁).starts hpass hlaid hreach₂ hsustains₁.books hfit₁ (hstable₁.objects ▸ ho)
    harray hfilled
  exact hending.starts_ending hsustains₂.books hfit₂ (hstable₂.objects ▸ ho) harray hstarts

end Regular

end Machine
end Offload
