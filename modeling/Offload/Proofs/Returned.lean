import Offload.Proofs.Sharing
import Offload.Proofs.Sizes

/-!
What passes leave in step. If the last data that a pass has of an object was copied to the device, or is brought out
after it was written, then at the end of the pass the copy is what the host has in the window of the pass.
-/

namespace Offload

-- A kernel that does not fail leaves alone what it is not to write.
def Kernel.Respects (accesses : List Access) (kernel : Kernel) : Prop :=
  ∀ geometry contents results, contents.length = accesses.length →
    (kernel { geometry, arguments := contents }).run contents = (results, none) →
    ∀ place access, accesses[place]? = some access → ¬access.writes →
      results.getD place [] = contents.getD place []

theorem Script.getD_write {arguments next : List Bytes} {argument place : Nat} {data : Bytes} (hne : argument ≠ place)
    (h : write arguments argument data = .ok next) : next.getD place [] = arguments.getD place [] := by
  unfold write at h
  split at h
  case h_1 => cases h
  case h_2 =>
    split at h <;> cases h
    rw [List.getD_eq_getElem?_getD, List.getD_eq_getElem?_getD, List.getElem?_set_ne hne]

theorem Script.getD_perform {writes : List (Nat × Bytes)} {fault : Option KernelFault} {arguments : List Bytes}
    {place : Nat} (h : ∀ w ∈ writes, w.1 ≠ place) :
    (perform writes fault arguments).1.getD place [] = arguments.getD place [] := by
  induction writes generalizing arguments with
  | nil => rfl
  | cons w writes ih =>
    obtain ⟨hw, hwrites⟩ := List.forall_mem_cons.mp h
    rw [perform]
    cases hwrite : write arguments w.1 w.2 with
    | error => rfl
    | ok next => exact (ih hwrites).trans (getD_write hw hwrite)

-- It is enough that it does not write there.
theorem Kernel.Respects.of_writes {accesses : List Access} {kernel : Kernel}
    (h : ∀ v, ∀ w ∈ (kernel v).writes, ∃ access, accesses[w.1]? = some access ∧ access.writes) :
    kernel.Respects accesses := by
  intro geometry contents results _ hrun place access haccess hreads
  have hne : ∀ w ∈ (kernel { geometry, arguments := contents }).writes, w.1 ≠ place := by
    rintro w hw rfl
    obtain ⟨other, hother, hwrites⟩ := h _ w hw
    cases haccess.symm.trans hother
    exact hreads hwrites
  exact (congrArg (·.1.getD place []) hrun).symm.trans (Script.getD_perform hne)

-- The kernel of the task changes only the arguments that the task writes.
def Task.Respectful (kernels : List (String × Kernel)) (t : Task) : Prop :=
  ∀ kernel, kernels.find? (·.1 == t.kernel) = some kernel → kernel.2.Respects (t.arguments.map Argument.access)

-- The last step that brings data of an object to the device copies it there, or the data is brought out after it.
def Step.Returned (h : Handle) (steps : List Step) : Prop :=
  ∃ before step after, steps = before ++ step :: after ∧ step.Fills h ∧ (∀ x ∈ after, ¬x.Fills h) ∧
    ((∃ o, step = .streamIn o) ∨ ∃ o, .streamOut o ∈ after ∧ o.handle = h)

theorem Task.writesTo_iff_fills {t : Task} {h : Handle} : t.writesTo h ↔ (Step.task t).Fills h := by
  simp [writesTo, Step.Fills, and_comm]

namespace World

variable {e : Element} {total first count size offset : Nat} {p : Pass} {u : Setup} {s : Step} {steps : List Step}
  {w w' : World} {h : Handle} {c : Copy}

-- The copy of an object is data, of that many bytes.
def Holds (w : World) (h : Handle) (size : Nat) : Prop :=
  ∃ bytes, w.copies h = some ⟨bytes, true⟩ ∧ bytes.length = size

-- The copy of an object is data that the host has in a window.
def Mirrors (w : World) (h : Handle) (offset size : Nat) : Prop :=
  w.copies h = some ⟨Bytes.window offset size (w.host h), true⟩

-- The host gets other bytes of an object only when these are brought out.
theorem host_windowStep (hne : ∀ o, s = .streamOut o → o.handle ≠ h) (hstep : w.windowStep u p s = .ok w') :
    w'.host h = w.host h := by
  cases s with
  | streamIn =>
    obtain ⟨-, rfl⟩ := windowStep_streamIn_ok hstep
    rfl
  | task t =>
    obtain ⟨_, -, rfl⟩ := windowStep_task_ok hstep
    exact congrFun (host_provides p.threads t.arguments w) h
  | streamOut o =>
    obtain ⟨_, -, -, -, rfl⟩ := windowStep_streamOut_ok hstep
    exact Function.update_of_ne (hne o rfl).symm _ _

-- No step changes the length of an object.
theorem length_windowStep (hstep : w.windowStep u p s = .ok w') (h : Handle) :
    (w'.host h).length = (w.host h).length := by
  by_cases hout : ∃ o, s = .streamOut o ∧ o.handle = h
  case neg => rw [host_windowStep (fun o heq hh => hout ⟨o, heq, hh⟩) hstep]
  case pos =>
    obtain ⟨o, rfl, rfl⟩ := hout
    obtain ⟨bytes, -, hlength, hinside, rfl⟩ := windowStep_streamOut_ok hstep
    dsimp only
    rw [Function.update_self]
    exact Bytes.overlayAt_length (by rwa [List.length_take_of_le hlength])

theorem length_windows {work : List (Pass × Step)} (hrun : w.windows u work = (.ok ⟨⟩, w')) (h : Handle) :
    (w'.host h).length = (w.host h).length := by
  induction work generalizing w with
  | nil =>
    cases hrun
    rfl
  | cons x work ih =>
    obtain ⟨w₁, hstep, hrest⟩ := windows_cons_ok hrun
    rw [ih hrest, length_windowStep hstep]

-- What a task writes is as much as its arguments were made room for.
theorem holds_leave {t : Task} (ht : t.Apart) (hsize : ∀ a ∈ t.arguments, w.argumentSize a.object p.threads = size)
    {results : List Bytes} (hrun : u.run t p.threads (t.arguments.map fun a =>
      (t.arguments.foldl (provide p.threads) w).view a.object.handle) = some results)
    (hfills : (Step.task t).Fills h) : ((t.arguments.foldl (provide p.threads) w).leave t results).Holds h size := by
  have hmarked := Task.writesTo_iff_fills.mpr hfills
  obtain ⟨a, ha, hwrites, rfl⟩ := hfills
  obtain ⟨place, hlt, rfl⟩ := List.getElem_of_mem ha
  obtain ⟨c, hc, hlength⟩ := copies_provides_of_writes hsize ha hwrites
  have hlengths := congrArg (·[place]?) (Setup.run_lengths hrun)
  simp only [List.getElem?_map, List.getElem?_eq_getElem hlt, Option.map_some, view_of_some hc, hlength] at hlengths
  obtain ⟨bytes, hbytes, hsame⟩ := Option.map_eq_some_iff.mp hlengths
  refine ⟨bytes, ?_, hsame⟩
  simp only [leave, ht.findIdx?_eq hlt, hmarked, Bool.true_or, List.getD_eq_getElem?_getD, hbytes, Option.getD_some]

-- A step that brings data of an object brings as much of it as the pass is about.
theorem holds_of_fills (hp : p.Covers e.size total first count) (hs : s.Arrays e total w.host)
    (hapart : ∀ t, s = .task t → t.Apart) (hfills : s.Fills h) (hstep : w.windowStep u p s = .ok w') :
    w'.Holds h (count * e.size) := by
  cases s with
  | streamIn o =>
    cases hfills
    obtain ⟨hinside, rfl⟩ := windowStep_streamIn_ok hstep
    rw [transferSize_eq hp (hs o (by simp [Step.objects])).2] at hinside ⊢
    exact ⟨_, copies_put_self w _ _, Bytes.window_length hinside⟩
  | task t =>
    obtain ⟨results, hrun, rfl⟩ := windowStep_task_ok hstep
    exact holds_leave (hapart t rfl) (fun a ha => argumentSize_eq hp (hs a.object (List.mem_map_of_mem ha))) hrun hfills
  | streamOut => exact hfills.elim

-- What was copied from the host is what the host has.
theorem mirrors_of_streamIn {o : HostObject} (hp : p.Covers e.size total first count)
    (hs : (Step.streamIn o).Arrays e total w.host) (hstep : w.windowStep u p (.streamIn o) = .ok w') :
    w'.Mirrors o.handle p.offset (count * e.size) := by
  obtain ⟨-, rfl⟩ := windowStep_streamIn_ok hstep
  rw [transferSize_eq hp (hs o (by simp [Step.objects])).2]
  exact copies_put_self w _ _

-- What was brought out is what the host has.
theorem mirrors_of_streamOut {o : HostObject} (hp : p.Covers e.size total first count)
    (hs : (Step.streamOut o).Arrays e total w.host) (hholds : w.Holds o.handle (count * e.size))
    (hstep : w.windowStep u p (.streamOut o) = .ok w') : w'.Mirrors o.handle p.offset (count * e.size) := by
  obtain ⟨bytes, hcopy, hlength⟩ := hholds
  obtain ⟨bytes', hcopy', -, hinside, rfl⟩ := windowStep_streamOut_ok hstep
  cases hcopy.symm.trans hcopy'
  rw [transferSize_eq hp (hs o (by simp [Step.objects])).2, ← hlength] at hinside ⊢
  rw [Mirrors]
  dsimp only
  rw [Function.update_self, List.take_length, Bytes.window_overlayAt hinside]
  exact hcopy

-- What a task only reads keeps what it holds.
theorem copies_leave {t : Task} (ht : t.Respectful u.kernels) (hfills : ¬(Step.task t).Fills h)
    (hc : w.copies h = some c) {results : List Bytes} {threads : Nat}
    (hrun : u.run t threads (t.arguments.map fun a => w.view a.object.handle) = some results) :
    (w.leave t results).copies h = some c := by
  simp only [leave]
  split
  case h_1 => exact hc
  case h_2 place hplace =>
    obtain ⟨hlt, hhandle, _⟩ := List.findIdx?_eq_some_iff_getElem.mp hplace
    have hhandle : t.arguments[place].object.handle = h := by simpa using hhandle
    have hreads : ¬t.arguments[place].access.writes := fun hwrites =>
      hfills ⟨_, List.getElem_mem hlt, hwrites, hhandle⟩
    have hmarked : t.writesTo h = false :=
      Bool.eq_false_iff.mpr fun hmarked => hfills (Task.writesTo_iff_fills.mp hmarked)
    obtain ⟨kernel, geometry, hkernel, _, hran⟩ := Setup.run_ok hrun
    have hsame := ht kernel hkernel geometry _ results (by simp) hran place t.arguments[place].access
      (by simp [hlt]) hreads
    rw [hsame, hmarked, hc, List.getD_eq_getElem?_getD, List.getElem?_map, List.getElem?_eq_getElem hlt]
    simp [hhandle, view_of_some hc]

-- A copy of the size of the pass stays what it is, unless a step brings other data.
theorem copies_windowStep (hp : p.Covers e.size total first count) (hs : s.Arrays e total w.host)
    (hrespect : ∀ t, s = .task t → t.Respectful u.kernels) (hfills : ¬s.Fills h) (hc : w.copies h = some c)
    (hlength : c.bytes.length = count * e.size) (hstep : w.windowStep u p s = .ok w') : w'.copies h = some c := by
  cases s with
  | streamIn o =>
    obtain ⟨-, rfl⟩ := windowStep_streamIn_ok hstep
    rw [copies_put_of_ne (fun heq => hfills heq.symm), hc]
  | streamOut o =>
    obtain ⟨_, -, -, -, rfl⟩ := windowStep_streamOut_ok hstep
    exact hc
  | task t =>
    obtain ⟨results, hrun, rfl⟩ := windowStep_task_ok hstep
    have hkept := copies_provides_of_fits
      (fun a ha => argumentSize_eq hp (hs a.object (List.mem_map_of_mem ha))) hc hlength
    exact copies_leave (hrespect t rfl) hfills hkept hrun

theorem holds_windowStep (hp : p.Covers e.size total first count) (hs : s.Arrays e total w.host)
    (hrespect : ∀ t, s = .task t → t.Respectful u.kernels) (hfills : ¬s.Fills h) (hholds : w.Holds h (count * e.size))
    (hstep : w.windowStep u p s = .ok w') : w'.Holds h (count * e.size) := by
  obtain ⟨bytes, hcopy, hlength⟩ := hholds
  exact ⟨bytes, copies_windowStep hp hs hrespect hfills hcopy hlength hstep, hlength⟩

theorem Mirrors.holds (hp : p.Covers e.size total first count) (htotal : (w.host h).length = total)
    (hmirrors : w.Mirrors h p.offset (count * e.size)) : w.Holds h (count * e.size) := by
  refine ⟨_, hmirrors, Bytes.window_length ?_⟩
  rw [hp.offset, ← Nat.add_mul, htotal]
  exact hp.within

-- A mirror stays one, as what is brought out of it is there already.
theorem mirrors_windowStep (hp : p.Covers e.size total first count) (hs : s.Arrays e total w.host)
    (hrespect : ∀ t, s = .task t → t.Respectful u.kernels) (hfills : ¬s.Fills h) (htotal : (w.host h).length = total)
    (hmirrors : w.Mirrors h p.offset (count * e.size)) (hstep : w.windowStep u p s = .ok w') :
    w'.Mirrors h p.offset (count * e.size) := by
  have hholds := hmirrors.holds hp htotal
  by_cases hout : ∃ o, s = .streamOut o ∧ o.handle = h
  case pos =>
    obtain ⟨o, rfl, rfl⟩ := hout
    exact mirrors_of_streamOut hp hs hholds hstep
  case neg =>
    obtain ⟨bytes, hcopy, hlength⟩ := hholds
    cases hcopy.symm.trans hmirrors
    rw [Mirrors, host_windowStep (fun o heq hh => hout ⟨o, heq, hh⟩) hstep]
    exact copies_windowStep hp hs hrespect hfills hmirrors hlength hstep

-- What every step of a pass keeps, the pass does.
theorem windows_keep {P : World → Prop} (harrays : ∀ s ∈ steps, s.Arrays e total w.host)
    (hkeep : ∀ s ∈ steps, ∀ w₁ w₂, (∀ h, (w₁.host h).length = (w.host h).length) → s.Arrays e total w₁.host →
      w₁.windowStep u p s = .ok w₂ → P w₁ → P w₂)
    (hrun : w.windows u (steps.map (p, ·)) = (.ok ⟨⟩, w')) (hw : P w) : P w' := by
  suffices hall : ∀ w₁, (∀ h, (w₁.host h).length = (w.host h).length) →
      w₁.windows u (steps.map (p, ·)) = (.ok ⟨⟩, w') → P w₁ → P w' from hall w (fun _ => rfl) hrun hw
  clear hrun
  induction steps with
  | nil =>
    intro w₁ _ hrun hw₁
    cases hrun
    exact hw₁
  | cons s steps ih =>
    intro w₁ hlengths hrun hw₁
    obtain ⟨hs, harrays⟩ := List.forall_mem_cons.mp harrays
    obtain ⟨hfirst, hkeep⟩ := List.forall_mem_cons.mp hkeep
    obtain ⟨w₂, hstep, hrest⟩ := windows_cons_ok hrun
    have hlengths' (h : Handle) := (length_windowStep hstep h).trans (hlengths h)
    exact ih harrays hkeep w₂ hlengths' hrest (hfirst w₁ w₂ hlengths (hs.of_lengths hlengths) hstep hw₁)

theorem windows_holds (hp : p.Covers e.size total first count) (harrays : ∀ s ∈ steps, s.Arrays e total w.host)
    (hrespect : ∀ t, .task t ∈ steps → t.Respectful u.kernels) (hfills : ∀ s ∈ steps, ¬s.Fills h)
    (hrun : w.windows u (steps.map (p, ·)) = (.ok ⟨⟩, w')) (hholds : w.Holds h (count * e.size)) :
    w'.Holds h (count * e.size) :=
  windows_keep harrays (fun s hs _ _ _ harrays hstep hholds =>
    holds_windowStep hp harrays (fun t heq => hrespect t (heq ▸ hs)) (hfills s hs) hholds hstep) hrun hholds

theorem windows_mirrors (hp : p.Covers e.size total first count) (harrays : ∀ s ∈ steps, s.Arrays e total w.host)
    (hrespect : ∀ t, .task t ∈ steps → t.Respectful u.kernels) (hfills : ∀ s ∈ steps, ¬s.Fills h)
    (htotal : (w.host h).length = total) (hrun : w.windows u (steps.map (p, ·)) = (.ok ⟨⟩, w'))
    (hmirrors : w.Mirrors h p.offset (count * e.size)) : w'.Mirrors h p.offset (count * e.size) :=
  windows_keep harrays (fun s hs _ _ hlengths harrays hstep hmirrors =>
    mirrors_windowStep hp harrays (fun t heq => hrespect t (heq ▸ hs)) (hfills s hs) ((hlengths h).trans htotal)
      hmirrors hstep) hrun hmirrors

-- At the end of a pass the copy of an object that was returned is what the host has in the window.
theorem mirrors_of_returned (hp : p.Covers e.size total first count) (harrays : ∀ s ∈ steps, s.Arrays e total w.host)
    (hapart : ∀ t, .task t ∈ steps → t.Apart) (hrespect : ∀ t, .task t ∈ steps → t.Respectful u.kernels)
    (htotal : (w.host h).length = total) (hreturned : Step.Returned h steps)
    (hrun : w.windows u (steps.map (p, ·)) = (.ok ⟨⟩, w')) :
    w'.Mirrors h p.offset (count * e.size) := by
  obtain ⟨before, step, after, rfl, hfills, hkept, hback⟩ := hreturned
  rw [List.map_append] at hrun
  obtain ⟨w₁, hbefore, hrun⟩ := windows_append_ok hrun
  obtain ⟨w₂, hstep, hafter⟩ := windows_cons_ok hrun
  have hlengths (h : Handle) := length_windows hbefore h
  have hlengths₂ (h : Handle) := (length_windowStep hstep h).trans (hlengths h)
  have hfirst := (harrays step (by simp)).of_lengths hlengths
  have hlater : ∀ s ∈ after, s.Arrays e total w₂.host := fun s hs => (harrays s (by simp [hs])).of_lengths hlengths₂
  have hrespect' : ∀ t, .task t ∈ after → t.Respectful u.kernels := fun t ht => hrespect t (by simp [ht])
  have htotal₂ := (hlengths₂ h).trans htotal
  rcases hback with ⟨o, rfl⟩ | ⟨o, hout, rfl⟩
  case inl =>
    cases hfills
    exact windows_mirrors hp hlater hrespect' hkept htotal₂ hafter (mirrors_of_streamIn hp hfirst hstep)
  case inr =>
    have hholds := holds_of_fills hp hfirst (fun t heq => hapart t (by simp [heq])) hfills hstep
    obtain ⟨pre, post, rfl⟩ := List.append_of_mem hout
    rw [List.map_append] at hafter
    obtain ⟨w₃, hpre, hafter⟩ := windows_append_ok hafter
    obtain ⟨w₄, hstep', hpost⟩ := windows_cons_ok hafter
    have hlengths₃ (h : Handle) := length_windows hpre h
    have hlengths₄ (h : Handle) := (length_windowStep hstep' h).trans (hlengths₃ h)
    -- the data is kept until it is brought out, and is what the host has from then on
    have hheld := windows_holds hp (fun s hs => hlater s (by simp [hs])) (fun t ht => hrespect' t (by simp [ht]))
      (fun s hs => hkept s (by simp [hs])) hpre hholds
    have hmirrors := mirrors_of_streamOut hp ((hlater _ hout).of_lengths hlengths₃) hheld hstep'
    exact windows_mirrors hp (fun s hs => (hlater s (by simp [hs])).of_lengths hlengths₄)
      (fun t ht => hrespect' t (by simp [ht])) (fun s hs => hkept s (by simp [hs])) ((hlengths₄ _).trans htotal₂)
      hpost hmirrors

-- So it is with the last of several passes.
theorem windows_returned {before : List Pass} (hp : p.Covers e.size total first count)
    (harrays : ∀ s ∈ steps, s.Arrays e total w.host) (hapart : ∀ t, .task t ∈ steps → t.Apart)
    (hrespect : ∀ t, .task t ∈ steps → t.Respectful u.kernels)
    (htotal : (w.host h).length = total) (hreturned : Step.Returned h steps)
    (hrun : w.windows u ((before ++ [p]).flatMap fun p => steps.map (p, ·)) = (.ok ⟨⟩, w')) :
    w'.Mirrors h p.offset (count * e.size) := by
  rw [List.flatMap_append, List.flatMap_singleton] at hrun
  obtain ⟨w₁, hbefore, hlast⟩ := windows_append_ok hrun
  have hlengths (h : Handle) := length_windows hbefore h
  exact mirrors_of_returned hp (fun s hs => (harrays s hs).of_lengths hlengths) hapart hrespect
    ((hlengths h).trans htotal) hreturned hlast

end World
end Offload
