import Offload.Proofs.Affairs
import Offload.Proofs.Household
import Offload.Proofs.Resumed
import Offload.Proofs.Returned
import Offload.Proofs.Starts

/-!
Results that were streamed out and are synchronized once more. After a run the buffer of an object may hold no more
than the last window, but where the host has this window already, a sync puts it back to where it came from: it
changes nothing but the record.
-/

namespace Offload

-- Nothing changed but the records of some objects, which a device shares.
structure Platform.Enters (device : Nat) (handles : List Handle) (p p' : Platform) : Prop where
  bytes  : p'.registry.bytes = p.registry.bytes
  memory : ∀ place, (p'.channel place).device.memory = (p.channel place).device.memory
  record : ∀ k, p'.registry.record? k =
    if k ∈ handles then (p.registry.record? k).map fun _ => { owner := some device, shared := true }
    else p.registry.record? k

theorem Platform.Enters.trans {device : Nat} {handles handles' : List Handle} {p p' p'' : Platform}
    (h : p.Enters device handles p') (h' : p'.Enters device handles' p'') :
    p.Enters device (handles ++ handles') p'' where
  bytes := h'.bytes.trans h.bytes
  memory place := (h'.memory place).trans (h.memory place)
  record k := by
    rw [h'.record, h.record]
    by_cases hk : k ∈ handles <;> by_cases hk' : k ∈ handles' <;> simp [hk, hk', Function.comp_def]

theorem Step.Fills.exists_object {step : Step} {k : Handle} (h : step.Fills k) :
    ∃ o ∈ step.objects, o.handle = k := by
  cases step with
  | streamIn o => exact ⟨o, List.mem_singleton_self o, h⟩
  | task t =>
    obtain ⟨a, ha, -, hhandle⟩ := h
    exact ⟨a.object, List.mem_map_of_mem ha, hhandle⟩
  | streamOut => exact h.elim

theorem Step.Returned.exists_fills {steps : List Step} {k : Handle} (h : Step.Returned k steps) :
    ∃ step ∈ steps, step.Fills k := by
  obtain ⟨before, step, after, rfl, hfills, -⟩ := h
  exact ⟨step, List.mem_append_right _ List.mem_cons_self, hfills⟩

namespace Context

variable {rest : Nat → List (BufferId × Nat)} {s t : Hosted Context} {k : Handle} {o : HostObject}
  {objects : List HostObject} {device place index offset size : Nat}

-- The context has data of the object, and the host has the same in the window that the data belongs to.
def Reflects (k : Handle) (s : Hosted Context) : Prop :=
  ∃ index b, s.part.Places k index b ∧ b.state.isValid ∧ b.Mirrors s

theorem Reflects.frame {p : Platform} (h : Reflects k s) (hbytes : p.registry.bytes = s.platform.registry.bytes)
    (hmemory : ∀ place, (p.channel place).device.memory = (s.device place).memory) : Reflects k ⟨p, s.part⟩ := by
  obtain ⟨index, b, hplaces, hvalid, place, id, hplace, hid, hinside, hcontents⟩ := h
  refine ⟨index, b, hplaces, hvalid, place, id, hplace, hid, ?_, ?_⟩
  case refine_1 => rwa [Registry.byteLength, hbytes]
  case refine_2 => rw [hbytes, Hosted.device, hmemory, hcontents]

-- What is read back of a mirror is what is there.
theorem readBack_of_mirrors {b : Binding} (h : b.Mirrors s) (hplace : s.part.activePlace? = some place) :
    ∃ id e p, b.state.buffer = some id ∧
      b.state.hostOffset + b.state.size ≤ s.platform.registry.byteLength b.object.handle ∧
      Platform.readBack place id b.object.handle b.state.hostOffset b.state.size [] true s.platform = (.ok e, p) ∧
      p.registry.bytes = s.platform.registry.bytes ∧ (∀ k, p.registry.record? k = s.platform.registry.record? k) ∧
        ∀ other, (p.channel other).device.memory = (s.device other).memory := by
  obtain ⟨place', id, hplace', hid, hinside, hcontents⟩ := h
  cases hplace.symm.trans hplace'
  have hwindow := Bytes.window_length hinside
  have hready : (s.platform.channel place).queue.Ready [] := fun _ he => absurd he List.not_mem_nil
  obtain ⟨c, hcall, -⟩ := Channel.read_ready hready hcontents (Nat.le_of_eq hwindow.symm) hinside true
  have hread := Platform.readBack_of_ok hcall
  obtain ⟨-, hregistry, hmemory⟩ := Platform.readBack_ok hcontents (Nat.le_of_eq hwindow.symm) hread
  refine ⟨id, _, _, hid, hinside, hread, ?_, fun k => ?_, hmemory⟩
  case refine_1 =>
    rw [hregistry, List.take_of_length_le (Nat.le_of_eq hwindow), Registry.bytes_deliver (by rwa [hwindow]),
      Bytes.overlayAt_window hinside, Function.update_eq_self]
  case refine_2 => rw [hregistry, Registry.record?_deliver]

-- So nothing changes but the record.
theorem syncObject_of_reflects (h : Reflects o.handle s) (hplace : s.part.activePlace? = some place) :
    (syncObject device place o).Ends s fun result t =>
      result = .ok ⟨⟩ ∧ t.part = s.part ∧ s.platform.Enters device [o.handle] t.platform := by
  obtain ⟨index, b, ⟨hindex, hb⟩, hvalid, hmirrors⟩ := h
  obtain ⟨id, e, p, hid, hinside, hread, hbytes, hrecord, hmemory⟩ := readBack_of_mirrors hmirrors hplace
  rw [handle_of_objectIndex? hindex hb] at hinside hread
  have hbuffer : b.state.validBuffer? = some id := by
    rw [ObjectState.validBuffer?, (Bool.and_eq_true_iff.mp hvalid).2, if_pos rfl, hid]
  have hlength : min b.state.size (s.platform.registry.byteLength o.handle - b.state.hostOffset) = b.state.size := by
    omega
  unfold syncObject
  refine Action.Ends.bind_get ?_
  rw [objectIndex_ok.mpr hindex]
  refine Action.Ends.bind_of_ok (Action.lift_apply _ s) ?_
  rw [binding_ok.mpr hb]
  refine Action.Ends.bind_of_ok (Action.lift_apply _ s) ?_
  rw [hbuffer]
  dsimp only
  rw [hlength]
  have hplatform : (Hosted.onPlatform (Platform.readBack place id o.handle b.state.hostOffset b.state.size [] true) :
      On EventId) s = (.ok e, ⟨p, s.part⟩) := by
    rw [Hosted.onPlatform, hread]
  refine Action.Ends.bind_of_ok hplatform ⟨rfl, rfl, ?_, hmemory, fun k => ?_⟩
  case refine_1 => exact (funext fun k => Registry.bytes_setOwner _ _ _ _ _).trans hbytes
  case refine_2 =>
    refine (Registry.record?_setOwner _ _ _ _ _).trans ?_
    rw [hrecord]
    exact if_congr List.mem_singleton.symm rfl rfl

-- So it is with any number of objects.
theorem sync_of_reflects (h : ∀ o ∈ objects, Reflects o.handle s) (hactive : s.part.active = some device)
    (hplace : s.part.devices[device]? = some place) :
    (sync objects).Ends s fun result t => result = .ok ⟨⟩ ∧ t.part = s.part ∧
      s.platform.Enters device (objects.map HostObject.handle) t.platform := by
  unfold sync
  refine Action.Ends.bind_get ?_
  dsimp only
  rw [hactive]
  dsimp only
  rw [place_ok.mpr hplace]
  refine Action.Ends.bind_of_ok (Action.lift_apply _ s) ?_
  induction objects generalizing s with
  | nil => exact ⟨rfl, rfl, rfl, fun _ => rfl, fun _ => rfl⟩
  | cons o objects ih =>
    obtain ⟨ho, hobjects⟩ := List.forall_mem_cons.mp h
    refine (syncObject_of_reflects ho (activePlace?_eq hactive hplace)).bind (fun _ u ⟨_, hpart, henters⟩ => ?_)
      fun _ _ hu => nomatch hu.1
    obtain ⟨p, part⟩ := u
    cases hpart
    have hrest := ih (s := ⟨p, s.part⟩) (fun x hx => (hobjects x hx).frame henters.bytes henters.memory) hactive hplace
    exact hrest.mono fun _ t ⟨hok, hpart, hlater⟩ => ⟨hok, hpart, henters.trans hlater⟩

-- A copy that the host has in the window that the data is on record for.
theorem reflects_of_mirrors {b : Bench} (hi : Intact b s) (hbooks : Books rest s)
    (ho : s.part.objects[index]? = some o) (hstarts : s.part.Starts index offset)
    (hmirrors : (s.world b.place).Mirrors o.handle offset size)
    (hinside : offset + size ≤ s.platform.registry.byteLength o.handle) : Reflects o.handle s := by
  obtain ⟨x, hx, hvalid, hoffset⟩ := hstarts
  cases ho.symm.trans (getElem?_objects hx)
  obtain ⟨id, hid⟩ := ObjectState.exists_buffer hvalid
  obtain ⟨bytes, hcontents, hlength, hcopy⟩ := hi.exists_copy (hi.distinct.state?_eq hx) hid
  obtain ⟨rfl, -⟩ := Copy.mk.inj (Option.some.inj (hcopy.symm.trans hmirrors))
  have hsize : x.state.size = size := hlength.symm.trans (Bytes.window_length hinside)
  obtain ⟨place, hplace⟩ := hbooks.exists_place (List.mem_of_getElem? hx) hid
  obtain ⟨device, hactive, hdevice⟩ := Option.bind_eq_some_iff.mp hplace
  cases hi.active device hactive
  cases hdevice.symm.trans hi.devices
  refine ⟨index, x, ⟨hi.distinct.objectIndex?_eq hx, hx⟩, hvalid, b.place, id, hplace, hid, ?_, ?_⟩
  case refine_1 => rwa [hoffset, hsize]
  case refine_2 => rw [hcontents, hoffset, hsize]; rfl

end Context

namespace Machine

open Context

variable {rest : Nat → List (BufferId × Nat)} {s t : Hosted Context} {m : Machine} {steps : List Step} {g : Graph}
  {l : Compile.Layout} {passes : List Pass} {pass : Pass} {q : Registry} {e : Element} {total index : Nat}
  {o : HostObject}

-- Whatever a step is about is bound.
theorem Renders.exists_object (h : m.Renders steps g l passes s) {step : Step} (hstep : step ∈ steps)
    (ho : o ∈ step.objects) :
    ∃ (index : Nat) (x : HostObject), s.part.objects[index]? = some x ∧ x.handle = o.handle := by
  obtain ⟨id, -, kind, -, hdoes⟩ := exists_of_forall₂ h.follows hstep
  cases step with
  | task t =>
    obtain ⟨a, ha, rfl⟩ := List.mem_map.mp ho
    cases kind with
    | task n =>
      obtain ⟨x, hx, hhandle⟩ := List.mem_map.mp (h.binds t (List.mem_of_getElem? hdoes) a ha)
      obtain ⟨index, hindex⟩ := List.getElem?_of_mem hx
      exact ⟨index, x, hindex, hhandle⟩
    | _ => exact hdoes.elim
  | streamIn o' =>
    cases List.mem_singleton.mp ho
    cases kind with
    | streamIn index => exact ⟨index, hdoes⟩
    | _ => exact hdoes.elim
  | streamOut o' =>
    cases List.mem_singleton.mp ho
    cases kind with
    | streamOut index => exact ⟨index, hdoes⟩
    | _ => exact hdoes.elim

-- What an execution that was not refused leaves: the context is on its device, and unless something failed, the host
-- has whatever was returned.
structure Concludes (place : Nat) (steps : List Step) (x : Execution) (t : Hosted Context) : Prop where
  target   : x.target.place = place
  attached : place < t.platform.channels.length
  device   : t.part.devices[x.target.index]? = some place
  active   : t.part.active = some x.target.index
  reflects : (∀ y ∈ x.events, ∀ fault, (t.queue place).status? y.2 ≠ some (.failed fault)) →
    ∀ k, Step.Returned k steps → Reflects k t

namespace Regular

-- Arrays are covered by the passes.
theorem tiles (h : m.Regular q steps g l passes s) (harrays : ∀ step ∈ steps, step.Arrays e total q.bytes)
    (ho : o ∈ s.part.objects) : Pass.Tiles e.size total 0 passes (total / e.size) ∧ total < wordLimit := by
  obtain ⟨_, _, _, hmade⟩ := h.made
  have harray (x : HostObject) (hx : x ∈ s.part.objects) : x.kind = .array e ∧ q.byteLength x.handle = total := by
    obtain ⟨step, hstep, hx⟩ := h.objects x hx
    exact harrays step hstep x hx
  obtain ⟨hkind, htotal⟩ := harray o ho
  have hsize : e.size ∣ total := htotal ▸ (h.whole ho).elements e hkind
  exact ⟨Pass.tiles_of_plan (fun x hx => ⟨(harray x hx).1, (h.lengths _).trans (harray x hx).2⟩) hsize hmade.plan,
    htotal ▸ h.words _⟩

-- Whatever was returned in the last pass is what the host has there.
theorem reflects {b : Bench} {before : List Pass} (h : m.Regular q steps g l passes s)
    (harrays : ∀ step ∈ steps, step.Arrays e total q.bytes) (hwalked : m.Walked passes steps b s t)
    (hrespect : ∀ t, .task t ∈ steps → t.Respectful b.kernels) (hbooks : Books rest t) (hstable : Stable s t)
    (hpasses : passes = before ++ [pass]) (ho : s.part.objects[index]? = some o)
    (hstarts : t.part.Starts index pass.offset) (hreturned : Step.Returned o.handle steps) : Reflects o.handle t := by
  obtain ⟨step, hstep, hmem⟩ := h.objects o (List.mem_of_getElem? ho)
  obtain ⟨hkind, htotal⟩ := harrays step hstep o hmem
  obtain ⟨htiles, hlimit⟩ := h.tiles harrays (List.mem_of_getElem? ho)
  obtain ⟨first, count, hcovers⟩ := htiles.covers (hpasses ▸ List.mem_append_right _ (List.mem_singleton_self pass))
  obtain ⟨w, hlengths, hwindows⟩ := hwalked.windows
  have hlengths (k : Handle) : (w.host k).length = q.byteLength k := (hlengths k).trans (h.lengths k)
  rw [Pass.work_of_tiles htiles e.size_pos hlimit, hpasses] at hwindows
  have hmirrors := World.windows_returned hcovers (fun step hstep => (harrays step hstep).of_lengths hlengths)
    (fun t ht => (h.steps _ ht).apart t rfl) hrespect ((hlengths _).trans htotal) hreturned hwindows
  refine reflects_of_mirrors hwalked.intact hbooks (hstable.objects ▸ ho) hstarts hmirrors ?_
  rw [hstable.lengths, h.lengths, Registry.byteLength, htotal, hcovers.offset, ← Nat.add_mul]
  exact hcovers.within

theorem execute_concludes (h : m.Regular q steps g l passes s) (hbooks : Books rest s) (htrust : Trusted s)
    (hlearned : Learned s) (hsuits : m.Suits s.platform.registry s.part)
    (harrays : ∀ step ∈ steps, step.Arrays e total q.bytes)
    (hrespect : ∀ place ∈ s.part.devices, ∀ t, .task t ∈ steps → t.Respectful (s.device place).kernels) :
    ∃ place ∈ s.part.devices, m.execute.Ends s fun result t => ∀ x, result = .ok x → Concludes place steps x t := by
  have harray (o : HostObject) (ho : o ∈ s.part.objects) : o.isScalar = false := by
    obtain ⟨step, hstep, ho⟩ := h.objects o ho
    simp [HostObject.isScalar, (harrays step hstep o ho).1]
  obtain ⟨_, _, _, hmade⟩ := h.made
  obtain ⟨before, pass, hpasses⟩ := (List.eq_nil_or_concat passes).resolve_left (Pass.plan_inside hmade.plan).1
  rw [List.concat_eq_append] at hpasses
  obtain ⟨b, hdevice, hkernels, hwalks⟩ := h.execute_walks hbooks htrust hlearned hsuits harray
  have hplace := List.mem_of_getElem? hdevice
  refine ⟨b.place, hplace, ?_⟩
  have hstarts (index : Nat) (o : HostObject) (ho : s.part.objects[index]? = some o) :=
    h.execute_starts hbooks htrust hsuits hpasses ho (harray o (List.mem_of_getElem? ho))
  have hsustains := execute_sustains hbooks hsuits
  have hvouches := execute_vouches hbooks hsuits
  rcases hexecute : m.execute s with ⟨result, t⟩
  simp only [Action.Ends, hexecute] at hwalks hstarts hsustains hvouches ⊢
  intro x hx
  obtain ⟨htarget, hattached, hwalked⟩ := hwalks x hx
  rw [← hsustains.1.stable.devices] at hdevice
  refine ⟨congrArg Target.place htarget, hattached, (congrArg Target.index htarget).symm ▸ hdevice,
    (hvouches.2 x hx).active, fun hnone k hreturned => ?_⟩
  obtain ⟨step, hstep, hfills⟩ := hreturned.exists_fills
  obtain ⟨o', ho', rfl⟩ := hfills.exists_object
  obtain ⟨index, o, ho, hhandle⟩ := h.exists_object hstep ho'
  rw [← hhandle] at hreturned ⊢
  exact h.reflects harrays (hwalked hnone) (fun t ht => hkernels ▸ hrespect _ hplace t ht) hsustains.1.books
    hsustains.1.stable hpasses ho (hstarts index o ho ⟨step, hstep, hhandle ▸ hfills⟩ x hx) hreturned

end Regular

end Machine

namespace Schedule.Equipped

open Tenant (Lodged)

variable {rest : Nat → List (BufferId × Nat)} {place total : Nat} {e : Element} {q : Registry} {s : Hosted Schedule}

theorem execute_concludes (h : Equipped place q s) (hlodged : Lodged rest ⟨s.platform, s.part.tenant⟩)
    (hregular : ∀ step ∈ s.part.steps, step.Regular q) (harrays : ∀ step ∈ s.part.steps, step.Arrays e total q.bytes)
    (hrespect : ∀ t, .task t ∈ s.part.steps → t.Respectful (s.platform.channel place).device.kernels) :
    Schedule.execute.Ends s fun result t => ∀ x, result = .ok x →
      Machine.Concludes place s.part.steps x ⟨t.platform, t.part.context⟩ := by
  refine h.execute_of_run hlodged (fun e t _ _ _ => nofun) fun t m ht hlodged' hplatform hsteps _ hm => ?_
  rw [← hplatform, ← hsteps] at hrespect
  rw [← hsteps] at hregular harrays ⊢
  obtain ⟨⟨g, l, passes, hregular⟩, -, hsuits⟩ := ht.regular hlodged' hregular hm
  have hkernels (other : Nat) (hother : other ∈ t.part.context.devices) := ht.eq_place hother ▸ hrespect
  obtain ⟨place', hplace, hconcludes⟩ :=
    hregular.execute_concludes hlodged'.books hlodged'.trust ht.learned hsuits harrays hkernels
  cases ht.eq_place hplace
  exact hconcludes

end Schedule.Equipped

namespace Neighbourhood

variable {place k : Nat}

-- Two of three elements in a first pass, and the last one in a second.
def copied : Neighbourhood :=
  (settle Schedule.copyPlatform 0 [⟨"copy", {}, Schedule.copySteps⟩]).proceed [(0, .turn (.compile (some 4)))]

theorem respects_copy : Kernel.copy.Respects [.read, .write] := by
  refine .of_writes fun v w hw => ⟨.write, ?_, rfl⟩
  unfold Kernel.copy at hw
  cases hsource : v.bytes 0 <;> rw [hsource] at hw <;> cases hw
  case ok.head => rfl
  case ok.tail hw => cases hw

theorem copySteps_regular : ∀ step ∈ Schedule.copySteps, step.Regular Schedule.copyPlatform.registry ∧
    step.Arrays .short 6 Schedule.copyPlatform.registry.bytes := by
  have hmaster : Schedule.master.Whole Schedule.copyPlatform.registry := ⟨rfl, fun e he => by cases he; decide⟩
  have hduplicate : Schedule.duplicate.Whole Schedule.copyPlatform.registry := ⟨rfl, fun e he => by cases he; decide⟩
  have harrays : ∀ step ∈ Schedule.copySteps, ∀ o ∈ step.objects,
      o.kind = .array .short ∧ (Schedule.copyPlatform.registry.bytes o.handle).length = 6 := by decide
  have hcopying : ∀ a ∈ Schedule.copying.arguments, a.object.Whole Schedule.copyPlatform.registry :=
    List.forall_mem_cons.mpr ⟨hmaster, List.forall_mem_singleton.mpr hduplicate⟩
  have hregular : ∀ step ∈ Schedule.copySteps, step.Regular Schedule.copyPlatform.registry :=
    List.forall_mem_cons.mpr ⟨Step.regular_streamIn hmaster, List.forall_mem_cons.mpr
      ⟨Step.regular_task hcopying (by decide), List.forall_mem_singleton.mpr (Step.regular_streamOut hduplicate)⟩⟩
  exact fun step hstep => ⟨hregular step hstep, harrays step hstep⟩

theorem copySteps_respectful :
    ∀ t, .task t ∈ Schedule.copySteps → t.Respectful (Schedule.copyPlatform.channel 0).device.kernels := by
  intro t ht kernel hkernel
  obtain rfl : t = Schedule.copying := by simpa [Schedule.copySteps] using ht
  cases hkernel
  exact respects_copy

theorem copySteps_returned :
    ∀ o ∈ [Schedule.duplicate, Schedule.master], Step.Returned o.handle Schedule.copySteps := by
  refine List.forall_mem_cons.mpr ⟨?_, List.forall_mem_singleton.mpr ?_⟩
  case refine_1 =>
    refine ⟨[.streamIn Schedule.master], .task Schedule.copying, [.streamOut Schedule.duplicate], rfl, ?_, ?_, ?_⟩
    case refine_1 => exact ⟨⟨Schedule.duplicate, .write⟩, List.mem_of_getElem? (i := 1) rfl, rfl, rfl⟩
    case refine_2 => exact List.forall_mem_singleton.mpr id
    case refine_3 => exact .inr ⟨Schedule.duplicate, List.mem_singleton_self _, rfl⟩
  case refine_2 =>
    have hspared : ¬(Step.task Schedule.copying).Fills Schedule.master.handle := by
      simp [Step.Fills, Schedule.copying, Schedule.master, Schedule.duplicate, Access.writes]
    exact ⟨[], .streamIn Schedule.master, [.task Schedule.copying, .streamOut Schedule.duplicate], rfl, rfl,
      List.forall_mem_cons.mpr ⟨hspared, List.forall_mem_singleton.mpr id⟩, .inl ⟨_, rfl⟩⟩

end Neighbourhood
end Offload
