import Offload.Proofs.Transfer

/-!
Launches: the kernel of a task works on the copies of the arguments, each of which has a buffer of its
own, and what the task writes counts as filled.
-/

namespace Offload

theorem Hosted.setChannel_setChannel (place : Nat) (s : Hosted Context) (c c' : Channel) :
    (s.setChannel place c).setChannel place c' = s.setChannel place c' := by
  simp [setChannel, Platform.setChannel]

theorem find?_of_findIdx? {α : Type} {xs : List α} {p : α → Bool} {place : Nat}
    (h : xs.findIdx? p = some place) : ∃ x, xs[place]? = some x ∧ xs.find? p = some x := by
  obtain ⟨hlt, hp, hbefore⟩ := List.findIdx?_eq_some_iff_getElem.mp h
  exact ⟨_, List.getElem?_eq_getElem hlt,
    List.find?_eq_some_iff_getElem.mpr ⟨hp, place, hlt, rfl, fun j hj => by simpa using hbefore j hj⟩⟩

theorem nodup_of_forall₂ {α β γ : Type} {R : α → β → Prop} {f : α → γ}
    {xs : List α} {ys : List β} (hall : List.Forall₂ R xs ys)
    (hR : ∀ x x' y, R x y → R x' y → f x = f x') (hnodup : (xs.map f).Nodup) : ys.Nodup := by
  induction hall with
  | nil => exact List.nodup_nil
  | @cons x y xs ys hxy hall ih =>
    have ⟨hx, hxs⟩ := List.nodup_cons.mp hnodup
    refine List.nodup_cons.mpr ⟨fun hy => hx ?_, ih hxs⟩
    obtain ⟨place, hplace, rfl⟩ := List.getElem_of_mem hy
    have hget := hall.get (hall.length_eq ▸ hplace) hplace
    rw [hR _ _ _ hxy hget]
    exact List.mem_map_of_mem (List.get_mem _ _)

namespace Channel

variable {p : Channel} {wait : List EventId} {kernel : Nat} {name : String} {code : Kernel}
  {ids : List BufferId} {geometry : Geometry} {memory : Memory}

theorem launch_ready (hready : p.queue.Ready wait)
    (hkernel : p.device.kernels[kernel]? = some (name, code)) {fault : Option CommandFault}
    (hrun : p.device.memory.run code ids geometry = (fault, memory)) :
    ∃ p', launch kernel ids geometry wait p = (.ok p.queue.nextEvent, p') ∧ p.Ran fault memory p' := by
  have hcall : Device.launch kernel ids geometry wait p.device =
      (.ok p.queue.nextEvent, p.device.record fault memory) := by
    unfold Device.launch
    rw [Action.bind_of_ok (Action.get_apply _)]
    simp only [hkernel]
    cases fault with
    | none =>
      rw [Action.bind_of_ok (Device.perform_ok (waitFault_eq_none_iff.mpr hready) (by rw [hrun]))]
      rfl
    | some fault =>
      rw [Action.bind_of_ok (Device.perform_failed (waitFault_eq_none_iff.mpr hready) (by rw [hrun]))]
      rfl
  refine ⟨_, by rw [launch, noting_apply, hcall], ?_⟩
  rfl

-- Waiting leaves the device as it is, and fails only for events that the device does not know.
theorem wait_ends (events : List EventId) (p : Channel) :
    (Channel.wait events).Ends p fun r p' => p'.device = p.device ∧
      (r = .ok ⟨⟩ ↔ ∀ e ∈ events, (p.queue.status? e).isSome) := by
  rw [Action.Ends, Channel.wait, noting_apply]
  unfold Device.wait
  rw [Action.bind_of_ok (Action.get_apply _)]
  cases hfind : events.find? fun e => (p.device.status? e).isNone with
  | none =>
    refine ⟨rfl, fun _ e he => ?_, fun _ => rfl⟩
    have hsome := List.find?_eq_none.mp hfind e he
    rw [Bool.not_eq_true, Option.isNone_eq_false_iff] at hsome
    exact hsome
  | some e =>
    refine ⟨rfl, (fun hok => by cases hok), fun hknown => ?_⟩
    have hnone : (p.device.status? e).isNone := by simpa using List.find?_some hfind
    have hsome : (p.device.status? e).isSome := hknown e (List.mem_of_find?_eq_some hfind)
    rw [Option.isNone_iff_eq_none] at hnone
    rw [hnone] at hsome
    cases hsome

-- Whoever asks for the event of a command that is over is told how it ended.
theorem resolve_known {e : EventId} {status : EventStatus} (h : p.queue.status? e = some status) :
    ∃ info p', resolve e p = (.ok info, p') ∧ info.status = status ∧ p'.device = p.device := by
  have hstatus : p.device.status? e = some status := h
  have hcall : Device.resolve e p.device =
      (.ok ⟨e, status, e.number, some e.number, some e.number⟩, p.device) := by
    unfold Device.resolve
    rw [Action.bind_of_ok (Action.get_apply _)]
    simp only [hstatus]
    rfl
  refine ⟨_, _, by rw [resolve, noting_apply, hcall], ?_, ?_⟩
  · rfl
  · rfl

end Channel

namespace Context

variable {c : Context}

-- Marking what a task writes changes nothing but the states of those objects.
theorem state?_markArgument (hd : c.Distinct) (offset : Nat) (a : Argument) (h : Handle) :
    (c.markArgument offset a).state? h = (c.state? h).map fun st =>
      if a.object.handle = h && a.access.writes then st.markWritten offset else st := by
  unfold markArgument
  cases hindex : c.objectIndex? a.object.handle with
  | none =>
    by_cases heq : a.object.handle = h
    case neg => simp [heq]
    case pos =>
      subst heq
      have hfind := List.findIdx?_eq_none_iff.mp hindex
      have hnone : c.state? a.object.handle = none := by
        rw [state?, List.find?_eq_none.mpr fun x hx => by simpa using hfind x hx]
        rfl
      simp [hnone]
  | some index =>
    obtain ⟨x, hx, hfind⟩ := find?_of_findIdx? hindex
    have hhandle : x.object.handle = a.object.handle := by simpa using List.find?_some hfind
    cases hwrites : a.access.writes with
    | false => simp
    | true =>
      simp only [if_true, hd.state?_modifyState hx, hhandle, Bool.and_true, decide_eq_true_eq]
      by_cases heq : a.object.handle = h
      case pos =>
        subst heq
        rw [← hhandle, hd.state?_eq hx]
        simp
      case neg => simp [heq, Ne.symm heq]

theorem markArgument_eq (offset : Nat) (c : Context) (a : Argument) :
    (c.markArgument offset a).objects = c.objects ∧
      c.markArgument offset a = { c with bindings := (c.markArgument offset a).bindings } := by
  unfold markArgument
  split
  case h_2 => exact ⟨rfl, rfl⟩
  case h_1 =>
    split
    case isTrue => exact ⟨objects_modifyState _ _ _, rfl⟩
    case isFalse => exact ⟨rfl, rfl⟩

theorem markWritten_eq (hd : c.Distinct) (t : Task) (offset : Nat) :
    (c.markWritten t offset).objects = c.objects ∧
      c.markWritten t offset = { c with bindings := (c.markWritten t offset).bindings } ∧
      ∀ h, (c.markWritten t offset).state? h = (c.state? h).map fun st =>
        if t.writesTo h then st.markWritten offset else st := by
  unfold markWritten Task.writesTo
  induction t.arguments generalizing c with
  | nil => exact ⟨rfl, rfl, by simp⟩
  | cons a arguments ih =>
    obtain ⟨hobjects, heq⟩ := markArgument_eq offset c a
    have hd' : (c.markArgument offset a).Distinct := by rwa [Distinct, hobjects]
    obtain ⟨hobjects', heq', hstate⟩ := ih hd'
    rw [List.foldl_cons]
    refine ⟨hobjects'.trans hobjects, ?_, fun h => ?_⟩
    case refine_1 => rw [heq', heq]
    case refine_2 =>
      rw [hstate, state?_markArgument hd, Option.map_map]
      congr 1
      funext st
      rw [List.any_cons, Function.comp_apply]
      cases arguments.any (fun a => a.object.handle = h && a.access.writes) <;>
        cases (a.object.handle = h && a.access.writes : Bool) <;> rfl

end Context

namespace Machine

open Context (Serves Granted Quiet)

variable {b : Bench} {s t : Hosted Context}

theorem argumentSize_eq (s : Hosted Context) (place : Nat) (o : HostObject) (threads : Nat) :
    argumentSize s.platform.registry o threads = (s.world place).argumentSize o threads := by
  unfold argumentSize World.argumentSize
  cases o.kind <;> rfl

-- The argument has a buffer, and its copy is as it is to be provided.
theorem argumentBuffer_serves (hi : Intact b s) {a : Argument}
    (ha : a.object.handle ∈ b.objects.map HostObject.handle) (threads : Nat) :
    Serves (argumentBuffer b.index threads a) s fun id t =>
      Intact b t ∧ t.part.buffer? a.object.handle = some id ∧
        (∀ other ≠ a.object.handle, t.part.state? other = s.part.state? other) ∧
        t.world b.place = (s.world b.place).provide threads a := by
  obtain ⟨index, x, hx, hhandle⟩ := Context.exists_of_mem_objects (hi.objects ▸ ha)
  have hst := hi.distinct.state?_eq hx
  have hensure (size : Nat) : Serves (Context.ensureBuffer b.index index size) s
      (Provided b a.object.handle size · s ·) := by
    rw [← hhandle]
    exact Context.ensureBuffer_serves hi hx size
  unfold argumentBuffer
  refine Action.Ends.bind_get ?_
  have hindex : s.part.objectIndex a.object.handle = .ok index := by
    rw [Context.objectIndex, ← hhandle, hi.distinct.objectIndex?_eq hx]
    rfl
  rw [hindex]
  refine Action.Ends.bind_of_ok (Action.lift_apply _ s) ?_
  rw [Context.binding_ok.mpr hx]
  refine Action.Ends.bind_of_ok (Action.lift_apply _ s) ?_
  rw [argumentSize_eq s b.place]
  rw [hhandle] at hst
  unfold World.provide
  cases hid : x.state.buffer with
  | none =>
    have hnone := Intact.copies_of_none (b := b) (s := s) (h := a.object.handle)
      (by simp [Context.buffer?, hst, hid])
    simp only [hnone]
    exact (hensure _).mono fun id t hp => ⟨hp.intact, hp.buffer, hp.others, by simpa using hp.world⟩
  | some id =>
    obtain ⟨bytes, hbytes, hlength, hcopy⟩ := hi.exists_copy hst hid
    simp only [hcopy, Option.isSome_some, true_and]
    cases hwrites : a.access.writes with
    | false =>
      refine Serves.of_eq rfl ⟨hi, by rw [Context.buffer?, hst]; exact hid, fun _ _ => rfl, ?_⟩
      simp
    | true =>
      exact (hensure _).mono fun id t hp => ⟨hp.intact, hp.buffer, hp.others, by simpa using hp.world⟩

-- Every argument has a buffer, since none takes away what another one was given.
theorem argumentBuffers_serves (hi : Intact b s) {arguments : List Argument} (threads : Nat)
    (hbound : ∀ a ∈ arguments, a.object.handle ∈ b.objects.map HostObject.handle)
    (hnodup : (arguments.map (·.object.handle)).Nodup) :
    Serves (arguments.mapM (argumentBuffer b.index threads)) s fun ids t =>
      Intact b t ∧ t.world b.place = arguments.foldl (World.provide threads) (s.world b.place) ∧
        List.Forall₂ (fun a id => t.part.buffer? a.object.handle = some id) arguments ids ∧
        ∀ h, h ∉ arguments.map (·.object.handle) → t.part.state? h = s.part.state? h := by
  induction arguments generalizing s with
  | nil => exact Serves.of_eq rfl ⟨hi, rfl, .nil, fun _ _ => rfl⟩
  | cons a arguments ih =>
    have ⟨ha, hnodup⟩ := List.nodup_cons.mp hnodup
    rw [List.mapM_cons]
    refine (argumentBuffer_serves hi (hbound a (by simp)) threads).bind_serves
      fun id t ⟨ht, hid, hothers, hworld⟩ => ?_
    refine (ih ht (fun a' ha' => hbound a' (by simp [ha'])) hnodup).bind_serves
      fun ids u ⟨hu, hworld', hids, hothers'⟩ => Serves.of_eq rfl ⟨hu, ?_, ?_, fun h hh => ?_⟩
    case refine_1 => rw [hworld', hworld, List.foldl_cons]
    case refine_2 =>
      refine .cons ?_ hids
      rw [Context.buffer?, hothers' _ ha]
      exact hid
    case refine_3 =>
      rw [List.map_cons, List.mem_cons, not_or] at hh
      rw [hothers' h hh.2, hothers h hh.1]

theorem kernel_intact (hi : Intact b s) {task : Nat} {t : Task} (htask : b.tasks[task]? = some t) :
    (Context.kernel b.index task).Ends s fun r u =>
      match b.kernels.findIdx? (·.1 == t.kernel) with
      | some kernel => r = .ok kernel ∧ Intact b u ∧ u.world b.place = s.world b.place
      | none => ∃ e, r = .error e := by
  unfold Context.kernel
  refine Action.Ends.bind_get ?_
  dsimp only
  cases hcached : s.part.kernels.lookup (b.index, task) with
  | some kernel =>
    obtain ⟨t', htask', hkernel⟩ := hi.found hcached
    cases htask.symm.trans htask'
    simp only [hkernel]
    exact ⟨rfl, hi, rfl⟩
  | none =>
    have hfound : s.part.task task = .ok t := by
      rw [Context.task, hi.tasks, htask]
      rfl
    simp only [hfound, Context.place_ok.mpr hi.devices]
    refine Action.Ends.bind_of_ok (Action.lift_apply _ s)
      (Action.Ends.bind_of_ok (Action.lift_apply _ s) ?_)
    refine Action.Ends.bind_of_ok (Context.onDevice_eq hi.devices _) ?_
    obtain ⟨hintact, hworld⟩ := hi.call (c := (Channel.lookup t.kernel (s.platform.channel b.place)).2)
      rfl rfl rfl
    have hlookup : (s.platform.channel b.place).device.lookup? t.kernel =
        b.kernels.findIdx? (·.1 == t.kernel) := congrArg (List.findIdx? _) hi.kernels
    rw [hlookup]
    cases hkernel : b.kernels.findIdx? (·.1 == t.kernel) with
    | none => exact ⟨_, rfl⟩
    | some kernel =>
      -- the kernel is kept for the next launch of the task
      refine ⟨rfl, { hintact with found := fun {task' kernel'} hfound => ?_ }, hworld⟩
      change ((((b.index, task), kernel) :: s.part.kernels).lookup (b.index, task')) = some kernel' at hfound
      by_cases heq : task' = task
      case pos =>
        subst heq
        rw [List.lookup_cons_self] at hfound
        cases hfound
        exact ⟨t, htask, hkernel⟩
      case neg =>
        have hne : ((b.index, task') == (b.index, task)) = false := by simpa using heq
        rw [List.lookup_cons, hne] at hfound
        exact hi.found hfound

end Machine

namespace Intact

variable {b : Bench} {s : Hosted Context} {ids : List BufferId} {arguments : List Argument}

-- The buffers of the arguments hold what the kernel is to see of them.
theorem holds_arguments (hi : Intact b s)
    (hids : List.Forall₂ (fun a id => s.part.buffer? a.object.handle = some id) arguments ids) :
    (s.device b.place).memory.Holds ids
      (arguments.map fun a => (s.world b.place).view a.object.handle) := by
  induction hids with
  | nil => exact .nil
  | @cons a id arguments ids hid _ ih =>
    obtain ⟨st, hst, hbuffer⟩ := Option.bind_eq_some_iff.mp hid
    obtain ⟨bytes, hbytes, _, hcopy⟩ := hi.exists_copy hst hbuffer
    refine .cons ?_ ih
    simp only [World.view, hcopy]
    exact hbytes

-- What the buffer of an object holds after a kernel, by the place of the object among the arguments.
theorem contents_overwritten (hi : Intact b s)
    (hids : List.Forall₂ (fun a id => s.part.buffer? a.object.handle = some id) arguments ids)
    {memory : Memory} {results : List Bytes} (hresults : memory.Holds ids results)
    (hlengths : results.map List.length =
      arguments.map fun a => ((s.world b.place).view a.object.handle).length)
    (hothers : ∀ other ∉ ids, memory.contents? other = (s.device b.place).memory.contents? other)
    {h : Handle} {id : BufferId} (hid : s.part.buffer? h = some id) :
    match arguments.findIdx? (·.object.handle = h) with
    | none => memory.contents? id = (s.device b.place).memory.contents? id
    | some place => memory.contents? id = some (results.getD place []) ∧
      (results.getD place []).length = ((s.world b.place).view h).length := by
  cases hplace : arguments.findIdx? (·.object.handle = h) with
  | none =>
    refine hothers id fun hmem => ?_
    obtain ⟨place, hlt, rfl⟩ := List.getElem_of_mem hmem
    have hlt' : place < arguments.length := hids.length_eq ▸ hlt
    have hsame : arguments[place].object.handle = h := hi.apart (hids.get hlt' hlt) hid
    have hnot := List.findIdx?_eq_none_iff.mp hplace _ (List.getElem_mem hlt')
    simp [hsame] at hnot
  | some place =>
    obtain ⟨hlt, hhandle, _⟩ := List.findIdx?_eq_some_iff_getElem.mp hplace
    have hlt' : place < ids.length := hids.length_eq ▸ hlt
    have hlt'' : place < results.length := hresults.length_eq ▸ hlt'
    have hown := hids.get hlt hlt'
    have hresult := hresults.get hlt' hlt''
    have hlength : results[place].length = ((s.world b.place).view arguments[place].object.handle).length := by
      have hget := congrArg (·[place]?) hlengths
      simpa [hlt, hlt''] using hget
    have hhandle : arguments[place].object.handle = h := by simpa using hhandle
    rw [List.get_eq_getElem, hhandle, hid, Option.some.injEq] at hown
    rw [hhandle] at hlength
    simp only [List.getD_eq_getElem?_getD, List.getElem?_eq_getElem hlt'', Option.getD_some]
    refine ⟨?_, hlength⟩
    rw [hown]
    exact hresult

-- What a kernel leaves in the buffers of its arguments is in their copies.
theorem overwrite (hi : Intact b s)
    (hids : List.Forall₂ (fun a id => s.part.buffer? a.object.handle = some id) arguments ids)
    {memory : Memory} {results : List Bytes} (hresults : memory.Holds ids results)
    (hlengths : results.map List.length =
      arguments.map fun a => ((s.world b.place).view a.object.handle).length)
    (hothers : ∀ other ∉ ids, memory.contents? other = (s.device b.place).memory.contents? other)
    (hsound : (s.device b.place).memory.Sound → memory.Sound) {c : Channel}
    (hran : (s.platform.channel b.place).Ran none memory c) :
    Intact b (s.setChannel b.place c) ∧
      (s.setChannel b.place c).world b.place = { s.world b.place with
        copies := fun h =>
          match arguments.findIdx? (·.object.handle = h) with
          | none => (s.world b.place).copies h
          | some place => ((s.world b.place).copies h).map fun copy =>
            { copy with bytes := results.getD place [] } } := by
  have hdevice : (s.setChannel b.place c).device b.place = (s.device b.place).record none memory := by
    rw [Hosted.device_setChannel hi.attached]
    exact hran
  rw [Device.record_eq] at hdevice
  have hmemory : ((s.setChannel b.place c).device b.place).memory = memory := by rw [hdevice]
  have hcontents {h : Handle} {st : ObjectState} {id : BufferId} (hst : s.part.state? h = some st)
      (hid : st.buffer = some id) := hi.contents_overwritten hids hresults hlengths hothers
    (show s.part.buffer? h = some id by rw [Context.buffer?, hst]; exact hid)
  have hcall : c.device = (s.device b.place).record none memory := hran
  rw [Device.record_eq] at hcall
  refine ⟨hi.of_frame (Frame.setChannel hi.attached ?_ ?_ ?_) ?_ hi.apart, World.ext rfl (funext fun h => ?_)⟩
  case refine_1 => rw [hcall]
  case refine_2 => rw [hcall]
  case refine_3 => rwa [hcall]
  case refine_4 =>
    intro h st id hst hid
    rw [hmemory]
    obtain ⟨bytes, hbytes, hlength, hcopy⟩ := hi.exists_copy hst hid
    have hkept := hcontents hst hid
    split at hkept
    case h_1 => exact ⟨bytes, hkept.trans hbytes, hlength⟩
    case h_2 place _ =>
      refine ⟨_, hkept.1, ?_⟩
      rw [hkept.2, World.view, hcopy, hlength]
  case refine_5 =>
    have hpart : (s.setChannel b.place c).part = s.part := rfl
    simp only [Hosted.world, hmemory, hpart]
    cases hst : s.part.state? h with
    | none => split <;> simp
    | some st =>
      cases hid : st.buffer with
      | none => split <;> simp [ObjectState.copy?, hid]
      | some id =>
        have hkept := hcontents hst hid
        obtain ⟨bytes, hbytes, _⟩ := hi.sized hst hid
        split at hkept
        case h_1 => simp [ObjectState.copy?, hid, hkept, hbytes]
        case h_2 place _ => simp [ObjectState.copy?, hid, hkept.1, hbytes]

-- What a task writes counts as filled.
theorem mark (hi : Intact b s) (t : Task) (offset : Nat) :
    Intact b { s with part := s.part.markWritten t offset } ∧
      ({ s with part := s.part.markWritten t offset } : Hosted Context).world b.place =
        { s.world b.place with
          copies := fun h => ((s.world b.place).copies h).map fun copy =>
            { copy with filled := t.writesTo h || copy.filled } } := by
  have ⟨hobjects, heq, hstate⟩ := Context.markWritten_eq hi.distinct t offset
  have hbuffer (h : Handle) : (s.part.markWritten t offset).buffer? h = s.part.buffer? h := by
    rw [Context.buffer?, hstate, Context.buffer?]
    cases s.part.state? h with
    | none => rfl
    | some st =>
      simp only [Option.map_some, Option.bind_some]
      split <;> rfl
  refine ⟨hi.of_frame ?_ ?_ ?_, World.ext rfl (funext fun h => ?_)⟩
  case refine_1 =>
    rw [heq]
    exact { Frame.refl s with objects := by rw [← hobjects, heq] }
  case refine_2 =>
    intro h st id hst hid
    rw [hstate, Option.map_eq_some_iff] at hst
    obtain ⟨st', hst', rfl⟩ := hst
    obtain ⟨bytes, hbytes, hlength⟩ := hi.sized hst' (by split at hid <;> exact hid)
    refine ⟨bytes, hbytes, ?_⟩
    split <;> exact hlength
  case refine_3 =>
    intro h h' id hid hid'
    exact hi.apart ((hbuffer h).symm.trans hid) ((hbuffer h').symm.trans hid')
  case refine_4 =>
    simp only [Hosted.world, hstate]
    cases hst : s.part.state? h with
    | none => rfl
    | some st =>
      cases hid : st.buffer with
      | none =>
        have hid' : (if t.writesTo h then st.markWritten offset else st).buffer = none := by
          split <;> exact hid
        simp [ObjectState.copy?, hid, hid']
      | some id =>
        obtain ⟨bytes, hbytes, _⟩ := hi.sized hst hid
        have hbytes' : ({ s with part := s.part.markWritten t offset } : Hosted Context).device b.place =
            s.device b.place := rfl
        rw [Option.map_some, Option.bind_some, Option.bind_some, hbytes',
          ObjectState.copy?_of_some hid hbytes]
        split
        case isTrue hwrites =>
          rw [ObjectState.copy?_of_some (show (st.markWritten offset).buffer = some _ from hid) hbytes]
          simp [hwrites, ObjectState.markWritten]
        case isFalse hwrites =>
          rw [ObjectState.copy?_of_some hid hbytes]
          simp [hwrites]

end Intact

-- A kernel that was run leaves in the copies of its arguments what the direct run says.
theorem Intact.leave {b : Bench} {s : Hosted Context} (hi : Intact b s) {t : Task} {ids : List BufferId}
    (hids : List.Forall₂ (fun a id => s.part.buffer? a.object.handle = some id) t.arguments ids)
    (hnodup : (t.arguments.map (·.object.handle)).Nodup) (kernel : Kernel) (geometry : Geometry)
    {contents results : List Bytes} {fault : Option KernelFault}
    (hcontents : contents = t.arguments.map fun a => (s.world b.place).view a.object.handle)
    (hrun : (kernel { geometry, arguments := contents }).run contents = (results, fault)) :
    ∃ memory, (s.device b.place).memory.run kernel ids geometry = (fault.map .kernel, memory) ∧
      (fault = none → ∀ c, (s.platform.channel b.place).Ran none memory c →
        Intact b (s.setChannel b.place c) ∧ ∀ offset,
          Intact b { s.setChannel b.place c with part := s.part.markWritten t offset } ∧
          ({ s.setChannel b.place c with part := s.part.markWritten t offset } : Hosted Context).world
            b.place = (s.world b.place).leave t results) := by
  have hholds := hi.holds_arguments hids
  rw [← hcontents] at hholds
  have hdistinct : ids.Nodup := nodup_of_forall₂ hids (fun _ _ _ h h' => hi.apart h h') hnodup
  obtain ⟨memory, hmemory, hresults, hothers, hsound⟩ :=
    Memory.run_of_holds hholds hdistinct kernel geometry hrun
  refine ⟨memory, hmemory, fun _ c hran => ?_⟩
  have hlengths := Script.run_lengths (kernel { geometry, arguments := contents }) contents
  rw [hrun, hcontents, List.map_map] at hlengths
  have ⟨hintact, hworld⟩ := hi.overwrite hids hresults hlengths hothers hsound hran
  refine ⟨hintact, fun offset => ?_⟩
  have ⟨hmarked, hworld'⟩ := hintact.mark t offset
  refine ⟨hmarked, hworld'.trans ?_⟩
  rw [hworld]
  refine World.ext rfl (funext fun h => ?_)
  simp only [World.leave]
  cases hplace : t.arguments.findIdx? (·.object.handle = h) with
  | some place =>
    obtain ⟨hlt, hhandle, _⟩ := List.findIdx?_eq_some_iff_getElem.mp hplace
    have hid := hids.get hlt (hids.length_eq ▸ hlt)
    have hhandle : t.arguments[place].object.handle = h := by simpa using hhandle
    rw [List.get_eq_getElem, hhandle] at hid
    obtain ⟨st, hst, hbuffer⟩ := Option.bind_eq_some_iff.mp hid
    obtain ⟨bytes, _, _, hcopy⟩ := hi.exists_copy hst hbuffer
    simp [hcopy]
  | none =>
    -- a task writes nothing but its arguments
    have hnot : t.writesTo h = false := by
      have hnone := List.findIdx?_eq_none_iff.mp hplace
      refine List.any_eq_false.mpr fun a ha => ?_
      simp [hnone a ha]
    simp [hnot]

namespace Machine

open Context (Serves Granted)

variable {b : Bench} {m : Machine} {s : Hosted Context} {p : Pass} {task : Nat} {t : Task}
  {wait : List EventId}

theorem follows_of_error {w : Except Stop World} {u : Hosted Context} {e : Error} (hw : w = .error .failed) :
    Follows b w s (.error e) u := by
  subst hw
  exact nofun

theorem checkLaunch_eq (hdevice : s.part.devices[b.index]? = some b.place)
    (hplace : b.place < s.platform.channels.length) (t : Task) {e : EventId} {fault : Option CommandFault}
    (h : (s.queue b.place).status? e = some (Device.outcome fault)) :
    (checkLaunch b.index t e).Ends s fun r u =>
      match fault with
      | none => r = .ok ⟨⟩ ∧ ∃ c : Channel, c.device = s.device b.place ∧ u = s.setChannel b.place c
      | some _ => ∃ e, r = .error e := by
  unfold checkLaunch
  rcases hwait : Channel.wait [e] (s.platform.channel b.place) with ⟨result, c⟩
  obtain ⟨hc, hknown⟩ := (Channel.wait_ends [e] (s.platform.channel b.place)).of_eq hwait
  cases hknown.mpr fun e' he => by
    rw [List.mem_singleton.mp he]
    exact Option.isSome_iff_exists.mpr ⟨_, h⟩
  have hcall := Context.onDevice_eq hdevice (Channel.wait [e])
  rw [hwait] at hcall
  refine Action.Ends.bind_of_ok hcall ?_
  have hqueue : (s.setChannel b.place c).platform.channel b.place = c :=
    Platform.channel_setChannel hplace c
  have hknown : c.queue.status? e = some (Device.outcome fault) := by
    rw [Channel.queue, hc]
    exact h
  obtain ⟨info, c', hresolve, hstatus, hc'⟩ := Channel.resolve_known hknown
  have hcall' := Context.onDevice_eq (s := s.setChannel b.place c) hdevice (Channel.resolve e)
  rw [hqueue, hresolve] at hcall'
  refine Action.Ends.bind_of_ok hcall' ?_
  rw [hstatus]
  cases fault with
  | some fault => exact ⟨_, rfl⟩
  | none =>
    refine ⟨rfl, c', hc'.trans hc, ?_⟩
    exact Hosted.setChannel_setChannel b.place s c c'

-- The launch itself, once the arguments have their buffers.
def launchBuffers (m : Machine) (t : Task) (kernel device offset : Nat) (buffers : List BufferId)
    (geometry : Geometry) (wait : List EventId) : Context.On EventId := do
  let event ← Context.onDevice device (Channel.launch kernel buffers geometry wait)
  m.count Counters.countLaunch
  if t.exceptions then checkLaunch device t event
  Context.modifyContext (·.markWritten t offset)
  return event

theorem launchBuffers_follows (hi : Intact b s) {ids : List BufferId}
    (hids : List.Forall₂ (fun a id => s.part.buffer? a.object.handle = some id) t.arguments ids)
    (hnodup : (t.arguments.map (·.object.handle)).Nodup) (hready : (s.queue b.place).Ready wait)
    {kernel : Nat} {name : String} {code : Kernel} (hkernel : b.kernels[kernel]? = some (name, code))
    {geometry : Geometry} {contents results : List Bytes} {fault : Option KernelFault}
    (hcontents : contents = t.arguments.map fun a => (s.world b.place).view a.object.handle)
    (hrun : (code { geometry, arguments := contents }).run contents = (results, fault)) (offset : Nat) :
    (launchBuffers m t kernel b.index offset ids geometry wait).Ends s fun result v =>
      match fault with
      | none => Intact b v ∧ v.world b.place = (s.world b.place).leave t results ∧
        ∃ e, result = .ok e ∧ (v.queue b.place).status? e = some .complete
      | some _ => ∀ e, result = .ok e →
        ∃ fault, (v.queue b.place).status? e = some (.failed fault) := by
  obtain ⟨memory, hmemory, hleave⟩ := hi.leave hids hnodup code geometry hcontents hrun
  have hinstalled : (s.platform.channel b.place).device.kernels[kernel]? = some (name, code) := by
    rw [show (s.platform.channel b.place).device.kernels = b.kernels from hi.kernels]
    exact hkernel
  obtain ⟨c, hlaunch, hran⟩ := Channel.launch_ready hready hinstalled hmemory
  have hcall := Context.onDevice_eq hi.devices (Channel.launch kernel ids geometry wait)
  rw [hlaunch] at hcall
  unfold launchBuffers
  refine Action.Ends.bind_of_ok hcall ?_
  obtain ⟨counters, hcount⟩ := count_apply m Counters.countLaunch (s.setChannel b.place c)
  refine Action.Ends.bind_of_ok hcount ?_
  have hchannel : (s.setChannel b.place c).platform.channel b.place = c :=
    Platform.channel_setChannel hi.attached c
  have hstatus : ((s.setChannel b.place c).queue b.place).status? (s.queue b.place).nextEvent =
      some (Device.outcome (fault.map .kernel)) := by
    rw [Hosted.queue, hchannel]
    exact hran.status?_eq
  obtain ⟨u, hu⟩ : ∃ u : Hosted Context, u = { s.setChannel b.place c with
    platform := { (s.setChannel b.place c).platform with counters } } := ⟨_, rfl⟩
  rw [← hu]
  have hstatus' : (u.queue b.place).status? (s.queue b.place).nextEvent =
      some (Device.outcome (fault.map .kernel)) := by
    rw [hu]
    exact hstatus
  cases hexceptions : t.exceptions with
  | false =>
    refine Action.Ends.bind_modify ?_
    cases fault with
    | some fault =>
      intro e he
      cases he
      exact ⟨_, hstatus'⟩
    | none =>
      obtain ⟨hintact, hworld⟩ := (hleave rfl c hran).2 offset
      refine ⟨?_, ?_, _, rfl, hstatus'⟩
      case refine_1 =>
        rw [hu]
        exact hintact.counters counters
      case refine_2 =>
        rw [hu]
        exact hworld
  | true =>
    have hdevices : u.part.devices[b.index]? = some b.place := by
      rw [hu]
      exact hi.devices
    have hattached : b.place < u.platform.channels.length := by
      rw [hu]
      exact Nat.lt_of_lt_of_eq hi.attached (Platform.length_setChannel _ _).symm
    refine (checkLaunch_eq hdevices hattached t hstatus').bind (fun _ v h => ?_) fun e v h => ?_
    case refine_1 =>
      cases fault with
      | some fault =>
        obtain ⟨_, h⟩ := h
        cases h
      | none =>
        obtain ⟨_, c', hc', rfl⟩ := h
        obtain ⟨hintact, hworld⟩ := (hleave rfl c hran).2 offset
        refine Action.Ends.bind_modify ?_
        obtain ⟨hcalled, hworld'⟩ := (hintact.counters counters).call (c := c')
          (by rw [hc', hu]; rfl) (by rw [hc', hu]; rfl) (by rw [hc', hu]; rfl)
        rw [hu]
        refine ⟨hcalled, hworld'.trans hworld, _, rfl, ?_⟩
        rw [hu] at hattached hstatus' hc'
        have hchannel' := Platform.channel_setChannel hattached c'
        refine (congrArg (fun c : Channel => c.queue.status? (s.queue b.place).nextEvent) hchannel').trans ?_
        rw [Channel.queue, hc']
        exact hstatus'
    case refine_2 =>
      cases fault with
      | some fault =>
        intro e' he
        cases he
      | none => cases h.1

-- A task takes its buffers before it runs, and leaves its results in them.
theorem windowStep_task (u : Setup) (p : Pass) (w : World) (t : Task) :
    w.windowStep u p (.task t) =
      match u.run t p.threads
        (t.arguments.map fun a => (t.arguments.foldl (World.provide p.threads) w).view a.object.handle) with
      | some results => .ok ((t.arguments.foldl (World.provide p.threads) w).leave t results)
      | none => .error .failed := rfl

-- With its kernel found, a task runs if it can be laid out.
theorem run_setup {name : String} {code : Kernel} (hfind : b.kernels.find? (·.1 == t.kernel) = some (name, code))
    (tuning : Tuning) (threads : Nat) (contents : List Bytes) : (b.setup tuning).run t threads contents =
      match Geometry.launch t.domain threads b.limits tuning with
      | .ok geometry =>
        match (code { geometry, arguments := contents }).run contents with
        | (results, none) => some results
        | (_, some _) => none
      | .error _ => none := by
  simp only [Setup.run, Bench.setup, hfind]
  cases Geometry.launch t.domain threads b.limits tuning <;> rfl

theorem launch_follows (hi : Intact b s) (htask : b.tasks[task]? = some t)
    (hbound : ∀ a ∈ t.arguments, a.object.handle ∈ b.objects.map HostObject.handle)
    (hnodup : (t.arguments.map (·.object.handle)).Nodup) (hready : (s.queue b.place).Ready wait) :
    (m.launch task b.index p.offset p.threads wait).Ends s fun result v => Granted result →
      Follows b ((s.world b.place).windowStep (b.setup m.config.tuning) p (.task t)) s
        (result.map some) v := by
  unfold launch
  obtain ⟨w, hw⟩ : ∃ w, w = t.arguments.foldl (World.provide p.threads) (s.world b.place) := ⟨_, rfl⟩
  rw [windowStep_task, ← hw]
  have hkeeps : (Context.kernel b.index task).Keeps (Context.Quiet b.place) :=
    Context.quiet_kernel b.index task
  refine ((kernel_intact hi htask).and_keeps hkeeps).bind (fun kernel u hlooked => ?_) fun e u hlooked _ => ?_
  case refine_2 =>
    have hfound := hlooked.1
    split at hfound
    case h_1 => cases hfound.1
    case h_2 hnone =>
      have hfind : b.kernels.find? (·.1 == t.kernel) = none := by
        refine List.find?_eq_none.mpr fun x hx => ?_
        simpa using List.findIdx?_eq_none_iff.mp hnone x hx
      exact follows_of_error (by simp only [Setup.run, Bench.setup, hfind])
  case refine_1 =>
    obtain ⟨hfound, hquiet⟩ := hlooked
    split at hfound
    case h_2 =>
      obtain ⟨_, h⟩ := hfound
      cases h
    case h_1 place hplace =>
      obtain ⟨heq, hu, hworld⟩ := hfound
      cases heq
      obtain ⟨⟨name, code⟩, hentry, hfind⟩ := find?_of_findIdx? hplace
      have hplace' : u.part.place b.index = .ok b.place := Context.place_ok.mpr hu.devices
      have htask' : u.part.task task = .ok t := by
        rw [Context.task, hu.tasks, htask]
        rfl
      refine Action.Ends.bind_get ?_
      rw [hplace']
      refine Action.Ends.bind_of_ok (Action.lift_apply _ u) (Action.Ends.bind_get ?_)
      rw [htask']
      refine Action.Ends.bind_of_ok (Action.lift_apply _ u) ?_
      have hserves := argumentBuffers_serves hu p.threads hbound hnodup
      refine (hserves.and_keeps (Action.Keeps.mapM (Context.quiet_lasting b.place)
        (Machine.quiet_argumentBuffer b.index p.threads) t.arguments)).bind
        fun ids v hserved => Action.Ends.bind_get ?_
      obtain ⟨⟨hv, hworld', hids, _⟩, hquiet'⟩ := hserved
      have hlimits : (v.platform.channel b.place).device.limits = b.limits := hv.limits
      rw [hlimits, run_setup hfind]
      rw [hworld, ← hw] at hworld'
      generalize hcontents : (t.arguments.map fun a => w.view a.object.handle) = contents
      cases hgeometry : Geometry.launch t.domain p.threads b.limits m.config.tuning with
      | error e =>
        exact Action.Ends.bind_of_error (by rw [Action.lift_apply, hgeometry]) fun _ => follows_of_error rfl
      | ok geometry =>
        refine Action.Ends.bind_of_ok (by rw [Action.lift_apply, hgeometry]) ?_
        rcases hrun : (code { geometry, arguments := contents }).run contents with ⟨results, fault⟩
        have hready' : (v.queue b.place).Ready wait := by
          rw [hquiet'.queue_eq, hquiet.queue_eq]
          exact hready
        have hfollows := launchBuffers_follows (m := m) hv hids hnodup hready' hentry
          (hcontents.symm.trans (by rw [hworld'])) hrun p.offset
        refine hfollows.mono fun result w h _ => ?_
        simp only [hrun]
        cases fault with
        | none =>
          obtain ⟨hw, hleft, e, rfl, hcomplete⟩ := h
          refine ⟨hw, hleft.trans (by rw [hworld']), _, rfl, fun e' he' => ?_⟩
          cases he'
          exact hcomplete
        | some fault =>
          intro event hevent
          cases result with
          | error e => cases hevent
          | ok e =>
            cases hevent
            exact ⟨e, rfl, h e rfl⟩

end Machine
end Offload
