import Offload.Proofs.Yard

/-!
What launches leave on the device. The buffer of an object takes what the kernel left in the first of the
arguments that name the object; what it left in later ones is lost.
-/

namespace Offload

namespace Memory

variable {m m' : Memory} {ids : List BufferId} {contents results : List Bytes} {id : BufferId} {place : Nat}

theorem holds_of_gather (h : m.gather ids = .ok contents) : m.Holds ids contents := by
  unfold gather at h
  split at h
  case h_1 => cases h
  case h_2 hnone =>
    cases h
    rw [List.findIdx?_eq_none_iff] at hnone
    refine List.forall₂_map_right_iff.mpr (List.forall₂_same.mpr fun id hid => ?_)
    obtain ⟨b, hb⟩ := Option.isSome_iff_exists.mp (Option.isNone_eq_false_iff.mp (hnone id hid))
    rw [contents?, hb]
    rfl

-- Of all the arguments that name a buffer, the first one decides.
theorem contents?_scatter (h : m.Holds ids contents) (hlength : results.length = contents.length)
    (hfirst : ids.idxOf? id = some place) :
    ∃ bytes, results[place]? = some bytes ∧ (m.scatter ids results).contents? id = some bytes := by
  obtain ⟨hlt, hid, _⟩ := List.idxOf?_eq_some_iff.mp hfirst
  have hget := h.get hlt (h.length_eq ▸ hlt)
  rw [List.get_eq_getElem, hid, contents?, Option.map_eq_some_iff] at hget
  obtain ⟨b, hb, _⟩ := hget
  have hlt' : place < results.length := hlength ▸ h.length_eq ▸ hlt
  refine ⟨results[place], List.getElem?_eq_getElem hlt', ?_⟩
  rw [scatter, contents?_mapBytes, hb, Option.map_some, id_of_buffer? hb, hfirst]
  simp [hlt']

-- A kernel that ends well found all buffers, and left every argument as long as it was.
theorem run_ok {kernel : Kernel} {geometry : Geometry} (h : m.run kernel ids geometry = (none, m')) :
    ∃ contents results, m.Holds ids contents ∧
      (kernel { geometry, arguments := contents }).run contents = (results, none) ∧
        results.length = contents.length ∧ m' = m.scatter ids results := by
  unfold run at h
  split at h
  case h_1 => cases h
  case h_2 contents hgather =>
    rcases hrun : (kernel { geometry, arguments := contents }).run contents with ⟨results, fault⟩
    rw [hrun] at h
    cases fault with
    | some => cases h
    | none =>
      have hlengths := Script.run_lengths (kernel { geometry, arguments := contents }) contents
      rw [hrun] at hlengths
      cases h
      exact ⟨contents, results, holds_of_gather hgather, hrun,
        by simpa using congrArg List.length hlengths, rfl⟩

end Memory

namespace Device

variable {d d' : Device} {kernel : Nat} {ids : List BufferId} {geometry : Geometry} {wait : List EventId}
  {e : EventId}

-- What was on record is so for good, as long as later events have later numbers.
theorem Onward.status?_eq_of_lt (h : Onward d d') (hlt : e.number < d.nextEvent) :
    d'.status? e = d.status? e := by
  obtain ⟨_, new, hnew, hnumbers⟩ := h
  have hnone : new.lookup e = none := by
    rw [List.lookup_eq_none_iff]
    intro x hx
    refine bne_iff_ne.mpr fun heq => ?_
    have hle := (hnumbers x hx).1
    rw [← heq] at hle
    omega
  rw [status?, hnew, List.lookup_append, hnone, Option.none_or]
  rfl

-- The event of a launch is complete only if its kernel was run, and ended well.
theorem launch_complete (h : launch kernel ids geometry wait d = (.ok e, d')) : e.number < d'.nextEvent ∧
    (d'.status? e = some .complete → ∃ name code, d.kernels[kernel]? = some (name, code) ∧
      d.memory.run code ids geometry = (none, d'.memory)) := by
  unfold launch at h
  rw [Action.bind_of_ok (Action.get_apply d)] at h
  cases hkernel : d.kernels[kernel]? with
  | none =>
    simp only [hkernel] at h
    cases h
  | some installed =>
    obtain ⟨name, code⟩ := installed
    simp only [hkernel] at h
    obtain ⟨_, _, hperform, h⟩ := Action.bind_ok.mp h
    cases h
    have hfailed (fault : CommandFault) (memory : Memory) :
        (d.record (some fault) memory).status? ⟨d.nextEvent⟩ ≠ some .complete := by
      simp [record_eq, status?, outcome]
    cases hwait : d.waitFault ⟨d.nextEvent⟩ wait with
    | some fault =>
      rw [perform_blocked hwait] at hperform
      cases hperform
      exact ⟨Nat.lt_succ_self _, fun hcomplete => absurd hcomplete (hfailed fault _)⟩
    | none =>
      rcases hrun : d.memory.run code ids geometry with ⟨fault, memory⟩
      cases fault with
      | some fault =>
        rw [perform_failed hwait (by rw [hrun])] at hperform
        cases hperform
        exact ⟨Nat.lt_succ_self _, fun hcomplete => absurd hcomplete (hfailed fault _)⟩
      | none =>
        rw [perform_ok hwait (by rw [hrun])] at hperform
        cases hperform
        exact ⟨Nat.lt_succ_self _, fun _ => ⟨name, code, rfl, hrun⟩⟩

end Device

-- The bytes that the buffer of an object holds, if it has one.
def Hosted.bytes? (place : Nat) (s : Hosted Context) (h : Handle) : Option Bytes :=
  ((s.world place).copies h).map Copy.bytes

-- A launch as the device took it: the kernel, the shape and the buffers it was called with, what the kernel
-- found in them, and what it left.
structure Landing where
  kernel : Nat
  code : Kernel
  ids : List BufferId
  geometry : Geometry
  contents : List Bytes
  results : List Bytes

-- The launch of a task, called in state `s` and over in state `t`.
structure Landing.Of (l : Landing) (task : Task) (place : Nat) (wait : List EventId) (event : EventId)
    (s t : Hosted Context) : Prop where
  called    : ∃ calls, (t.platform.channel place).journal =
    (s.platform.channel place).journal ++ .launch l.kernel l.ids l.geometry wait (.ok event) :: calls
  installed : ∃ name, (s.device place).kernels[l.kernel]? = some (name, l.code)
  found     : List.Forall₂ (fun a bytes => s.bytes? place a.object.handle = some bytes) task.arguments
    l.contents
  left      : (l.code { geometry := l.geometry, arguments := l.contents }).run l.contents = (l.results, none)

-- Each object holds what was left in the first argument that names it.
def Task.Lands (task : Task) (place : Nat) (results : List Bytes) (t : Hosted Context) : Prop :=
  ∀ before a after, task.arguments = before ++ a :: after →
    (∀ x ∈ before, x.object.handle ≠ a.object.handle) →
      ∃ bytes, results[before.length]? = some bytes ∧ t.bytes? place a.object.handle = some bytes

namespace Context

variable {P : Prop} {rest : Nat → List (BufferId × Nat)} {s t u v : Hosted Context} {h h' : Handle}
  {id : BufferId} {place : Nat} {arguments : List Argument} {ids : List BufferId}

theorem bytes?_eq (hid : s.part.buffer? h = some id) :
    s.bytes? place h = (s.device place).memory.contents? id := by
  obtain ⟨st, hst, hbuffer⟩ := Option.bind_eq_some_iff.mp hid
  change ((s.part.state? h).bind (·.copy? (s.device place).memory)).map Copy.bytes = _
  rw [hst, Option.bind_some, ObjectState.copy?, hbuffer]
  cases hcontents : (s.device place).memory.contents? id <;> simp [hcontents]

theorem buffer?_eq_some {c : Context} :
    c.buffer? h = some id ↔ ∃ index b, c.Places h index b ∧ b.state.buffer = some id := by
  constructor
  case mp =>
    intro hid
    obtain ⟨st, hst, hbuffer⟩ := Option.bind_eq_some_iff.mp hid
    obtain ⟨b, hb, rfl⟩ := Option.map_eq_some_iff.mp hst
    obtain ⟨hhandle, index, hlt, hget, hbefore⟩ := List.find?_eq_some_iff_getElem.mp hb
    refine ⟨index, b, ⟨List.findIdx?_eq_some_iff_getElem.mpr ⟨hlt, hget ▸ hhandle, fun j hj => ?_⟩, ?_⟩,
      hbuffer⟩
    case refine_1 => simpa using hbefore j hj
    case refine_2 => rw [← hget, List.getElem?_eq_getElem hlt]
  case mpr =>
    rintro ⟨index, b, hplaces, hbuffer⟩
    rw [buffer?, hplaces.state?_eq, Option.bind_some, hbuffer]

-- To count results as written changes no buffer.
theorem buffer?_markWritten {c : Context} (hid : c.buffer? h = some id) (t : Task) (offset : Nat) :
    (c.markWritten t offset).buffer? h = some id := by
  obtain ⟨index, b, ⟨hindex, hb⟩, hbuffer⟩ := buffer?_eq_some.mp hid
  obtain ⟨b', hb', hbuffer'⟩ : ∃ b', (c.markWritten t offset).bindings[index]? = some b' ∧
      b'.state.buffer = some id :=
    exists_markArguments (Q := (·.buffer = some id)) (fun _ hst => hst) ⟨b, hb, hbuffer⟩ t.arguments
  refine buffer?_eq_some.mpr ⟨index, b', ⟨?_, hb'⟩, hbuffer'⟩
  rw [markWritten, objectIndex?_eq, objects_markArguments, ← objectIndex?_eq]
  exact hindex

-- No buffer is on record for two objects.
theorem Books.apart (hbooks : Books rest s) (hid : s.part.buffer? h = some id)
    (hid' : s.part.buffer? h' = some id) : h = h' := by
  obtain ⟨st, hst, hbuffer⟩ := Option.bind_eq_some_iff.mp hid
  obtain ⟨st', hst', hbuffer'⟩ := Option.bind_eq_some_iff.mp hid'
  obtain ⟨index, b, hb, rfl, rfl⟩ := exists_binding hst
  obtain ⟨index', b', hb', rfl, rfl⟩ := exists_binding hst'
  cases hbooks.index_eq hb hb' hbuffer hbuffer'
  cases hb.symm.trans hb'
  rfl

-- If all buffers that were collected are there, then none of them made room for another one.
theorem Collected.buffers {c : Context} {m : Memory} {contents : List Bytes}
    (h : c.Collected m arguments ids) (hholds : m.Holds ids contents) :
    List.Forall₂ (fun a id => c.buffer? a.object.handle = some id) arguments ids := by
  induction h generalizing contents with
  | nil => exact .nil
  | cons hhead _ ih =>
    cases hholds with
    | cons hid hholds =>
      refine .cons ?_ (ih hholds)
      rcases hhead with ⟨index, b, hplaces, hbuffer⟩ | ⟨_, hgone⟩
      case inl => exact buffer?_eq_some.mpr ⟨index, b, hplaces, hbuffer⟩
      case inr =>
        rw [Memory.contents?, hgone.2] at hid
        cases hid

-- The first argument that names an object is the first one that has its buffer.
theorem idxOf?_of_first (hbooks : Books rest s)
    (h : List.Forall₂ (fun a id => s.part.buffer? a.object.handle = some id) arguments ids)
    {before : List Argument} {a : Argument} {after : List Argument} (hsplit : arguments = before ++ a :: after)
    (hfirst : ∀ x ∈ before, x.object.handle ≠ a.object.handle) :
    ∃ id, s.part.buffer? a.object.handle = some id ∧ ids.idxOf? id = some before.length := by
  subst hsplit
  have hlength := h.length_eq
  have hlt : before.length < (before ++ a :: after).length := by simp
  have hlt' : before.length < ids.length := hlength ▸ hlt
  have hid := h.get hlt hlt'
  simp only [List.get_eq_getElem, List.getElem_append_right (Nat.le_refl _), Nat.sub_self,
    List.getElem_cons_zero] at hid
  refine ⟨ids[before.length], hid, List.idxOf?_eq_some_iff.mpr ⟨hlt', rfl, fun j hj heq => ?_⟩⟩
  have hother := h.get (Nat.lt_trans hj hlt) (Nat.lt_trans hj hlt')
  simp only [List.get_eq_getElem, List.getElem_append_left hj, heq] at hother
  exact hfirst _ (List.getElem_mem hj) (hbooks.apart hother hid)

end Context

namespace Machine

open Context

variable {P : Prop} {rest : Nat → List (BufferId × Nat)} {s t u s' : Hosted Context} {m : Machine} {r r' : Run}
  {is pre : List Instruction} {k task device offset threads place : Nat} {list : Option Nat}
  {wait : List EventId} {event : EventId}

-- The stages of a launch that does well.
theorem launch_ok (h : m.launch task device offset threads wait s = (.ok event, t)) :
    ∃ t' kernel u ids v geometry w x, s.part.tasks[task]? = some t' ∧ Calm s u ∧
      t'.arguments.mapM (argumentBuffer device threads) u = (.ok ids, v) ∧
        onDevice device (Channel.launch kernel ids geometry wait) v = (.ok event, w) ∧ Calm w x ∧
          (t'.exceptions → ∃ y, Calm w y ∧ checkLaunch device t' event y = (.ok ⟨⟩, x)) ∧
            t = { x with part := x.part.markWritten t' offset } := by
  unfold launch at h
  obtain ⟨kernel, u, hkernel, h⟩ := Action.bind_ok.mp h
  have hu := (calm_kernel device task).of_eq hkernel
  obtain ⟨_, _, hget, h⟩ := Action.bind_ok.mp h
  cases hget
  obtain ⟨_, _, hplace, h⟩ := Action.bind_ok.mp h
  obtain ⟨_, rfl⟩ := Action.lift_eq_ok.mp hplace
  obtain ⟨_, _, hget, h⟩ := Action.bind_ok.mp h
  cases hget
  obtain ⟨t', _, hfound, h⟩ := Action.bind_ok.mp h
  obtain ⟨htask, rfl⟩ := Action.lift_eq_ok.mp hfound
  obtain ⟨ids, v, hids, h⟩ := Action.bind_ok.mp h
  obtain ⟨_, _, hget, h⟩ := Action.bind_ok.mp h
  cases hget
  obtain ⟨geometry, _, hgeometry, h⟩ := Action.bind_ok.mp h
  obtain ⟨_, rfl⟩ := Action.lift_eq_ok.mp hgeometry
  obtain ⟨own, w, hlaunch, h⟩ := Action.bind_ok.mp h
  obtain ⟨_, x, hcount, h⟩ := Action.bind_ok.mp h
  have hx := (calm_count m _).of_eq hcount
  have htask : s.part.tasks[task]? = some t' := hu.tasks ▸ task_ok.mp htask
  dsimp only at h
  split at h
  case isFalse hunchecked =>
    cases h
    exact ⟨t', kernel, u, ids, v, geometry, w, x, htask, hu, hids, hlaunch, hx, fun h => absurd h hunchecked,
      rfl⟩
  case isTrue =>
    obtain ⟨_, y, hcheck, h⟩ := Action.bind_ok.mp h
    have hy := (calm_checkLaunch device t' own).of_eq hcheck
    cases h
    exact ⟨t', kernel, u, ids, v, geometry, w, y, htask, hu, hids, hlaunch, calm_lasting.trans hx hy,
      fun _ => ⟨x, hx, hcheck⟩, rfl⟩

-- Before it calls the device, a launch makes nothing but buffers for its arguments. Calm does not change
-- what it left.
theorem launch_leaves (hbooks : Books rest s) (hactive : s.part.active = some device)
    (hdevice : s.part.devices[device]? = some place)
    (h : m.launch task device offset threads wait s = (.ok event, u)) (hut : Calm u t)
    (hcomplete : (t.device place).status? event = some .complete) :
    ∃ t' v l, s.part.tasks[task]? = some t' ∧ Deals (Takes threads t'.arguments) s v ∧
      Landing.Of l t' place wait event v t ∧ t'.Lands place l.results t := by
  obtain ⟨t', kernel, u, ids, v, geometry, w, x, htask, hu, hids, hlaunch, hx, _, rfl⟩ := launch_ok h
  have hstill := hu.still.upholds hbooks
  have hactive' : u.part.active = some device := hu.active.trans hactive
  obtain ⟨hdeals, hcollected⟩ := (argumentBuffers_deals hstill.books hactive' (hu.devices ▸ hdevice)
    t'.arguments).of_eq hids
  have hv := hdeals.sustains hstill.books
  have hdevice' : v.part.devices[device]? = some place := hv.stable.devices ▸ hu.devices ▸ hdevice
  have hplace' : place < v.platform.channels.length := hv.books.attached place (List.mem_of_getElem? hdevice')
  rw [onDevice_eq hdevice'] at hlaunch
  rcases hcall : Device.launch kernel ids geometry wait (v.device place) with ⟨result, d⟩
  have hchannel : Channel.launch kernel ids geometry wait (v.platform.channel place) =
      (result, { device := d, journal :=
        (v.platform.channel place).journal ++ [.launch kernel ids geometry wait result] }) := by
    rw [Channel.launch, Channel.noting_apply]
    exact hcall ▸ rfl
  rw [hchannel] at hlaunch
  cases hlaunch
  have hcalm := Channel.calm_lasting.trans (hx.channels place) (hut.channels place)
  rw [Hosted.setChannel, Platform.channel_setChannel hplace'] at hcalm
  obtain ⟨hlt, hran⟩ := Device.launch_complete hcall
  have hstatus : (t.device place).status? event = d.status? event :=
    hcalm.device.onward.status?_eq_of_lt hlt
  obtain ⟨name, code, hkernel, hrun⟩ := hran (hstatus.symm.trans hcomplete)
  obtain ⟨contents, results, hholds, hleft, hlength, hmemory⟩ := Memory.run_ok hrun
  have hbuffers := (hcollected ids rfl).buffers hholds
  refine ⟨t', v, ⟨kernel, code, ids, geometry, contents, results⟩, htask, ?_, ⟨?_, ⟨name, hkernel⟩, ?_, hleft⟩,
    fun before a after hsplit hfirst => ?_⟩
  case refine_1 => exact (Deals.of_calm hu).trans hdeals
  case refine_2 =>
    obtain ⟨calls, hjournal, _⟩ := hcalm.journal
    exact ⟨calls, by simpa using hjournal⟩
  case refine_3 =>
    refine List.forall₂_iff_get.mpr ⟨hbuffers.length_eq.trans hholds.length_eq, fun j hj hj' => ?_⟩
    have hj'' : j < ids.length := hbuffers.length_eq ▸ hj
    rw [bytes?_eq (hbuffers.get hj hj'')]
    exact hholds.get hj'' hj'
  case refine_4 =>
    obtain ⟨id, hid, hindex⟩ := idxOf?_of_first hv.books hbuffers hsplit hfirst
    obtain ⟨bytes, hbytes, hcontents⟩ := Memory.contents?_scatter hholds hlength hindex
    have hkept : x.part.buffer? a.object.handle = some id := by
      rw [buffer?, state?, hx.bindings]
      exact hid
    have hmarked : t.part.buffer? a.object.handle = some id := by
      rw [buffer?, state?, hut.bindings]
      exact buffer?_markWritten hkept t' offset
    refine ⟨bytes, hbytes, ?_⟩
    rw [bytes?_eq hmarked, Hosted.device, hcalm.device.memory, hmemory, hcontents]

theorem step_launch (h : m.step k (.launch task device list offset threads) r s = (.ok r', t)) :
    ∃ event u, m.launch task device offset threads (r.waiting list) s = (.ok event, u) ∧ Calm u t ∧
      r'.last = some event := by
  obtain ⟨event, u, hlaunch, h⟩ := Action.bind_ok.mp h
  have hlast : (m.record (r.consume list) k (some event)).Gives (·.last = some event) := record_gives _ rfl
  exact ⟨event, u, hlaunch, (calm_record k (some event)).of_eq h, hlast.of_eq h⟩

end Machine

namespace Yard

open Context Machine

variable {y : Yard} {c : Context} {m : Machine} {r : Run} {pre : List Instruction} {t : Hosted Context}
  {k task device place offset threads : Nat} {list : Option Nat} {event : EventId}

def five : Bytes :=
  [5, 0, 0, 0, 0, 0, 0, 0]

def six : Bytes :=
  [6, 0, 0, 0, 0, 0, 0, 0]

-- Two numbers, and a device that adds one to the sum of all arguments but the last.
def desk : Yard where
  platform := {
    registry := ((({} : Registry).register (.array .long) five).2.register (.array .long) (Bytes.zeros 8)).2
    channels := [{ device := {
      limits := { computeUnits := 1 }
      threadName := "queue"
      kernels := [("sum", Kernel.sumPlusOne)] } }] }

-- The sum of the first number goes to the number with this handle.
def summing (target : Handle) : Task where
  id := "sum"
  kernel := "sum"
  domain := [1]
  arguments := [⟨⟨⟨1⟩, .array .long⟩, .read⟩, ⟨⟨target, .array .long⟩, .write⟩]

def clerk (target : Handle) : List Move :=
  [.enter "clerk" [0], .act 0 (.addTask (summing target))]

def adding : List Instruction :=
  [.begin 2 1 0, .context 0, .streamIn 0 0 0 none] ++ [.launch 0 0 none 0 0]

def adder : Machine where
  program := { code := (adding ++ [Instruction.finish]).flatMap Instruction.encoding, lists := [] }
  instructions := adding ++ [Instruction.finish]
  config := {}

def added (target : Handle) : Except Error Run × Hosted Context :=
  let y := desk.run (clerk target)
  adder.steps 0 adding (Run.start adder) ⟨y.platform, y.contexts.headD { name := "" }⟩

theorem desk_fresh : desk.Fresh :=
  ⟨rfl, by simp [desk]⟩

-- A run as far as the launch, whichever number is written.
theorem added_reaches {target : Handle} (hok : (added target).1.toOption.map Run.last = some (some ⟨2⟩))
    (hcontext : (desk.run (clerk target)).contexts.length = 1) :
    ∃ c r, (desk.run (clerk target)).contexts[0]? = some c ∧
      adder.Reaches 0 adding (Run.start adder) ⟨(desk.run (clerk target)).platform, c⟩ r (added target).2 ∧
        r.last = some ⟨2⟩ := by
  obtain ⟨c, hc⟩ := List.length_eq_one_iff.mp hcontext
  rcases hadded : added target with ⟨e | r, t⟩ <;> rw [hadded] at hok
  case error => cases hok
  case ok =>
    refine ⟨c, r, by rw [hc]; rfl, ?_, Option.some.inj hok⟩
    rw [added, hc] at hadded
    exact steps_ok.mp hadded

end Yard
end Offload
