import Mathlib.Data.List.Nodup
import Offload.Proofs.Action
import Offload.Proofs.Direct
import Offload.Proofs.Groups

/-!
Work that takes arrays apart into columns, one for each element index: where every kernel makes each
element it writes from the elements at the same index, a pass does to the columns of its window what the
steps say of a single column, and leaves the others alone.
-/

namespace Offload

namespace Bytes

-- The element at an index, in bytes.
def element (size index : Nat) (bytes : Bytes) : Bytes :=
  window (index * size) size bytes

variable {size first count index i : Nat} {data bytes bytes' : Bytes}

theorem getElem?_element (size index : Nat) (bytes : Bytes) (i : Nat) :
    (element size index bytes)[i]? = if i < size then bytes[index * size + i]? else none := by
  rw [element, window, List.getElem?_take, List.getElem?_drop]

theorem getElem?_overlayAt (h : i ≤ bytes.length) (data : Bytes) (k : Nat) :
    (overlayAt i data bytes)[k]? =
      if i ≤ k ∧ k < i + data.length then data[k - i]? else bytes[k]? := by
  have htake : (bytes.take i).length = i := List.length_take_of_le h
  rw [overlayAt, overlay, List.getElem?_append, List.getElem?_append, htake]
  by_cases hbefore : k < i
  case pos => rw [if_pos hbefore, if_neg (by omega), List.getElem?_take_of_lt hbefore]
  case neg =>
    rw [if_neg hbefore]
    by_cases hinside : k - i < data.length
    case pos => rw [if_pos hinside, if_pos (by omega)]
    case neg =>
      rw [if_neg hinside, if_neg (by omega), List.getElem?_drop, List.getElem?_drop]
      congr 1
      omega

-- What lies in a window of elements, and what does not.
theorem index_lt (hi : i < size) (hindex : index < count) : index * size + i < count * size := by
  have hle : (index + 1) * size ≤ count * size := Nat.mul_le_mul_right size hindex
  rw [Nat.succ_mul] at hle
  omega

theorem element_window (hindex : index < count) :
    element size index (window (first * size) (count * size) bytes) =
      element size (first + index) bytes := by
  refine List.ext_getElem? fun i => ?_
  rw [getElem?_element, getElem?_element]
  split
  case isFalse => rfl
  case isTrue hi =>
    rw [window, List.getElem?_take_of_lt (index_lt hi hindex), List.getElem?_drop, Nat.add_mul,
      Nat.add_assoc]

theorem element_overlayAt (hdata : data.length = count * size)
    (hfits : (first + count) * size ≤ bytes.length) (hindex : index < count) :
    element size (first + index) (overlayAt (first * size) data bytes) = element size index data := by
  rw [Nat.add_mul] at hfits
  refine List.ext_getElem? fun i => ?_
  rw [getElem?_element, getElem?_element]
  split
  case isFalse => rfl
  case isTrue hi =>
    have hlt := index_lt hi hindex
    rw [getElem?_overlayAt (by omega), Nat.add_mul, if_pos (by omega)]
    congr 1
    omega

theorem element_overlayAt_of_outside (hdata : data.length = count * size)
    (hfits : (first + count) * size ≤ bytes.length) (hindex : index < first ∨ first + count ≤ index) :
    element size index (overlayAt (first * size) data bytes) = element size index bytes := by
  rw [Nat.add_mul] at hfits
  refine List.ext_getElem? fun i => ?_
  rw [getElem?_element, getElem?_element]
  split
  case isFalse => rfl
  case isTrue hi =>
    rw [getElem?_overlayAt (by omega), if_neg]
    rintro ⟨hle, hlt⟩
    rcases hindex with hbefore | hafter
    case inl =>
      have := index_lt hi hbefore
      omega
    case inr =>
      have hge : (first + count) * size ≤ index * size := Nat.mul_le_mul_right size hafter
      rw [Nat.add_mul] at hge
      omega

-- Bytes that consist of elements are known by these.
theorem ext_element (hlength : bytes.length = count * size) (hlength' : bytes'.length = count * size)
    (h : ∀ index < count, element size index bytes = element size index bytes') : bytes = bytes' := by
  refine List.ext_getElem? fun k => ?_
  by_cases hk : k < count * size
  case neg =>
    rw [List.getElem?_eq_none (by omega), List.getElem?_eq_none (by omega)]
  case pos =>
    have hsize : 0 < size := Nat.pos_of_ne_zero fun h => by simp [h] at hk
    have hget := congrArg (·[k % size]?) (h (k / size) (Nat.div_lt_of_lt_mul (Nat.mul_comm count size ▸ hk)))
    simpa only [getElem?_element, if_pos (Nat.mod_lt k hsize), Nat.mul_comm (k / size),
      Nat.div_add_mod] using hget

end Bytes

namespace Geometry

variable {n threads : Nat} {limits : Limits} {t : Tuning} {g : Geometry}

-- A launch along one dimension has at least the work items that are asked for.
theorem launch_line (h : launch [n] threads limits t = .ok g) :
    ∃ global, g.global = [global] ∧ (if 0 < threads then threads else n) ≤ global := by
  have hglobal : List.Forall₂ (GlobalSize limits t) [if 0 < threads then threads else n] g.global :=
    (launch_shaped h).global
  obtain ⟨global, rest, hsize, hrest, heq⟩ := List.forall₂_cons_left_iff.mp hglobal
  cases hrest
  exact ⟨global, heq, hsize.le⟩

end Geometry

def Task.reads (t : Task) : List Handle :=
  (t.arguments.filter (·.access.reads)).map (·.object.handle)

def Step.reads : Step → List Handle
  | .streamIn _ => []
  | .task t => t.reads
  | .streamOut o => [o.handle]

def Step.fills : Step → List Handle
  | .streamIn o => [o.handle]
  | .task t => (t.arguments.filter (·.access.writes)).map (·.object.handle)
  | .streamOut _ => []

-- Whatever a step reads of the device is `ready`, or filled by an earlier step.
def Step.Sourced (ready : List Handle) : List Step → Prop
  | [] => True
  | s :: steps => (∀ h ∈ s.reads, h ∈ ready) ∧ Sourced (ready ++ s.fills) steps

-- What a kernel finds at an index of the arguments that it may read.
def Bytes.elements (size index : Nat) (accesses : List Access) (contents : List Bytes) : List Bytes :=
  ((accesses.zip contents).filter (·.1.reads)).map fun x => element size index x.2

-- Over a line of work items, a kernel makes of the elements at each index those that it writes there.
def Kernel.Elementwise (size : Nat) (accesses : List Access) (f : Nat → List Bytes → Bytes)
    (kernel : Kernel) : Prop :=
  ∀ geometry contents results count, geometry.rank = 1 → contents.length = accesses.length →
    (∀ bytes ∈ contents, bytes.length = count * size) →
    (kernel { geometry, arguments := contents }).run contents = (results, none) →
    ∀ place access, accesses[place]? = some access →
      if access.writes then ∀ index < min (geometry.global.getD 0 1) count,
        Bytes.element size index (results.getD place []) =
          f place (Bytes.elements size index accesses contents)
      else results.getD place [] = contents.getD place []

-- One element of each object, and of the copy of each.
structure Column where
  host : Handle → Bytes
  copy : Handle → Bytes

namespace Column

def step (f : Task → Nat → List Bytes → Bytes) (c : Column) : Step → Column
  | .streamIn o => { c with copy := Function.update c.copy o.handle (c.host o.handle) }
  | .task t => { c with copy := fun h =>
      match t.arguments.findIdx? (·.object.handle = h) with
      | none => c.copy h
      | some place => if t.writesTo h then f t place (t.reads.map c.copy) else c.copy h }
  | .streamOut o => { c with host := Function.update c.host o.handle (c.copy o.handle) }

def run (f : Task → Nat → List Bytes → Bytes) (c : Column) (steps : List Step) : Column :=
  steps.foldl (step f) c

end Column

-- The pass is about `count` elements, from the first one on.
structure Pass.Covers (size total : Nat) (p : Pass) (first count : Nat) : Prop where
  offset  : p.offset = first * size
  length  : (if 0 < p.length then p.length else total) = count * size
  threads : (if 0 < p.threads then p.threads * size else total) = count * size
  within  : (first + count) * size ≤ total

theorem Pass.Covers.items_eq {size total first count : Nat} {p : Pass} (h : p.Covers size total first count)
    (hsize : 0 < size) : (if 0 < p.threads then p.threads else total / size) = count := by
  have hthreads := h.threads
  split at hthreads
  case isTrue hpos =>
    rw [if_pos hpos]
    exact Nat.eq_of_mul_eq_mul_right hsize hthreads
  case isFalse hpos =>
    rw [if_neg hpos, hthreads]
    exact Nat.mul_div_cancel count hsize

-- What a step is about are arrays of the element and the length.
def Step.Arrays (e : Element) (total : Nat) (host : Handle → Bytes) (s : Step) : Prop :=
  ∀ o ∈ s.objects, o.kind = .array e ∧ (host o.handle).length = total

theorem Step.Arrays.of_lengths {e : Element} {total : Nat} {s : Step} {host host' : Handle → Bytes}
    (hs : s.Arrays e total host) (hlengths : ∀ h, (host' h).length = (host h).length) : s.Arrays e total host' :=
  fun o ho => ⟨(hs o ho).1, (hlengths _).trans (hs o ho).2⟩

namespace World

-- Of the objects that some steps are about, no elements changed on the host but those of a window.
structure Within (size first count : Nat) (steps : List Step) (w w' : World) : Prop where
  lengths : ∀ h, (w'.host h).length = (w.host h).length
  outside : ∀ h index, index < first ∨ first + count ≤ index →
    Bytes.element size index (w'.host h) = Bytes.element size index (w.host h)
  others  : ∀ h, (∀ s ∈ steps, ∀ o ∈ s.objects, o.handle ≠ h) → w'.host h = w.host h

-- At an index of the window, the host and the copies of `ready` objects are those of a column.
structure Shows (size first count index : Nat) (ready : List Handle) (w : World) (c : Column) : Prop where
  host   : ∀ h, Bytes.element size (first + index) (w.host h) = c.host h
  copies : ∀ h ∈ ready, ∃ copy, w.copies h = some copy ∧ copy.bytes.length = count * size ∧
    Bytes.element size index copy.bytes = c.copy h

variable {e : Element} {total first count index : Nat} {p : Pass} {u : Setup} {s : Step}
  {w w' : World} {steps : List Step}

theorem transferSize_eq (hp : p.Covers e.size total first count) {h : Handle}
    (hlength : (w.host h).length = total) : w.transferSize h p.length = count * e.size := by
  rw [transferSize, hlength]
  exact hp.length

theorem argumentSize_eq (hp : p.Covers e.size total first count) {o : HostObject}
    (ho : o.kind = .array e ∧ (w.host o.handle).length = total) :
    w.argumentSize o p.threads = count * e.size := by
  simp only [argumentSize, ho.1, ho.2]
  exact hp.threads

namespace Within

variable {size : Nat}

theorem refl (w : World) : Within size first count steps w w :=
  ⟨fun _ => rfl, fun _ _ _ => rfl, fun _ _ => rfl⟩

theorem trans {w'' : World} (h : Within size first count steps w w')
    (h' : Within size first count steps w' w'') : Within size first count steps w w'' where
  lengths k := (h'.lengths k).trans (h.lengths k)
  outside k index hindex := (h'.outside k index hindex).trans (h.outside k index hindex)
  others k hk := (h'.others k hk).trans (h.others k hk)

theorem mono {first' count' : Nat} {steps' : List Step} (h : Within size first count steps w w')
    (hfirst : first' ≤ first) (hlast : first + count ≤ first' + count') (hsteps : steps ⊆ steps') :
    Within size first' count' steps' w w' where
  lengths := h.lengths
  outside k index hindex := h.outside k index (by omega)
  others k hk := h.others k fun s hs => hk s (hsteps hs)

theorem arrays {e : Element} {total : Nat} {s : Step} (h : Within size first count steps w w')
    (hs : s.Arrays e total w.host) : s.Arrays e total w'.host :=
  hs.of_lengths h.lengths

theorem of_host (h : w'.host = w.host) : Within size first count steps w w' :=
  ⟨fun _ => by rw [h], fun _ _ _ => by rw [h], fun _ _ => by rw [h]⟩

theorem update {h : Handle} {bytes : Bytes} (hlength : bytes.length = (w.host h).length)
    (houtside : ∀ index, index < first ∨ first + count ≤ index →
      Bytes.element size index bytes = Bytes.element size index (w.host h))
    (hh : ∃ s ∈ steps, ∃ o ∈ s.objects, o.handle = h) :
    Within size first count steps w { w with host := Function.update w.host h bytes } := by
  have hhost (k : Handle) : Function.update w.host h bytes k = if k = h then bytes else w.host k :=
    Function.update_apply _ _ _ k
  constructor
  case lengths =>
    intro k
    simp only [hhost]
    split
    case isTrue hk => rw [hlength, hk]
    case isFalse => rfl
  case outside =>
    intro k index hindex
    simp only [hhost]
    split
    case isTrue hk => rw [houtside index hindex, hk]
    case isFalse => rfl
  case others =>
    intro k hk
    obtain ⟨s, hs, o, ho, rfl⟩ := hh
    exact Function.update_of_ne (hk s hs o ho).symm _ _

end Within

@[simp]
theorem host_provide (threads : Nat) (w : World) (a : Argument) : (w.provide threads a).host = w.host := by
  unfold provide
  split
  case isTrue => rfl
  case isFalse => exact host_ensure w _ _

theorem host_provides (threads : Nat) (arguments : List Argument) (w : World) :
    (arguments.foldl (provide threads) w).host = w.host := by
  induction arguments generalizing w with
  | nil => rfl
  | cons a arguments ih => rw [List.foldl_cons, ih, host_provide]

-- What a step of a pass does if it can be taken.
theorem windowStep_streamIn_ok {o : HostObject} (hstep : w.windowStep u p (.streamIn o) = .ok w') :
    p.offset + w.transferSize o.handle p.length ≤ (w.host o.handle).length ∧
      w' = w.put o.handle ⟨Bytes.window p.offset (w.transferSize o.handle p.length) (w.host o.handle), true⟩ := by
  simp only [windowStep] at hstep
  split at hstep <;> cases hstep
  exact ⟨‹_›, rfl⟩

theorem windowStep_task_ok {t : Task} (hstep : w.windowStep u p (.task t) = .ok w') :
    ∃ results, u.run t p.threads (t.arguments.map fun a =>
        (t.arguments.foldl (provide p.threads) w).view a.object.handle) = some results ∧
      w' = (t.arguments.foldl (provide p.threads) w).leave t results := by
  simp only [windowStep] at hstep
  split at hstep <;> cases hstep
  exact ⟨_, ‹_›, rfl⟩

theorem windowStep_streamOut_ok {o : HostObject} (hstep : w.windowStep u p (.streamOut o) = .ok w') :
    ∃ bytes, w.copies o.handle = some ⟨bytes, true⟩ ∧ w.transferSize o.handle p.length ≤ bytes.length ∧
      p.offset + w.transferSize o.handle p.length ≤ (w.host o.handle).length ∧
      w' = { w with host := Function.update w.host o.handle (Bytes.overlayAt p.offset
        (bytes.take (w.transferSize o.handle p.length)) (w.host o.handle)) } := by
  simp only [windowStep] at hstep
  split at hstep
  case h_2 => cases hstep
  case h_1 bytes hcopy =>
    split at hstep
    case isTrue => cases hstep
    case isFalse hfits =>
      cases hstep
      rw [not_or, Nat.not_lt, Nat.not_lt] at hfits
      exact ⟨bytes, hcopy, hfits.1, hfits.2, rfl⟩

theorem within_windowStep (hp : p.Covers e.size total first count) (hs : s.Arrays e total w.host)
    (h : w.windowStep u p s = .ok w') : Within e.size first count [s] w w' := by
  cases s with
  | streamIn o =>
    obtain ⟨-, rfl⟩ := windowStep_streamIn_ok h
    exact .of_host (host_put _ _ _)
  | task t =>
    obtain ⟨_, -, rfl⟩ := windowStep_task_ok h
    exact .of_host (host_provides _ _ _)
  | streamOut o =>
    obtain ⟨bytes, -, hlength, hinside, rfl⟩ := windowStep_streamOut_ok h
    rw [transferSize_eq hp (hs o (by simp [Step.objects])).2] at hlength hinside ⊢
    rw [hp.offset, ← Nat.add_mul] at hinside
    have hdata : (bytes.take (count * e.size)).length = count * e.size := List.length_take_of_le hlength
    refine .update ?_ (fun index hindex => ?_) ⟨.streamOut o, by simp, o, by simp [Step.objects], rfl⟩
    case refine_1 =>
      refine Bytes.overlayAt_length ?_
      rw [hdata, hp.offset, ← Nat.add_mul]
      exact hinside
    case refine_2 =>
      rw [hp.offset]
      exact Bytes.element_overlayAt_of_outside hdata hinside hindex

theorem copies_provide_of_ne {a : Argument} {h : Handle} (hne : h ≠ a.object.handle) (threads : Nat)
    (w : World) : (w.provide threads a).copies h = w.copies h := by
  unfold provide
  split
  case isTrue => rfl
  case isFalse => exact copies_ensure_of_ne hne w _

-- A copy that has the size of the pass already stays what it is.
theorem copies_provides_of_fits {threads size : Nat} {arguments : List Argument}
    (hsize : ∀ a ∈ arguments, w.argumentSize a.object threads = size) {h : Handle} {c : Copy}
    (hc : w.copies h = some c) (hfits : c.bytes.length = size) :
    (arguments.foldl (provide threads) w).copies h = some c := by
  induction arguments generalizing w with
  | nil => exact hc
  | cons a arguments ih =>
    have ⟨ha, hrest⟩ := List.forall_mem_cons.mp hsize
    have hkept : (w.provide threads a).copies h = some c := by
      by_cases hne : h = a.object.handle
      case neg => rw [copies_provide_of_ne hne, hc]
      case pos =>
        subst hne
        unfold provide
        rw [ha, ensure_of_fits hc hfits, ite_self, hc]
    refine ih (fun b hb => ?_) hkept
    rw [← hrest b hb]
    simp only [argumentSize, host_provide]

-- What a task writes has the size of the pass when the kernel is launched.
theorem copies_provides_of_writes {threads size : Nat} {arguments : List Argument}
    (hsize : ∀ a ∈ arguments, w.argumentSize a.object threads = size) {a : Argument}
    (ha : a ∈ arguments) (hwrites : a.access.writes) :
    ∃ c, (arguments.foldl (provide threads) w).copies a.object.handle = some c ∧
      c.bytes.length = size := by
  induction arguments generalizing w with
  | nil => cases ha
  | cons b arguments ih =>
    have ⟨hb, hrest⟩ := List.forall_mem_cons.mp hsize
    have hrest' : ∀ a ∈ arguments, (w.provide threads b).argumentSize a.object threads = size := by
      intro a ha
      rw [← hrest a ha]
      simp only [argumentSize, host_provide]
    rcases List.mem_cons.mp ha with rfl | ha
    case inr => exact ih hrest' ha
    case inl =>
      have hprovide : w.provide threads a = w.ensure a.object.handle size := by
        rw [provide, hb, if_neg (by simp [hwrites])]
      obtain ⟨c, hc⟩ := w.copies_ensure a.object.handle size
      have hlength := length_ensure hc
      exact ⟨c, copies_provides_of_fits hrest' (hprovide ▸ hc) hlength, hlength⟩

theorem view_of_some {h : Handle} {c : Copy} (hc : w.copies h = some c) : w.view h = c.bytes := by
  rw [view, hc]

end World

theorem Setup.run_ok {u : Setup} {t : Task} {threads : Nat} {contents results : List Bytes}
    (h : u.run t threads contents = some results) : ∃ kernel geometry,
      u.kernels.find? (·.1 == t.kernel) = some kernel ∧
      Geometry.launch t.domain threads u.limits u.tuning = .ok geometry ∧
      (kernel.2 { geometry, arguments := contents }).run contents = (results, none) := by
  unfold Setup.run at h
  split at h
  case h_2 => cases h
  case h_1 name kernel geometry hkernel hlaunch =>
    split at h
    case h_2 => cases h
    case h_1 hrun =>
      cases h
      exact ⟨_, geometry, hkernel, hlaunch, hrun⟩

namespace Task

variable {t : Task} {place : Nat}

theorem Apart.findIdx?_eq (ht : t.Apart) (hlt : place < t.arguments.length) :
    t.arguments.findIdx? (·.object.handle = t.arguments[place].object.handle) = some place := by
  refine List.findIdx?_eq_some_iff_getElem.mpr ⟨hlt, by simp, fun before hbefore heq => ?_⟩
  have hlt : place < (t.arguments.map (·.object.handle)).length := by simpa using hlt
  have hsame : (t.arguments.map (·.object.handle))[before] = (t.arguments.map (·.object.handle))[place] := by
    simpa using heq
  have := (List.Nodup.getElem_inj_iff ht).mp hsame
  omega

theorem Apart.writesTo_iff (ht : t.Apart) (hlt : place < t.arguments.length) :
    t.writesTo t.arguments[place].object.handle ↔ t.arguments[place].access.writes := by
  rw [writesTo, List.any_eq_true]
  constructor
  case mp =>
    rintro ⟨a, ha, h⟩
    obtain ⟨other, hother, rfl⟩ := List.mem_iff_getElem.mp ha
    simp only [Bool.and_eq_true, decide_eq_true_eq] at h
    have hfirst := ht.findIdx?_eq hother
    rw [h.1, ht.findIdx?_eq hlt] at hfirst
    cases hfirst
    exact h.2
  case mpr =>
    intro hwrites
    exact ⟨_, List.getElem_mem hlt, by simp [hwrites]⟩

end Task

-- What is asked of a task that is to work on columns.
structure Task.Columnwise (e : Element) (total : Nat) (kernels : List (String × Kernel))
    (f : Nat → List Bytes → Bytes) (t : Task) : Prop where
  apart  : t.Apart
  domain : t.domain = [total / e.size]
  kernel : ∀ kernel, kernels.find? (·.1 == t.kernel) = some kernel →
    kernel.2.Elementwise e.size (t.arguments.map Argument.access) f

def Step.Columnwise (e : Element) (total : Nat) (kernels : List (String × Kernel))
    (f : Task → Nat → List Bytes → Bytes) : Step → Prop
  | .task t => t.Columnwise e total kernels (f t)
  | _ => True

namespace World

variable {e : Element} {total first count index : Nat} {p : Pass} {u : Setup} {t : Task}
  {w w' : World} {c : Column} {ready : List Handle} {f : Task → Nat → List Bytes → Bytes}

-- A launch leaves in each argument that the task writes what it makes of the columns.
theorem run_columns (ht : t.Columnwise e total u.kernels (f t)) (hp : p.Covers e.size total first count)
    {contents : Handle → Bytes} (hlengths : ∀ a ∈ t.arguments,
      (contents a.object.handle).length = count * e.size) {results : List Bytes}
    (hrun : u.run t p.threads (t.arguments.map fun a => contents a.object.handle) = some results)
    (hindex : index < count) {place : Nat} (hlt : place < t.arguments.length) :
    (results.getD place []).length = count * e.size ∧
      if t.arguments[place].access.writes then
        Bytes.element e.size index (results.getD place []) =
          f t place (t.reads.map fun h => Bytes.element e.size index (contents h))
      else results.getD place [] = contents t.arguments[place].object.handle := by
  obtain ⟨kernel, geometry, hkernel, hlaunch, hscript⟩ := Setup.run_ok hrun
  rw [ht.domain] at hlaunch
  obtain ⟨global, hglobal, hle⟩ := Geometry.launch_line hlaunch
  rw [hp.items_eq e.size_pos] at hle
  have hresults := Setup.run_lengths hrun
  have helements : Bytes.elements e.size index (t.arguments.map Argument.access)
      (t.arguments.map fun a => contents a.object.handle) =
        t.reads.map fun h => Bytes.element e.size index (contents h) := by
    rw [Bytes.elements, List.zip_map', List.filter_map, List.map_map, Task.reads, List.map_map]
    rfl
  have hkernel := ht.kernel kernel hkernel geometry _ results count (by simp [Geometry.rank, hglobal])
    (by simp) (by simpa using hlengths) hscript place t.arguments[place].access (by simp [hlt])
  refine ⟨?_, ?_⟩
  case refine_1 =>
    have hget := congrArg (·[place]?) hresults
    simp only [List.getElem?_map, List.getElem?_eq_getElem hlt, Option.map_some] at hget
    obtain ⟨bytes, hbytes, hlength⟩ := Option.map_eq_some_iff.mp hget
    rw [List.getD_eq_getElem?_getD, hbytes, Option.getD_some, hlength]
    exact hlengths _ (List.getElem_mem hlt)
  case refine_2 =>
    split at hkernel
    case isTrue hwrites =>
      rw [if_pos hwrites, ← helements]
      refine hkernel index ?_
      rw [hglobal]
      exact Nat.lt_min.mpr ⟨Nat.lt_of_lt_of_le hindex hle, hindex⟩
    case isFalse hwrites =>
      rw [if_neg hwrites, hkernel]
      simp [List.getD_eq_getElem?_getD, hlt]

-- Making room for a launch costs no copy that is ready.
theorem shows_provides {arguments : List Argument}
    (hsize : ∀ a ∈ arguments, w.argumentSize a.object p.threads = count * e.size)
    (h : w.Shows e.size first count index ready c) :
    (arguments.foldl (provide p.threads) w).Shows e.size first count index ready c where
  host k := by rw [host_provides, h.host]
  copies k hk := by
    obtain ⟨copy, hcopy, hlength, helement⟩ := h.copies k hk
    exact ⟨copy, copies_provides_of_fits hsize hcopy hlength, hlength, helement⟩

theorem Shows.view_eq (h : w.Shows e.size first count index ready c) {k : Handle} (hk : k ∈ ready) :
    (w.view k).length = count * e.size ∧ Bytes.element e.size index (w.view k) = c.copy k := by
  obtain ⟨copy, hcopy, hlength, helement⟩ := h.copies k hk
  rw [view_of_some hcopy]
  exact ⟨hlength, helement⟩

theorem length_view_provides (hsize : ∀ a ∈ t.arguments, w.argumentSize a.object p.threads = count * e.size)
    (hreads : ∀ h ∈ t.reads, h ∈ ready) (h : w.Shows e.size first count index ready c)
    {a : Argument} (ha : a ∈ t.arguments) :
    ((t.arguments.foldl (provide p.threads) w).view a.object.handle).length = count * e.size := by
  by_cases hwrites : a.access.writes
  case pos =>
    obtain ⟨copy, hcopy, hlength⟩ := copies_provides_of_writes hsize ha hwrites
    rw [view_of_some hcopy, hlength]
  case neg =>
    have haccess : a.access.reads := by
      cases haccess : a.access <;> simp_all [Access.reads, Access.writes]
    exact ((shows_provides hsize h).view_eq (hreads _ (List.mem_map_of_mem
      (List.mem_filter.mpr ⟨ha, haccess⟩)))).1

-- What a launch leaves behind is what the task makes of the column.
theorem shows_leave (hp : p.Covers e.size total first count) (ht : t.Columnwise e total u.kernels (f t))
    (hindex : index < count) (hreads : ∀ h ∈ t.reads, h ∈ ready)
    (h : w.Shows e.size first count index ready c)
    (hlengths : ∀ a ∈ t.arguments, (w.view a.object.handle).length = count * e.size) {results : List Bytes}
    (hrun : u.run t p.threads (t.arguments.map fun a => w.view a.object.handle) = some results) :
    (w.leave t results).Shows e.size first count index (ready ++ (Step.task t).fills)
      (c.step f (.task t)) := by
  have hfound : (t.reads.map fun h => Bytes.element e.size index (w.view h)) = t.reads.map c.copy :=
    List.map_congr_left fun k hk => (h.view_eq (hreads k hk)).2
  refine ⟨h.host, fun k hk => ?_⟩
  simp only [leave, Column.step]
  cases hplace : t.arguments.findIdx? (·.object.handle = k) with
  | none =>
    refine h.copies k ((List.mem_append.mp hk).resolve_right fun hfills => ?_)
    obtain ⟨a, ha, rfl⟩ := List.mem_map.mp hfills
    simpa using List.findIdx?_eq_none_iff.mp hplace a (List.mem_of_mem_filter ha)
  | some place =>
    obtain ⟨hlt, hhandle, _⟩ := List.findIdx?_eq_some_iff_getElem.mp hplace
    have hhandle : t.arguments[place].object.handle = k := by simpa using hhandle
    obtain ⟨hlength, hresult⟩ := run_columns ht hp hlengths hrun hindex hlt
    refine ⟨_, rfl, hlength, ?_⟩
    have hiff := ht.apart.writesTo_iff hlt
    rw [hhandle] at hiff hresult
    simp only [hiff]
    split at hresult
    case isTrue hwrites => rw [if_pos hwrites, hresult, hfound]
    case isFalse hwrites =>
      -- what the task only reads was ready before
      rw [if_neg hwrites, hresult]
      refine (h.view_eq ((List.mem_append.mp hk).resolve_right fun hfills => hwrites ?_)).2
      obtain ⟨a, ha, heq⟩ := List.mem_map.mp hfills
      rw [← hiff, Task.writesTo, List.any_eq_true]
      exact ⟨a, List.mem_of_mem_filter ha, by simp [heq, (List.mem_filter.mp ha).2]⟩

-- A step does to each column of the window what it says of a single one.
theorem shows_windowStep {s : Step} (hp : p.Covers e.size total first count)
    (hs : s.Arrays e total w.host) (hcolumnwise : s.Columnwise e total u.kernels f)
    (hindex : index < count) (hreads : ∀ h ∈ s.reads, h ∈ ready)
    (h : w.Shows e.size first count index ready c) (hstep : w.windowStep u p s = .ok w') :
    w'.Shows e.size first count index (ready ++ s.fills) (c.step f s) := by
  cases s with
  | streamIn o =>
    obtain ⟨hfits, rfl⟩ := windowStep_streamIn_ok hstep
    rw [transferSize_eq hp (hs o (by simp [Step.objects])).2, hp.offset] at hfits ⊢
    refine ⟨h.host, fun k hk => ?_⟩
    by_cases hne : k = o.handle
    case pos =>
      subst hne
      refine ⟨_, copies_put_self w _ _, Bytes.window_length hfits, ?_⟩
      rw [Bytes.element_window hindex, h.host]
      simp [Column.step]
    case neg =>
      have hready : k ∈ ready :=
        (List.mem_append.mp hk).resolve_right fun hfills => hne (List.mem_singleton.mp hfills)
      have hcolumn : (c.step f (.streamIn o)).copy k = c.copy k := by simp [Column.step, hne]
      rw [copies_put_of_ne hne, hcolumn]
      exact h.copies k hready
  | task t =>
    have hsize : ∀ a ∈ t.arguments, w.argumentSize a.object p.threads = count * e.size :=
      fun a ha => argumentSize_eq hp (hs a.object (List.mem_map_of_mem ha))
    obtain ⟨results, hrun, rfl⟩ := windowStep_task_ok hstep
    exact shows_leave hp hcolumnwise hindex hreads (shows_provides hsize h)
      (fun a ha => length_view_provides hsize hreads h ha) hrun
  | streamOut o =>
    obtain ⟨copy, hcopy, hlength, helement⟩ := h.copies o.handle (hreads _ (by simp [Step.reads]))
    have htotal := (hs o (by simp [Step.objects])).2
    obtain ⟨bytes, hsome, -, -, rfl⟩ := windowStep_streamOut_ok hstep
    cases hcopy.symm.trans hsome
    rw [transferSize_eq hp htotal]
    constructor
    case copies => exact fun k hk => h.copies k (by simpa [Step.fills] using hk)
    case host =>
      intro k
      have hhost : (c.step f (.streamOut o)).host k =
          Function.update c.host o.handle (c.copy o.handle) k := rfl
      rw [hhost]
      by_cases hne : k = o.handle
      case neg =>
        simp only [Function.update_of_ne hne]
        exact h.host k
      case pos =>
        subst hne
        have hfits : (first + count) * e.size ≤ (w.host o.handle).length := htotal ▸ hp.within
        simp only [Function.update_self]
        rw [hp.offset, List.take_of_length_le (Nat.le_of_eq hlength),
          Bytes.element_overlayAt hlength hfits hindex, helement]

end World
end Offload
