import Mathlib.Data.List.Forall2
import Mathlib.Logic.Function.Basic
import Offload.Compile.Passes
import Offload.Wiring

/-!
What steps mean by themselves, one after the other, without graph, program or machine: on whole objects,
and on the window of one pass. On whole objects the two are the same.
-/

namespace Offload

-- The copy of an object on a device, and whether there is anything in it for the host to take.
structure Copy where
  bytes : Bytes
  filled : Bool

-- What steps change: the bytes of the objects, and their copies on the device.
@[ext]
structure World where
  host : Handle → Bytes
  copies : Handle → Option Copy

-- Why a step cannot be taken.
inductive Stop
  | nothingToRead (h : Handle)
  | failed
  deriving DecidableEq

-- What a launch depends on besides the task and the contents of its arguments.
structure Setup where
  kernels : List (String × Kernel)
  limits : Limits
  tuning : Tuning

-- What the kernel of a task leaves in the arguments, if it is installed, launched and does not fail.
def Setup.run (u : Setup) (t : Task) (threads : Nat) (contents : List Bytes) : Option (List Bytes) :=
  match u.kernels.find? (·.1 == t.kernel), Geometry.launch t.domain threads u.limits u.tuning with
  | some (_, kernel), .ok geometry =>
    match (kernel { geometry, arguments := contents }).run contents with
    | (results, none) => some results
    | (_, some _) => none
  | _, _ => none

-- Each argument of a task is another object.
def Task.Apart (t : Task) : Prop :=
  (t.arguments.map (·.object.handle)).Nodup

instance (t : Task) : Decidable t.Apart :=
  inferInstanceAs (Decidable (List.Nodup _))

def Task.writesTo (t : Task) (h : Handle) : Bool :=
  t.arguments.any fun a => a.object.handle = h && a.access.writes

def Step.objects : Step → List HostObject
  | .streamIn o | .streamOut o => [o]
  | .task t => t.arguments.map Argument.object

-- Two steps that differ at most in what they say of an object besides its handle.
def Step.Alike : Step → Step → Prop
  | .streamIn o, .streamIn o' | .streamOut o, .streamOut o' => o.handle = o'.handle
  | .task t, .task t' => t = t'
  | _, _ => False

namespace World

def put (w : World) (h : Handle) (c : Copy) : World :=
  { w with copies := Function.update w.copies h (some c) }

-- What a kernel sees of an object, which is zeros if there is no copy of it yet.
def view (w : World) (h : Handle) : Bytes :=
  match w.copies h with
  | some c => c.bytes
  | none => Bytes.zeros (w.host h).length

-- The arguments of a task take what the kernel left; those it writes are filled by that.
def leave (w : World) (t : Task) (results : List Bytes) : World :=
  { w with copies := fun h =>
      match t.arguments.findIdx? (·.object.handle = h) with
      | none => w.copies h
      | some place => some {
          bytes := results.getD place []
          filled := t.writesTo h || (w.copies h).any Copy.filled } }

def step (u : Setup) (w : World) : Step → Except Stop World
  | .streamIn o => .ok (w.put o.handle ⟨w.host o.handle, true⟩)
  | .task t =>
    match u.run t 0 (t.arguments.map fun a => w.view a.object.handle) with
    | some results => .ok (w.leave t results)
    | none => .error .failed
  | .streamOut o =>
    match w.copies o.handle with
    | some ⟨bytes, true⟩ => .ok { w with host := Function.update w.host o.handle bytes }
    | _ => .error (.nothingToRead o.handle)

-- A run that stops gives the copies up.
def run (u : Setup) (w : World) : List Step → Except Stop Unit × World
  | [] => (.ok ⟨⟩, w)
  | s :: steps =>
    match w.step u s with
    | .ok w => w.run u steps
    | .error stop => (.error stop, { w with copies := fun _ => none })

-- The host fills an object, if the data is of the right kind and size for it.
def copyFrom (w : World) (o : HostObject) (t : Numeric) (data : Bytes) : World :=
  match Registry.checkElement o t with
  | .error _ => w
  | .ok _ =>
    if data.length = (w.host o.handle).length then
      { w with host := Function.update w.host o.handle data }
    else w

-- The copy of an object gets this size, for which it loses what it held unless it has the size already.
def ensure (w : World) (h : Handle) (size : Nat) : World :=
  if (w.copies h).any (·.bytes.length = size) then w else w.put h ⟨Bytes.zeros size, false⟩

def transferSize (w : World) (h : Handle) (length : Nat) : Nat :=
  if 0 < length then length else (w.host h).length

def argumentSize (w : World) (o : HostObject) (threads : Nat) : Nat :=
  match o.kind with
  | .array element => if 0 < threads then threads * element.size else (w.host o.handle).length
  | .scalar => (w.host o.handle).length

def provide (threads : Nat) (w : World) (a : Argument) : World :=
  if (w.copies a.object.handle).isSome ∧ ¬a.access.writes then w
  else w.ensure a.object.handle (w.argumentSize a.object threads)

-- The step on the window of a pass.
def windowStep (u : Setup) (p : Pass) (w : World) : Step → Except Stop World
  | .streamIn o =>
    let size := w.transferSize o.handle p.length
    if p.offset + size ≤ (w.host o.handle).length then
      .ok (w.put o.handle ⟨Bytes.window p.offset size (w.host o.handle), true⟩)
    else .error .failed
  | .task t =>
    let w := t.arguments.foldl (provide p.threads) w
    match u.run t p.threads (t.arguments.map fun a => w.view a.object.handle) with
    | some results => .ok (w.leave t results)
    | none => .error .failed
  | .streamOut o =>
    match w.copies o.handle with
    | some ⟨bytes, true⟩ =>
      let size := w.transferSize o.handle p.length
      if bytes.length < size ∨ (w.host o.handle).length < p.offset + size then .error .failed
      else
        let bytes := Bytes.overlayAt p.offset (bytes.take size) (w.host o.handle)
        .ok { w with host := Function.update w.host o.handle bytes }
    | _ => .error (.nothingToRead o.handle)

-- The steps on the windows of passes, one after the other.
def windows (u : Setup) (w : World) : List (Pass × Step) → Except Stop Unit × World
  | [] => (.ok ⟨⟩, w)
  | (p, s) :: work =>
    match w.windowStep u p s with
    | .ok w => w.windows u work
    | .error stop => (.error stop, { w with copies := fun _ => none })

variable {u : Setup} {w w' : World} {h other : Handle} {size : Nat}

theorem windows_append (u : Setup) (w : World) (work more : List (Pass × Step)) :
    w.windows u (work ++ more) =
      match w.windows u work with
      | (.ok _, w) => w.windows u more
      | (.error stop, w) => (.error stop, w) := by
  induction work generalizing w with
  | nil => rfl
  | cons x work ih =>
    rw [List.cons_append, windows, windows]
    cases w.windowStep u x.1 x.2 with
    | error stop => rfl
    | ok w => exact ih w

@[simp]
theorem host_put (w : World) (h : Handle) (c : Copy) : (w.put h c).host = w.host :=
  rfl

theorem copies_put_self (w : World) (h : Handle) (c : Copy) : (w.put h c).copies h = some c := by
  simp [put]

theorem copies_put_of_ne (hne : other ≠ h) (w : World) (c : Copy) :
    (w.put h c).copies other = w.copies other := by
  simp [put, hne]

theorem ensure_of_fits {c : Copy} (hc : w.copies h = some c) (hsize : c.bytes.length = size) :
    w.ensure h size = w := by
  simp [ensure, hc, hsize]

theorem ensure_of_differs (hsize : ∀ c, w.copies h = some c → c.bytes.length ≠ size) :
    w.ensure h size = w.put h ⟨Bytes.zeros size, false⟩ := by
  cases hc : w.copies h with
  | none => simp [ensure, hc]
  | some c => simp [ensure, hc, hsize c hc]

@[simp]
theorem host_ensure (w : World) (h : Handle) (size : Nat) : (w.ensure h size).host = w.host := by
  unfold ensure
  split <;> rfl

theorem copies_ensure_of_ne (hne : other ≠ h) (w : World) (size : Nat) :
    (w.ensure h size).copies other = w.copies other := by
  unfold ensure
  split
  case isTrue => rfl
  case isFalse => exact copies_put_of_ne hne _ _

theorem copies_ensure (w : World) (h : Handle) (size : Nat) : ∃ c, (w.ensure h size).copies h = some c := by
  unfold ensure
  split
  case isTrue hfits =>
    cases hc : w.copies h with
    | none => simp [hc] at hfits
    | some c => exact ⟨c, rfl⟩
  case isFalse => exact ⟨_, copies_put_self w h _⟩

theorem length_ensure {c : Copy} (hc : (w.ensure h size).copies h = some c) : c.bytes.length = size := by
  unfold ensure at hc
  split at hc
  case isTrue hfits =>
    rw [hc] at hfits
    simpa using hfits
  case isFalse =>
    rw [copies_put_self] at hc
    cases hc
    exact Bytes.zeros_length size

theorem put_ensure (w : World) (h : Handle) (size : Nat) (c : Copy) :
    (w.ensure h size).put h c = w.put h c := by
  unfold ensure
  split
  case isTrue => rfl
  case isFalse => simp [put]

-- The copies of all objects are copies of whole objects.
def Whole (w : World) : Prop :=
  ∀ h c, w.copies h = some c → c.bytes.length = (w.host h).length

namespace Whole

theorem put (hw : w.Whole) {c : Copy} (hc : c.bytes.length = (w.host h).length) :
    (w.put h c).Whole := by
  intro other c' hc'
  by_cases hne : other = h
  case pos =>
    subst hne
    rw [copies_put_self] at hc'
    cases hc'
    exact hc
  case neg =>
    rw [copies_put_of_ne hne] at hc'
    exact hw other c' hc'

theorem length_view (hw : w.Whole) (h : Handle) : (w.view h).length = (w.host h).length := by
  unfold view
  split
  case h_1 c hc => exact hw h c hc
  case h_2 => exact Bytes.zeros_length _

theorem leave (hw : w.Whole) (t : Task) {results : List Bytes}
    (hlengths : results.map List.length = t.arguments.map fun a => (w.view a.object.handle).length) :
    (w.leave t results).Whole := by
  intro h c hc
  simp only [World.leave] at hc
  split at hc
  case h_1 => exact hw h c hc
  case h_2 place hplace =>
    cases hc
    obtain ⟨hlt, hhandle, _⟩ := List.findIdx?_eq_some_iff_getElem.mp hplace
    have hhandle : t.arguments[place].object.handle = h := by simpa using hhandle
    have hget := congrArg (·[place]?) hlengths
    simp only [List.getElem?_map, List.getElem?_eq_getElem hlt, Option.map_some, hhandle,
      hw.length_view] at hget
    obtain ⟨bytes, hbytes, hlength⟩ := Option.map_eq_some_iff.mp hget
    simp only [List.getD_eq_getElem?_getD, hbytes, Option.getD_some]
    exact hlength

theorem update_host (hw : w.Whole) {bytes : Bytes} (hbytes : bytes.length = (w.host h).length) :
    ({ w with host := Function.update w.host h bytes } : World).Whole := by
  intro other c hc
  change _ = (Function.update w.host h bytes other).length
  rw [hw other c hc]
  by_cases hne : other = h
  case pos => rw [hne, Function.update_self, hbytes]
  case neg => rw [Function.update_of_ne hne]

theorem copyFrom (hw : w.Whole) (o : HostObject) (t : Numeric) (data : Bytes) :
    (w.copyFrom o t data).Whole := by
  unfold World.copyFrom
  split
  case h_1 => exact hw
  case h_2 =>
    split
    case isTrue hlength => exact hw.update_host hlength
    case isFalse => exact hw

theorem give_up (w : World) : ({ w with copies := fun _ => none } : World).Whole :=
  nofun

end Whole

theorem Setup.run_lengths {u : Setup} {t : Task} {threads : Nat} {contents results : List Bytes}
    (h : u.run t threads contents = some results) :
    results.map List.length = contents.map List.length := by
  unfold Setup.run at h
  split at h
  case h_2 => cases h
  case h_1 name kernel geometry _ _ =>
    have hlengths := Script.run_lengths (kernel { geometry, arguments := contents }) contents
    split at h
    case h_2 => cases h
    case h_1 hrun =>
      cases h
      rwa [hrun] at hlengths

-- Some objects that had no copy got one of zeros.
structure Opened (handles : List Handle) (w w' : World) : Prop where
  host   : w'.host = w.host
  view   : w'.view = w.view
  filled : ∀ h, (w'.copies h).any Copy.filled = (w.copies h).any Copy.filled
  others : ∀ h, h ∉ handles → w'.copies h = w.copies h
  whole  : w.Whole → w'.Whole

theorem opened_provide (hw : w.Whole) (a : Argument) :
    Opened [a.object.handle] w (w.provide 0 a) := by
  have hsize : w.argumentSize a.object 0 = (w.host a.object.handle).length := by
    unfold argumentSize
    split <;> rfl
  unfold provide
  rw [hsize]
  cases hc : w.copies a.object.handle with
  | some c =>
    have hsame := ensure_of_fits hc (hw _ c hc)
    rw [hsame, ite_self]
    exact ⟨rfl, rfl, fun _ => rfl, fun _ _ => rfl, id⟩
  | none =>
    rw [if_neg (by simp), ensure_of_differs (by simp [hc])]
    refine ⟨rfl, funext fun h => ?_, fun h => ?_, fun h hh => ?_,
      fun hw => hw.put (Bytes.zeros_length _)⟩
    case refine_1 =>
      by_cases hne : h = a.object.handle
      case pos => simp only [hne, view, copies_put_self, hc]
      case neg => simp only [view, copies_put_of_ne hne, host_put]
    case refine_2 =>
      by_cases hne : h = a.object.handle
      case pos => simp [hne, copies_put_self, hc]
      case neg => rw [copies_put_of_ne hne]
    case refine_3 => exact copies_put_of_ne (by simpa using hh) _ _

theorem opened_provides (hw : w.Whole) (arguments : List Argument) :
    Opened (arguments.map (·.object.handle)) w (arguments.foldl (provide 0) w) := by
  induction arguments generalizing w with
  | nil => exact ⟨rfl, rfl, fun _ => rfl, fun _ _ => rfl, id⟩
  | cons a arguments ih =>
    have hfirst := opened_provide hw a
    have hrest := ih (hfirst.whole hw)
    refine ⟨hrest.host.trans hfirst.host, hrest.view.trans hfirst.view,
      fun h => (hrest.filled h).trans (hfirst.filled h), fun h hh => ?_,
      fun hw => hrest.whole (hfirst.whole hw)⟩
    rw [List.map_cons, List.mem_cons, not_or] at hh
    exact (hrest.others h hh.2).trans (hfirst.others h (by simpa using hh.1))

theorem leave_of_opened {t : Task} (h : Opened (t.arguments.map (·.object.handle)) w w')
    (results : List Bytes) : w'.leave t results = w.leave t results := by
  refine World.ext h.host (funext fun k => ?_)
  simp only [leave, h.filled]
  split
  case h_2 => rfl
  case h_1 hnone =>
    refine h.others k fun hk => ?_
    obtain ⟨a, ha, rfl⟩ := List.mem_map.mp hk
    simpa using List.findIdx?_eq_none_iff.mp hnone a ha

theorem windowStep_of_alike {s s' : Step} (h : s.Alike s') (u : Setup) (p : Pass) (w : World) :
    w.windowStep u p s = w.windowStep u p s' := by
  cases s <;> cases s' <;> try exact h.elim
  case streamIn.streamIn o o' => simp only [windowStep, show o.handle = o'.handle from h]
  case task.task t t' => rw [show t = t' from h]
  case streamOut.streamOut o o' => simp only [windowStep, show o.handle = o'.handle from h]

theorem windows_of_alike {work work' : List (Pass × Step)}
    (h : List.Forall₂ (fun x y => x.1 = y.1 ∧ x.2.Alike y.2) work work') (u : Setup) (w : World) :
    w.windows u work = w.windows u work' := by
  induction h generalizing w with
  | nil => rfl
  | cons halike _ ih =>
    simp only [windows, halike.1, windowStep_of_alike halike.2]
    split
    case h_1 w' _ => exact ih w'
    case h_2 => rfl

-- On whole objects a step does to the window of a pass what it does by itself.
theorem windowStep_whole (hw : w.Whole) (u : Setup) (s : Step) :
    w.windowStep u .whole s = w.step u s ∧ ∀ w', w.step u s = .ok w' → w'.Whole := by
  cases s with
  | streamIn o =>
    have hsize : w.transferSize o.handle Pass.whole.length = (w.host o.handle).length := rfl
    have hwindow : Bytes.window 0 (w.host o.handle).length (w.host o.handle) = w.host o.handle := by
      simp [Bytes.window]
    refine ⟨?_, fun w' h => ?_⟩
    case refine_1 =>
      simp only [windowStep, hsize]
      rw [if_pos (by simp [Pass.whole]), show Pass.whole.offset = 0 from rfl, hwindow]
      rfl
    case refine_2 =>
      cases h
      exact hw.put rfl
  | task t =>
    have hopened := opened_provides hw t.arguments
    refine ⟨?_, fun w' h => ?_⟩
    case refine_1 =>
      simp only [windowStep, step, show Pass.whole.threads = 0 from rfl, hopened.view,
        leave_of_opened hopened]
    case refine_2 =>
      simp only [step] at h
      split at h
      case h_2 => cases h
      case h_1 results hrun =>
        cases h
        have hlengths := Setup.run_lengths hrun
        rw [List.map_map] at hlengths
        exact hw.leave t hlengths
  | streamOut o =>
    have hsize : w.transferSize o.handle Pass.whole.length = (w.host o.handle).length := rfl
    simp only [windowStep, step, hsize, show Pass.whole.offset = 0 from rfl]
    split
    case h_2 => exact ⟨rfl, fun _ herror => by cases herror⟩
    case h_1 bytes hc =>
      have hlength := hw o.handle _ hc
      have hoverlay : Bytes.overlayAt 0 (bytes.take (w.host o.handle).length) (w.host o.handle) = bytes := by
        simp [Bytes.overlayAt, Bytes.overlay, ← hlength]
      refine ⟨?_, fun w' h => ?_⟩
      case refine_1 => rw [if_neg (by simp [hlength]), hoverlay]
      case refine_2 =>
        cases h
        exact hw.update_host hlength

theorem windows_whole (hw : w.Whole) (u : Setup) (steps : List Step) :
    w.windows u (steps.map (Pass.whole, ·)) = w.run u steps ∧ (w.run u steps).2.Whole := by
  induction steps generalizing w with
  | nil => exact ⟨rfl, hw⟩
  | cons s steps ih =>
    obtain ⟨hstep, hwhole⟩ := windowStep_whole hw u s
    simp only [List.map_cons, windows, run, hstep]
    cases hnext : w.step u s with
    | error stop => exact ⟨rfl, Whole.give_up w⟩
    | ok w' => exact ih (hwhole w' hnext)

end World
end Offload
