import Offload.Proofs.Kernels
import Offload.Proofs.Ordinary
import Offload.Proofs.Yard

/-!
Kernels that are remembered. A device is given kernels whenever somebody likes, new ones and others in the place of
old ones, and a context that found a kernel once does not ask again. It might as well: what it remembers is where
the kernel of that name is, and no name ever moves.
-/

namespace Offload

namespace Device

variable {d : Device} {name other : String} {kernel : Kernel} {place : Nat}

-- The kernel that the device has under a name.
def kernel? (d : Device) (name : String) : Option Kernel :=
  (d.lookup? name).bind fun place => d.kernels[place]?.map Prod.snd

theorem lookup?_eq_names (d : Device) (name : String) :
    d.lookup? name = (d.kernels.map Prod.fst).findIdx? (· == name) := by
  rw [List.findIdx?_map]
  rfl

theorem lookup?_ok (h : d.lookup? name = some place) : ∃ kernel, d.kernels[place]? = some (name, kernel) := by
  obtain ⟨hlt, hname, -⟩ := List.findIdx?_eq_some_iff_getElem.mp h
  rw [beq_iff_eq] at hname
  exact ⟨d.kernels[place].2, by rw [List.getElem?_eq_getElem hlt, ← hname]⟩

theorem kernel?_eq_none : d.kernel? name = none ↔ d.lookup? name = none := by
  unfold kernel?
  cases hlookup : d.lookup? name with
  | none => simp
  | some place =>
    obtain ⟨kernel, hkernel⟩ := lookup?_ok hlookup
    simp [hkernel]

theorem kernel?_eq_some : d.kernel? name = some kernel ↔
    ∃ place, d.lookup? name = some place ∧ d.kernels[place]? = some (name, kernel) := by
  unfold kernel?
  cases hlookup : d.lookup? name with
  | none => simp
  | some place =>
    obtain ⟨found, hfound⟩ := lookup?_ok hlookup
    simp [hfound]

theorem kernel?_of_same {d' : Device} (h : d.Same d') : d.kernel? name = d'.kernel? name := by
  have hkernels : d.kernels = d'.kernels := congrArg Make.kernels h.symm
  rw [kernel?, kernel?, lookup?, lookup?, hkernels]

-- A kernel in the place of another one.
theorem install_of_lookup? (h : d.lookup? name = some place) (kernel : Kernel) :
    (d.install name kernel).2 = { d with kernels := d.kernels.set place (name, kernel) } := by
  have hfind : d.kernels.findIdx? (·.1 == name) = some place := h
  rw [install, hfind]

-- A kernel of a new name.
theorem install_of_none (h : d.lookup? name = none) (kernel : Kernel) :
    (d.install name kernel).2 = { d with kernels := d.kernels ++ [(name, kernel)] } := by
  have hfind : d.kernels.findIdx? (·.1 == name) = none := h
  rw [install, hfind]

theorem mem_install {x : String × Kernel} (hx : x ∈ (d.install name kernel).2.kernels) :
    x ∈ d.kernels ∨ x = (name, kernel) := by
  cases hlookup : d.lookup? name with
  | none =>
    rw [install_of_none hlookup] at hx
    simpa using hx
  | some place =>
    rw [install_of_lookup? hlookup] at hx
    exact List.mem_or_eq_of_mem_set hx

-- No name moves.
theorem lookup?_install (h : d.lookup? other = some place) (name : String) (kernel : Kernel) :
    (d.install name kernel).2.lookup? other = some place := by
  cases hlookup : d.lookup? name with
  | none =>
    have hfind : d.kernels.findIdx? (·.1 == other) = some place := h
    rw [install_of_none hlookup, lookup?, List.findIdx?_append, hfind]
    rfl
  | some taken =>
    obtain ⟨old, hold⟩ := lookup?_ok hlookup
    obtain ⟨hlt, hget⟩ := List.getElem?_eq_some_iff.mp hold
    have hlt' : taken < (d.kernels.map Prod.fst).length := by simpa using hlt
    have hname : (d.kernels.map Prod.fst)[taken] = name := by simp [hget]
    have hnames : (d.kernels.set taken (name, kernel)).map Prod.fst = d.kernels.map Prod.fst := by
      rw [List.map_set, ← hname, List.set_getElem_self]
    rw [install_of_lookup? hlookup, lookup?_eq_names, hnames, ← lookup?_eq_names, h]

theorem kernel?_install_self (d : Device) (name : String) (kernel : Kernel) :
    (d.install name kernel).2.kernel? name = some kernel := by
  rw [kernel?_eq_some]
  cases hlookup : d.lookup? name with
  | none =>
    have hfind : d.kernels.findIdx? (·.1 == name) = none := hlookup
    rw [install_of_none hlookup]
    exact ⟨d.kernels.length, by simp [lookup?, List.findIdx?_append, hfind], by simp⟩
  | some place =>
    obtain ⟨old, hold⟩ := lookup?_ok hlookup
    obtain ⟨hlt, -⟩ := List.getElem?_eq_some_iff.mp hold
    refine ⟨place, lookup?_install hlookup name kernel, ?_⟩
    rw [install_of_lookup? hlookup]
    exact List.getElem?_set_self hlt

theorem kernel?_install_ne (d : Device) (kernel : Kernel) (h : other ≠ name) :
    (d.install name kernel).2.kernel? other = d.kernel? other := by
  cases hother : d.lookup? other with
  | some place =>
    obtain ⟨found, hfound⟩ := lookup?_ok hother
    have hthere : (d.install name kernel).2.kernels[place]? = some (other, found) := by
      cases hlookup : d.lookup? name with
      | none =>
        rw [install_of_none hlookup]
        exact (List.getElem?_append_left (List.getElem?_eq_some_iff.mp hfound).1).trans hfound
      | some taken =>
        obtain ⟨old, hold⟩ := lookup?_ok hlookup
        have hne : taken ≠ place := by
          rintro rfl
          cases hold.symm.trans hfound
          exact h rfl
        rw [install_of_lookup? hlookup]
        exact (List.getElem?_set_ne hne).trans hfound
    rw [kernel?, lookup?_install hother, kernel?, hother, Option.bind_some, Option.bind_some, hthere, hfound]
  | none =>
    have hstill : (d.install name kernel).2.lookup? other = none := by
      refine List.findIdx?_eq_none_iff.mpr fun x hx => ?_
      rcases mem_install hx with hold | rfl
      case inl => exact List.findIdx?_eq_none_iff.mp hother x hold
      case inr => exact beq_eq_false_iff_ne.mpr h.symm
    rw [kernel?_eq_none.mpr hother, kernel?_eq_none.mpr hstill]

section
variable {id : Nat} {ids : List BufferId} {geometry : Geometry} {wait : List EventId}

-- A launch of a kernel that needs no finding.
def runKernel (code : Kernel) (ids : List BufferId) (geometry : Geometry) (wait : List EventId) :
    Action Device EventId := do
  let (event, _) ← perform wait false fun m =>
    match m.run code ids geometry with
    | (none, m) => (.ok (), m)
    | (some fault, m) => (.error fault, m)
  return event

theorem launch_of_kernel (h : d.kernels[id]? = some (name, kernel)) :
    launch id ids geometry wait d = runKernel kernel ids geometry wait d := by
  unfold launch
  rw [Action.bind_of_ok (Action.get_apply d), h]
  rfl

theorem ordinary_runKernel (code : Kernel) (ids : List BufferId) (geometry : Geometry) (wait : List EventId) :
    (runKernel code ids geometry wait).Ordinary :=
  .bind (ordinary_perform _ _ _) fun _ => .pure _

end
end Device

namespace Channel

-- A launch of kernel `id` that runs `code`.
def runKernel (id : Nat) (code : Kernel) (ids : List BufferId) (geometry : Geometry) (wait : List EventId) :
    Action Channel EventId :=
  noting (.launch id ids geometry wait) (Device.runKernel code ids geometry wait)

theorem launch_of_kernel {p : Channel} {id : Nat} {name : String} {code : Kernel} {ids : List BufferId}
    {geometry : Geometry} {wait : List EventId} (h : p.device.kernels[id]? = some (name, code)) :
    launch id ids geometry wait p = runKernel id code ids geometry wait p := by
  rw [launch, runKernel, noting, noting, Device.launch_of_kernel h]

theorem ordinary_runKernel (id : Nat) (code : Kernel) (ids : List BufferId) (geometry : Geometry)
    (wait : List EventId) : (runKernel id code ids geometry wait).Ordinary :=
  ordinary_noting (Device.ordinary_runKernel code ids geometry wait)

end Channel

namespace Context

variable {s u : Hosted Context}

-- The devices are what they were, and what was found out about them remains right.
structure Learns (s t : Hosted Context) : Prop where
  same    : ∀ place, (s.device place).Same (t.device place)
  learned : Learned s → Learned t

theorem learns_of_grown {c : Context} (h : Grown s.part c) (hkernels : c.kernels = s.part.kernels) :
    Learns s ⟨s.platform, c⟩ :=
  ⟨fun _ => rfl, fun hlearned => hlearned.mono (fun _ => rfl) h.devices h.tasks hkernels⟩

theorem Schooled.learns (h : Schooled s u) : Learns s u :=
  ⟨h.same, h.learned⟩

theorem learns_perform (errand : Errand) : (perform errand).Keeps Learns := by
  intro s
  have hR := schooled_lasting
  cases errand with
  | bind o => exact learns_of_grown (s.part.grown_bind o) (building_unlearned.bind _ o)
  | addTask t => exact learns_of_grown (s.part.grown_addTask t) (building_unlearned.addTask _ t trivial)
  | execute program config =>
    have hexecute (m : Machine) : (discard m.execute).Keeps Schooled :=
      .bind hR m.schooled_execute fun _ => .pure hR _
    exact Schooled.learns (Action.Keeps.bind hR (.lift hR (Machine.create program config)) hexecute s)
  | sync objects => exact (schooled_sync objects s).learns
  | invalidate => exact (schooled_invalidate s).learns

end Context

namespace Machine

open Context

variable {m : Machine} {s : Hosted Context} {device place : Nat}

-- A launch depends on nothing but what the device does when asked.
theorem launchBy_congr {call call' : List BufferId → Geometry → Action Channel EventId}
    (hdevice : s.part.devices[device]? = some place)
    (hcall : ∀ ids geometry p, (s.platform.channel place).Same p → call ids geometry p = call' ids geometry p)
    (task offset threads : Nat) :
    m.launchBy call task device offset threads s = m.launchBy call' task device offset threads s := by
  refine Action.get_bind_congr (Action.lift_bind_congr fun _ => Action.get_bind_congr
    (Action.lift_bind_congr fun task => Action.bind_congr rfl fun ids u hids => ?_))
  have hschooled : Schooled s u :=
    (Action.Keeps.mapM schooled_lasting (schooled_argumentBuffer device threads) task.arguments).of_eq hids
  refine Action.get_bind_congr (Action.lift_bind_congr fun geometry => ?_)
  have hdevice' : u.part.devices[device]? = some place := hschooled.devices ▸ hdevice
  refine Action.bind_congr ?_ fun _ _ _ => rfl
  rw [onDevice_eq hdevice', onDevice_eq hdevice', hcall ids geometry _ (hschooled.same place)]

-- A LAUNCH once its kernel is found.
def issueBy (m : Machine) (call : List BufferId → Geometry → Action Channel EventId) (index : Nat) (r : Run)
    (task device : Nat) (wait : Option Nat) (offset threads : Nat) : On Run := do
  let event ← m.launchBy call task device offset threads
  m.record (r.consume wait) index (some event)

variable {index task kernel offset threads : Nat} {r : Run} {wait : Option Nat} {u : Hosted Context} {e : Error}

theorem step_launch_of_ok (h : Context.kernel device task s = (.ok kernel, u)) :
    m.step index (.launch task device wait offset threads) r s = m.issueBy
      (fun ids geometry => Channel.launch kernel ids geometry (r.waiting wait)) index r task device wait offset
      threads u :=
  Action.bind_congr ((congrFun (m.launch_eq task device offset threads _) s).trans (Action.bind_of_ok h))
    fun _ _ _ => rfl

theorem step_launch_of_error (h : Context.kernel device task s = (.error e, u)) :
    m.step index (.launch task device wait offset threads) r s = (.error e, u) :=
  Action.bind_of_error ((congrFun (m.launch_eq task device offset threads _) s).trans (Action.bind_of_error h))

theorem issueBy_congr {call call' : List BufferId → Geometry → Action Channel EventId}
    (hdevice : s.part.devices[device]? = some place)
    (hcall : ∀ ids geometry p, (s.platform.channel place).Same p → call ids geometry p = call' ids geometry p) :
    m.issueBy call index r task device wait offset threads s =
      m.issueBy call' index r task device wait offset threads s :=
  Action.bind_congr (launchBy_congr hdevice hcall task offset threads) fun _ _ _ => rfl

theorem ordinary_issueBy {call : List BufferId → Geometry → Action Channel EventId}
    (hcall : ∀ ids geometry, (call ids geometry).Ordinary) :
    (m.issueBy call index r task device wait offset threads).Ordinary :=
  .bind (ordinary_launchBy hcall _ _ _ _) fun _ => m.ordinary_record _ _

end Machine

-- A context at work, while its devices are given kernels; the ledger has every kernel that was given, the latest
-- first.
structure Workshop where
  hosted : Hosted Context
  ledger : List ((Nat × String) × Kernel) := []

namespace Workshop

open Context

-- An execution issues one instruction after the other, and other things may happen in between.
inductive Happening
  | register (place : Nat) (name : String) (kernel : Kernel)
  | attach (place : Nat)
  | errand (errand : Errand)
  | issue (m : Machine) (index : Nat) (i : Instruction) (r : Run)

-- The kernel that is registered on a device under a name.
def registered (w : Workshop) (place : Nat) (name : String) : Option Kernel :=
  w.ledger.lookup (place, name)

def register (place : Nat) (name : String) (kernel : Kernel) : On Nat :=
  Hosted.onPlatform (Platform.onChannel place (Channel.directly (modifyGet fun d => d.install name kernel)))

def step (w : Workshop) : Happening → Workshop
  | .register place name kernel =>
    if place < w.hosted.platform.channels.length then
      { hosted := (register place name kernel w.hosted).2, ledger := ((place, name), kernel) :: w.ledger }
    else w
  | .attach place => { w with hosted := { w.hosted with part := (w.hosted.part.addDevice place).2 } }
  | .errand errand => { w with hosted := (perform errand w.hosted).2 }
  | .issue m index i r => { w with hosted := (m.step index i r w.hosted).2 }

def run (w : Workshop) (happenings : List Happening) : Workshop :=
  happenings.foldl step w

-- No device has a kernel yet.
structure Fresh (w : Workshop) : Prop where
  ledger : w.ledger = []
  bare   : ∀ channel ∈ w.hosted.platform.channels, channel.device.kernels = []
  unread : w.hosted.part.kernels = []

-- What is remembered is right, and every device has the kernels that it was given.
structure Sound (w : Workshop) : Prop where
  learned : Learned w.hosted
  current : ∀ place name, (w.hosted.device place).kernel? name = w.registered place name

variable {w : Workshop} {place other : Nat} {name : String} {kernel : Kernel}

theorem step_register (hplace : place < w.hosted.platform.channels.length) (name : String) (kernel : Kernel) :
    (w.step (.register place name kernel)).hosted = (register place name kernel w.hosted).2 :=
  congrArg Workshop.hosted (if_pos hplace)

theorem step_register_nowhere (hplace : ¬place < w.hosted.platform.channels.length) (name : String)
    (kernel : Kernel) : w.step (.register place name kernel) = w :=
  if_neg hplace

theorem registered_register (hplace : place < w.hosted.platform.channels.length) (name : String)
    (kernel : Kernel) (asked : String) : (w.step (.register place name kernel)).registered other asked =
      if (other, asked) = (place, name) then some kernel else w.registered other asked := by
  simp only [step, if_pos hplace, registered, List.lookup_cons]
  by_cases hkey : (other, asked) = (place, name)
  case pos => rw [if_pos hkey, beq_iff_eq.mpr hkey]
  case neg => rw [if_neg hkey, beq_false_of_ne hkey]

theorem device_register (hplace : place < w.hosted.platform.channels.length) (name : String) (kernel : Kernel) :
    (register place name kernel w.hosted).2.device place = ((w.hosted.device place).install name kernel).2 :=
  Hosted.device_setChannel hplace _

theorem device_register_ne (hne : place ≠ other) (name : String) (kernel : Kernel) (s : Hosted Context) :
    (register place name kernel s).2.device other = s.device other :=
  congrArg Channel.device (Platform.channel_setChannel_ne hne _)

theorem lookup?_register (hplace : place < w.hosted.platform.channels.length) {asked : String} {found : Nat}
    (h : (w.hosted.device other).lookup? asked = some found) (name : String) (kernel : Kernel) :
    ((register place name kernel w.hosted).2.device other).lookup? asked = some found := by
  by_cases hother : place = other
  case pos =>
    subst hother
    rw [device_register hplace]
    exact Device.lookup?_install h name kernel
  case neg => rwa [device_register_ne hother]

theorem kernel?_register (hplace : place < w.hosted.platform.channels.length) (name : String) (kernel : Kernel)
    (asked : String) : ((register place name kernel w.hosted).2.device other).kernel? asked =
      if (other, asked) = (place, name) then some kernel else (w.hosted.device other).kernel? asked := by
  by_cases hother : place = other
  case neg =>
    rw [device_register_ne hother, if_neg fun h => hother (Prod.mk.inj h).1.symm]
  case pos =>
    subst hother
    rw [device_register hplace]
    by_cases hasked : asked = name
    case pos => rw [hasked, if_pos rfl, Device.kernel?_install_self]
    case neg => rw [if_neg fun h => hasked (Prod.mk.inj h).2, Device.kernel?_install_ne _ _ hasked]

theorem Sound.learns (h : w.Sound) {s : Hosted Context} (hlearns : Learns w.hosted s) :
    Sound { w with hosted := s } := by
  refine ⟨hlearns.learned h.learned, fun place name => ?_⟩
  rw [← Device.kernel?_of_same (hlearns.same place)]
  exact h.current place name

theorem step_sound (h : w.Sound) (happening : Happening) : (w.step happening).Sound := by
  cases happening with
  | errand errand => exact h.learns (learns_perform errand w.hosted)
  | issue m index i r => exact h.learns (m.schooled_step index i r w.hosted).learns
  | attach place =>
    refine ⟨fun x hx => ?_, h.current⟩
    obtain ⟨found, t, hfound, ht, hlookup⟩ := h.learned x hx
    exact ⟨found, t, (List.getElem?_append_left (List.getElem?_eq_some_iff.mp hfound).1).trans hfound, ht, hlookup⟩
  | register place name kernel =>
    by_cases hplace : place < w.hosted.platform.channels.length
    case neg => rwa [step_register_nowhere hplace]
    case pos =>
      -- a kernel keeps its number when it is replaced, so that what is remembered still leads to it
      have hhosted := step_register hplace name kernel
      refine ⟨hhosted ▸ fun x hx => ?_, fun other asked => ?_⟩
      case refine_1 =>
        obtain ⟨found, t, hfound, ht, hlookup⟩ := h.learned x hx
        exact ⟨found, t, hfound, ht, lookup?_register hplace hlookup name kernel⟩
      case refine_2 => rw [hhosted, kernel?_register hplace, registered_register hplace, h.current]

-- No name moves, whatever happens.
theorem lookup?_step {id : Nat} (h : (w.hosted.device place).lookup? name = some id) (happening : Happening) :
    ((w.step happening).hosted.device place).lookup? name = some id := by
  have hsame {d : Device} (hd : (w.hosted.device place).Same d) : d.lookup? name = some id := by
    rwa [Device.lookup?_eq, hd, ← Device.lookup?_eq]
  cases happening with
  | errand errand => exact hsame ((learns_perform errand w.hosted).same place)
  | issue m index i r => exact hsame ((m.schooled_step index i r w.hosted).same place)
  | attach => exact h
  | register other asked kernel =>
    by_cases hother : other < w.hosted.platform.channels.length
    case pos => rw [step_register hother]; exact lookup?_register hother h asked kernel
    case neg => rwa [step_register_nowhere hother]

theorem lookup?_run {id : Nat} (h : (w.hosted.device place).lookup? name = some id) (happenings : List Happening) :
    ((w.run happenings).hosted.device place).lookup? name = some id := by
  induction happenings generalizing w with
  | nil => exact h
  | cons happening happenings ih => exact ih (lookup?_step h happening)

theorem run_sound (h : w.Sound) (happenings : List Happening) : (w.run happenings).Sound := by
  induction happenings generalizing w with
  | nil => exact h
  | cons happening happenings ih => exact ih (step_sound h happening)

theorem Fresh.sound (h : w.Fresh) : w.Sound := by
  refine ⟨fun x hx => ?_, fun place name => ?_⟩
  case refine_1 =>
    rw [h.unread] at hx
    cases hx
  case refine_2 =>
    have hbare : (w.hosted.device place).kernels = [] :=
      Platform.forall_channel (Q := fun c => c.device.kernels = []) rfl h.bare place
    have hmissing : (w.hosted.device place).lookup? name = none := by
      rw [Device.lookup?, hbare]
      rfl
    rw [registered, h.ledger, Device.kernel?_eq_none.mpr hmissing]
    rfl

-- A search that is over remains right, whatever happens, and is as good as a new one.
theorem launch_of_found (h : w.Sound) {id : Nat} (hfound : (w.hosted.device place).lookup? name = some id)
    (happenings : List Happening) : ∃ code, (w.run happenings).registered place name = some code ∧
      ∀ ids geometry wait, Channel.launch id ids geometry wait ((w.run happenings).hosted.platform.channel place) =
        Channel.runKernel id code ids geometry wait ((w.run happenings).hosted.platform.channel place) := by
  obtain ⟨code, hcode⟩ := Device.lookup?_ok (lookup?_run hfound happenings)
  refine ⟨code, ?_, fun _ _ _ => Channel.launch_of_kernel hcode⟩
  rw [← (run_sound h happenings).current]
  exact Device.kernel?_eq_some.mpr ⟨id, lookup?_run hfound happenings, hcode⟩

-- The states that an execution goes through are states of the workshop.
theorem run_of_reaches {m : Machine} {k : Nat} {is : List Instruction} {r r' : Run} {t : Hosted Context}
    (h : m.Reaches k is r w.hosted r' t) : ∃ happenings,
      (∀ happening ∈ happenings, ∃ index i r, happening = .issue m index i r) ∧
        w.run happenings = { w with hosted := t } := by
  generalize hs : w.hosted = s at h
  induction h generalizing w with
  | done =>
    subst hs
    exact ⟨[], nofun, rfl⟩
  | @step k i is r r' r'' s s' s'' hstep hrest ih =>
    subst hs
    have hfirst : w.step (.issue m k i r) = { w with hosted := s' } := by rw [step, hstep]
    obtain ⟨happenings, hissues, hrun⟩ := ih (w := { w with hosted := s' }) rfl
    refine ⟨.issue m k i r :: happenings, List.forall_mem_cons.mpr ⟨⟨k, i, r, rfl⟩, hissues⟩, ?_⟩
    rw [run, List.foldl_cons, hfirst]
    exact hrun

-- Whenever a LAUNCH is issued, it runs the kernel that is registered then, which is the one that a search would
-- find; only if there is none does it fail for want of a kernel.
theorem launch_current (hfresh : w.Fresh) (happenings : List Happening) {v : Workshop}
    (hv : w.run happenings = v) {device task : Nat} {t : Task}
    (hdevice : v.hosted.part.devices[device]? = some place) (ht : v.hosted.part.tasks[task]? = some t)
    (m : Machine) (index : Nat) (r : Run) (wait : Option Nat) (offset threads : Nat) :
    (v.hosted.device place).kernel? t.kernel = v.registered place t.kernel ∧
      (∀ code, v.registered place t.kernel = some code → ∃ id u,
        (v.hosted.device place).lookup? t.kernel = some id ∧ Asks v.hosted u ∧
          m.step index (.launch task device wait offset threads) r v.hosted = m.issueBy
            (fun ids geometry => Channel.runKernel id code ids geometry (r.waiting wait)) index r task device wait
            offset threads u) ∧
      (v.registered place t.kernel = none → ∃ u, Asks v.hosted u ∧
        m.step index (.launch task device wait offset threads) r v.hosted =
          (.error (.config (.missingKernel t.kernel (v.hosted.device place).name)), u)) ∧
      ((∃ missing name, (m.step index (.launch task device wait offset threads) r v.hosted).1 =
        .error (.config (.missingKernel missing name))) ↔ v.registered place t.kernel = none) := by
  have hsound : v.Sound := hv ▸ run_sound hfresh.sound happenings
  have hcurrent := hsound.current place t.kernel
  obtain ⟨u, hasks, hkernel⟩ := kernel_eq hsound.learned hdevice ht
  have hsome (code : Kernel) (hcode : v.registered place t.kernel = some code) : ∃ id u,
      (v.hosted.device place).lookup? t.kernel = some id ∧ Asks v.hosted u ∧
        m.step index (.launch task device wait offset threads) r v.hosted = m.issueBy
          (fun ids geometry => Channel.runKernel id code ids geometry (r.waiting wait)) index r task device wait
          offset threads u := by
    obtain ⟨id, hlookup, hinstalled⟩ := Device.kernel?_eq_some.mp (hcurrent.trans hcode)
    rw [hlookup] at hkernel
    have hdevice' : u.part.devices[device]? = some place := by rwa [hasks.part]
    refine ⟨id, u, hlookup, hasks, (Machine.step_launch_of_ok hkernel).trans ?_⟩
    refine Machine.issueBy_congr hdevice' fun ids geometry p hsame => ?_
    have hkernels : p.device.kernels = (v.hosted.device place).kernels :=
      (congrArg Make.kernels hsame).trans (congrArg Device.kernels (hasks.device place))
    have hthere : p.device.kernels[id]? = some (t.kernel, code) := hkernels ▸ hinstalled
    exact Channel.launch_of_kernel hthere
  have hnone (hmissing : v.registered place t.kernel = none) : ∃ u, Asks v.hosted u ∧
      m.step index (.launch task device wait offset threads) r v.hosted =
        (.error (.config (.missingKernel t.kernel (v.hosted.device place).name)), u) := by
    rw [Device.kernel?_eq_none.mp (hcurrent.trans hmissing)] at hkernel
    exact ⟨u, hasks, Machine.step_launch_of_error hkernel⟩
  refine ⟨hcurrent, hsome, hnone, fun ⟨missing, name, hfails⟩ => ?_, fun hmissing => ?_⟩
  case refine_2 =>
    obtain ⟨u, -, hstep⟩ := hnone hmissing
    exact ⟨_, _, congrArg Prod.fst hstep⟩
  case refine_1 =>
    cases hcode : v.registered place t.kernel with
    | none => rfl
    | some code =>
      obtain ⟨id, u, -, -, hstep⟩ := hsome code hcode
      rw [hstep] at hfails
      have hcall (ids : List BufferId) (geometry : Geometry) :=
        Channel.ordinary_runKernel id code ids geometry (r.waiting wait)
      exact (Machine.ordinary_issueBy hcall u _ hfails).elim

-- One device and one task, which an execution launches.
def stall : Workshop where
  hosted := {
    platform := { channels := [{ device := { limits := { computeUnits := 1 }, threadName := "queue" } }] }
    part := { name := "stall", devices := [0], tasks := [⟨"count", "tally", [], [4], false⟩] } }

def tallying : Program where
  code := [.begin 0 1 0, .context 0, .launch 0 0 none 0 0, .finish].flatMap Instruction.encoding
  lists := []

-- The kernel is found in the execution, and replaced after it.
def stallDay : List Happening :=
  [.register 0 "tally" Kernel.idle, .errand (.execute tallying {}), .register 0 "tally" Kernel.crashing]

theorem stall_replaced : (stall.run stallDay).hosted.part.kernels = [((0, 0), 0)] ∧ ∃ id u,
    ((stall.run stallDay).hosted.device 0).lookup? "tally" = some id ∧ Asks (stall.run stallDay).hosted u ∧
      (⟨tallying, [], {}, false⟩ : Machine).step 2 (.launch 0 0 none 0 0) { lists := [], states := [] }
        (stall.run stallDay).hosted = Machine.issueBy ⟨tallying, [], {}, false⟩
          (fun ids geometry => Channel.runKernel id Kernel.crashing ids geometry []) 2 { lists := [], states := [] } 0 0
          none 0 0 u := by
  have hremembered : (stall.run stallDay).hosted.part.kernels = [((0, 0), 0)] := by decide +kernel
  have hfresh : stall.Fresh := ⟨rfl, by simp [stall], rfl⟩
  have hdevice : (stall.run stallDay).hosted.part.devices[0]? = some 0 := by decide +kernel
  have htask : (stall.run stallDay).hosted.part.tasks[0]? = some ⟨"count", "tally", [], [4], false⟩ := by
    decide +kernel
  have hplace : 0 < (stall.run (stallDay.take 2)).hosted.platform.channels.length := by decide +kernel
  have hregistered : (stall.run stallDay).registered 0 "tally" = some Kernel.crashing :=
    (registered_register hplace "tally" Kernel.crashing "tally").trans (if_pos rfl)
  have hcurrent := launch_current hfresh stallDay rfl hdevice htask ⟨tallying, [], {}, false⟩ 2
    { lists := [], states := [] } none 0 0
  exact ⟨hremembered, hcurrent.2.1 Kernel.crashing hregistered⟩

end Workshop
end Offload
