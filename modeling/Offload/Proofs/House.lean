import Offload.Kernel.Named
import Offload.Proofs.Growth

/-!
Houses: contexts that live together on one platform, each with graphs and machines of its own. Whatever
they do, and in whatever order, the buffers on the devices are those that the contexts have on record.
-/

namespace Offload

-- A context, with the graphs that were built in it and the machines that were made for them.
structure Tenant where
  context  : Context
  graphs   : List Graph := []
  machines : List Machine := []

namespace Tenant

abbrev On := Action (Hosted Tenant)

def modifyTenant (f : Tenant → Tenant) : On Unit :=
  modify fun s => { s with part := f s.part }

def onContext {α : Type} (act : Context.On α) : On α :=
  Hosted.onPiece context (fun t c => { t with context := c }) act

-- Graphs and machines are called by their places. One that is not there is passed over. A program may be
-- made under one configuration, and taken by a machine under another.
inductive Deed
  | bind (object : HostObject)
  | build (device : Nat) (steps : List Step)
  | compile (graph : Nat) (batch : Option Nat) (config config' : Config)
  | execute (machine : Nat)
  | sync (objects : List HostObject)
  | invalidate

def build (device : Nat) (steps : List Step) : On Unit := do
  let start ← Wiring.start (← get).part.context device
  let (result, w) := (steps.forM fun s => discard (Wiring.step s) : Action Wiring Unit) start
  -- what was bound stays, also when the graph is given up
  modifyTenant fun t => { t with context := w.context }
  result
  modifyTenant fun t => { t with graphs := t.graphs ++ [w.graph] }

def compile (graph : Nat) (batch : Option Nat) (config config' : Config) : On Unit := do
  let s ← get
  if let some g := s.part.graphs[graph]? then
    let program ← Offload.compile s.platform.registry s.part.context g batch config
    let machine ← Machine.create program config'
    modifyTenant fun t => { t with machines := t.machines ++ [machine] }

def execute (machine : Nat) : On Unit := do
  if let some m := (← get).part.machines[machine]? then
    discard (onContext m.execute)

def perform : Deed → On Unit
  | .bind object => modifyTenant fun t => { t with context := (t.context.bind object).2 }
  | .build device steps => build device steps
  | .compile graph batch config config' => compile graph batch config config'
  | .execute machine => execute machine
  | .sync objects => onContext (Context.sync objects)
  | .invalidate => onContext Context.invalidate

end Tenant

structure House where
  platform : Platform
  tenants  : List Tenant := []

namespace House

inductive Move
  | enter (name : String) (places : List Nat)
  | act (tenant : Nat) (deed : Tenant.Deed)
  | leave (tenant : Nat)

-- Whoever leaves gives back all buffers first.
def step (h : House) : Move → House
  | .enter name devices =>
    if ∀ place ∈ devices, place < h.platform.channels.length then
      { h with tenants := h.tenants ++ [{ context := { name, devices } }] }
    else h
  | .act k deed =>
    match h.tenants[k]? with
    | none => h
    | some t =>
      let s := (Tenant.perform deed ⟨h.platform, t⟩).2
      { platform := s.platform, tenants := h.tenants.set k s.part }
  | .leave k =>
    match h.tenants[k]? with
    | none => h
    | some t =>
      let s := (Tenant.perform .invalidate ⟨h.platform, t⟩).2
      { platform := s.platform, tenants := h.tenants.eraseIdx k }

def run (h : House) (moves : List Move) : House :=
  moves.foldl step h

def device (h : House) (place : Nat) : Device :=
  (h.platform.channel place).device

-- Nobody was here yet, and objects are no longer than a word can tell.
structure Fresh (h : House) : Prop where
  tenants : h.tenants = []
  empty   : ∀ channel ∈ h.platform.channels,
    channel.device.memory.buffers = [] ∧ channel.device.memory.allocated = 0
  unused  : ∀ channel ∈ h.platform.channels, channel.device.events = [] ∧ channel.journal = []
  words   : ∀ entry ∈ h.platform.registry.entries, entry.bytes.length < wordLimit

-- All that can be said of the buffers of a house from outside.
structure InOrder (h : House) : Prop where
  -- A buffer is on the active device of its context, with the size on record.
  placed : ∀ t ∈ h.tenants, ∀ b ∈ t.context.bindings, ∀ id, b.state.buffer = some id →
    ∃ place, t.context.activePlace? = some place ∧ (id, b.state.size) ∈ (h.device place).memory.live
  -- The buffers on a device are those of the contexts that are active there.
  balanced : ∀ place,
    (h.device place).memory.live.Perm (h.tenants.flatMap (·.context.heldAt place))
  distinct : ∀ place, ((h.device place).memory.live.map Prod.fst).Nodup
  blank : ∀ t ∈ h.tenants, ∀ b ∈ t.context.bindings, b.state.buffer = none →
    b.state.size = 0 ∧ b.state.hostOffset = 0 ∧ b.state.valid = false ∧ b.state.written = false
  agree : ∀ t ∈ h.tenants, ∀ b ∈ t.context.bindings, b.state.isValid = b.state.written
  -- A context whose execution fails is left without buffers.
  failed : ∀ t ∈ h.tenants, ∀ machine e s, Tenant.execute machine ⟨h.platform, t⟩ = (.error e, s) →
    ∀ b ∈ s.part.context.bindings, b.state.buffer = none
  -- A transfer that failed waited for an event that failed.
  excused : ∀ place, ∀ call ∈ (h.platform.channel place).journal, call.Excused (h.device place)
  deserted : h.tenants = [] → ∀ place,
    (h.device place).memory.buffers = [] ∧ (h.device place).memory.allocated = 0

end House

theorem Registry.mem_of_entry? {r : Registry} {h : Handle} {entry : Entry} (hentry : r.entry? h = some entry) :
    entry ∈ r.entries := by
  obtain ⟨n⟩ := h
  cases n with
  | zero => cases hentry
  | succ n => exact List.mem_of_getElem? hentry

namespace Tenant

open Context

variable {P : Prop} {rest : Nat → List (BufferId × Nat)} {s t u : Hosted Tenant} {p p' : Platform}
  {c : Context}

-- A tenant keeps its books, and its graphs and machines are about what it has bound.
structure Lodged (rest : Nat → List (BufferId × Nat)) (s : Hosted Tenant) : Prop where
  books  : Books rest ⟨s.platform, s.part.context⟩
  trust  : Trusted ⟨s.platform, s.part.context⟩
  words  : ∀ k, s.platform.registry.byteLength k < wordLimit
  binds  : s.part.context.Binds
  covers : ∀ g ∈ s.part.graphs, s.part.context.Covers g
  suits  : ∀ m ∈ s.part.machines, m.Suits s.platform.registry s.part.context

-- Nothing changed that another tenant relies on.
structure Stays (rest : Nat → List (BufferId × Nat)) (s t : Hosted Tenant) : Prop
    extends Lodged rest t where
  channels : t.platform.channels.length = s.platform.channels.length
  lengths  : ∀ k, t.platform.registry.byteLength k = s.platform.registry.byteLength k

theorem Lodged.stays (h : Lodged rest s) : Stays rest s s :=
  ⟨h, rfl, fun _ => rfl⟩

theorem Stays.trans (h : Stays rest s t) (h' : Stays rest t u) : Stays rest s u :=
  ⟨h'.toLodged, h'.channels.trans h.channels, fun k => (h'.lengths k).trans (h.lengths k)⟩

-- What an action on its context leaves alone, a tenant can rely on.
theorem Lodged.sustains (h : Lodged rest s) (hP : P) {v : Hosted Context}
    (hv : Sustains P rest ⟨s.platform, s.part.context⟩ v) :
    Stays rest s ⟨v.platform, { s.part with context := v.part }⟩ where
  books := hv.books
  trust := hv.trust hP h.trust
  words k := hv.stable.lengths k ▸ h.words k
  binds := by
    unfold Binds
    rw [hv.stable.objects, hv.stable.tasks]
    exact h.binds
  covers g hg := (h.covers g hg).mono (hv.stable.objects ▸ List.prefix_rfl)
    (hv.stable.tasks ▸ List.prefix_rfl)
  suits m hm := (h.suits m hm).mono hv.stable.lengths (hv.stable.objects ▸ List.prefix_rfl)
    (hv.stable.tasks ▸ List.prefix_rfl)
  channels := hv.stable.channels
  lengths := hv.stable.lengths

theorem Lodged.grown (h : Lodged rest s) (hc : Grown s.part.context c) :
    Stays rest s ⟨s.platform, { s.part with context := c }⟩ where
  books := hc.books h.books
  trust := hc.trusted h.trust
  words := h.words
  binds := hc.binds h.binds
  covers g hg := (h.covers g hg).mono hc.objects hc.tasks
  suits m hm := (h.suits m hm).mono (fun _ => rfl) hc.objects hc.tasks
  channels := rfl
  lengths _ := rfl

theorem Lodged.addGraph (h : Lodged rest s) {g : Graph} (hg : s.part.context.Covers g) :
    Stays rest s ⟨s.platform, { s.part with graphs := s.part.graphs ++ [g] }⟩ :=
  ⟨{ h with covers := by simpa [or_imp, forall_and] using ⟨h.covers, hg⟩ }, rfl, fun _ => rfl⟩

theorem Lodged.addMachine (h : Lodged rest s) {m : Machine}
    (hm : m.Suits s.platform.registry s.part.context) :
    Stays rest s ⟨s.platform, { s.part with machines := s.part.machines ++ [m] }⟩ :=
  ⟨{ h with suits := by simpa [or_imp, forall_and] using ⟨h.suits, hm⟩ }, rfl, fun _ => rfl⟩

theorem onContext_stays (h : Lodged rest s) (hP : P) {α : Type} {act : Context.On α}
    (hact : act.Ends ⟨s.platform, s.part.context⟩ fun _ v =>
      Sustains P rest ⟨s.platform, s.part.context⟩ v) :
    (onContext act).Ends s fun _ t => Stays rest s t :=
  h.sustains hP hact

theorem build_stays (h : Lodged rest s) (device : Nat) (steps : List Step) :
    (build device steps).Ends s fun _ t => Stays rest s t := by
  unfold build
  refine Action.Ends.bind_get (Action.Ends.bind_lift (fun start hstart => ?_) fun _ _ => h.stays)
  cases Wiring.start_ok hstart
  rcases hsteps : (steps.forM fun s => discard (Wiring.step s) : Action Wiring Unit)
    { context := s.part.context, graph := ({} : Graph).push (.context device) [] } with ⟨result, w⟩
  have hgrown := h.grown ((Wiring.grows_steps steps).of_eq hsteps)
  refine Action.Ends.bind_modify (Action.Ends.bind_lift (fun _ hok => ?_) fun _ _ => hgrown)
  subst hok
  exact hgrown.trans (hgrown.addGraph (Wiring.covers_steps hsteps (Wiring.covers_start _ device)))

theorem compile_stays (h : Lodged rest s) (graph : Nat) (batch : Option Nat) (config config' : Config) :
    (compile graph batch config config').Ends s fun _ t => Stays rest s t := by
  unfold compile
  refine Action.Ends.bind_get ?_
  split
  case h_2 => exact h.stays
  case h_1 g hg =>
    refine Action.Ends.bind_lift (fun program hprogram => ?_) fun _ _ => h.stays
    refine Action.Ends.bind_lift (fun machine hmachine => ?_) fun _ _ => h.stays
    exact h.addMachine (Compile.suits_of_compile hprogram hmachine
      (h.covers g (List.mem_of_getElem? hg)) h.binds h.words)

theorem execute_stays (h : Lodged rest s) (machine : Nat) :
    (execute machine).Ends s fun result t => Stays rest s t ∧
      ∀ e, result = .error e → ∀ b ∈ t.part.context.bindings, b.state.buffer = none := by
  unfold execute
  refine Action.Ends.bind_get ?_
  split
  case h_2 => exact ⟨h.stays, nofun⟩
  case h_1 m hm =>
    have hends := Machine.execute_sustains h.books (h.suits m (List.mem_of_getElem? hm))
    have hrun : (onContext m.execute).Ends s fun result t => Stays rest s t ∧
        ∀ e, result = .error e → ∀ b ∈ t.part.context.bindings, b.state.buffer = none := by
      refine ⟨h.sustains h.trust hends.1, fun e he b hb => ?_⟩
      obtain ⟨u, hu⟩ := hends.2 e he
      change b ∈ (m.execute ⟨s.platform, s.part.context⟩).2.part.bindings at hb
      rw [hu] at hb
      obtain ⟨_, _, rfl⟩ := List.mem_map.mp hb
      rfl
    exact hrun.bind (fun _ _ ⟨ht, _⟩ => ⟨ht, nofun⟩) fun e _ ⟨ht, hnone⟩ => ⟨ht, fun _ _ => hnone e rfl⟩

theorem perform_stays (h : Lodged rest s) (deed : Deed) :
    (perform deed).Ends s fun _ t => Stays rest s t := by
  cases deed with
  | bind object => exact h.grown (s.part.context.grown_bind object)
  | build device steps => exact build_stays h device steps
  | compile graph batch config config' => exact compile_stays h graph batch config config'
  | execute machine => exact (execute_stays h machine).mono fun _ _ ht => ht.1
  | sync objects =>
    exact onContext_stays h trivial ((sync_upholds (P := True) h.books (fun _ => h.trust) objects).mono
      fun _ _ ht => ht.toSustains)
  | invalidate =>
    exact onContext_stays h trivial ((invalidate_upholds (P := True) h.books).mono
      fun _ _ ht => ht.1.toSustains)

-- What a tenant relies on, apart from what is on the devices.
structure Fits (p : Platform) (t : Tenant) : Prop where
  attached : ∀ place ∈ t.context.devices, place < p.channels.length
  housed   : t.context.activePlace? = none → t.context.held = []
  tidy     : ∀ b ∈ t.context.bindings, b.state.Tidy
  inside   : ∀ b ∈ t.context.bindings, b.state.hostOffset ≤ p.registry.byteLength b.object.handle
  binds    : t.context.Binds
  covers   : ∀ g ∈ t.graphs, t.context.Covers g
  suits    : ∀ m ∈ t.machines, m.Suits p.registry t.context

theorem Fits.mono {t : Tenant} (hchannels : p'.channels.length = p.channels.length)
    (hlengths : ∀ k, p'.registry.byteLength k = p.registry.byteLength k) (h : t.Fits p) : t.Fits p' :=
  { h with
    attached := hchannels ▸ h.attached
    inside := fun b hb => hlengths _ ▸ h.inside b hb
    suits := fun m hm => (h.suits m hm).mono hlengths List.prefix_rfl List.prefix_rfl }

end Tenant

namespace House

open Context
open Tenant (Lodged Stays)

variable {p p' : Platform} {t t' : Tenant} {ts ts' : List Tenant} {h : House}

-- The buffers of all tenants on a device.
def heldBy (ts : List Tenant) (place : Nat) : List (BufferId × Nat) :=
  ts.flatMap (·.context.heldAt place)

-- The tenants of a platform, in whatever order, account for all buffers.
structure Sound (p : Platform) (ts : List Tenant) : Prop where
  words    : ∀ k, p.registry.byteLength k < wordLimit
  honest   : ∀ place, (p.channel place).Honest
  orderly  : ∀ place, (p.channel place).device.memory.Orderly
  balanced : ∀ place, (p.channel place).device.memory.live.Perm (heldBy ts place)
  fits     : ∀ t ∈ ts, t.Fits p

theorem Sound.perm (hperm : ts.Perm ts') (h : Sound p ts) : Sound p ts' :=
  { h with
    balanced := fun place => (h.balanced place).trans (hperm.flatMap_right _)
    fits := fun t ht => h.fits t (hperm.mem_iff.mpr ht) }

-- To each tenant, the others are all there is besides.
theorem Sound.lodged (h : Sound p (t :: ts)) : Lodged (heldBy ts) ⟨p, t⟩ :=
  have hfits := h.fits t List.mem_cons_self
  { books := ⟨hfits.attached, h.orderly, h.balanced, hfits.housed, hfits.tidy⟩
    trust := ⟨h.honest, hfits.inside⟩
    words := h.words
    binds := hfits.binds
    covers := hfits.covers
    suits := hfits.suits }

theorem sound_cons (h : Lodged (heldBy ts) ⟨p, t⟩) (hfits : ∀ t' ∈ ts, t'.Fits p) : Sound p (t :: ts) where
  words := h.words
  honest := h.trust.honest
  orderly := h.books.orderly
  balanced := h.books.balanced
  fits t' ht' := by
    rcases List.mem_cons.mp ht' with rfl | hrest
    case inl =>
      exact ⟨h.books.attached, h.books.housed, h.books.tidy, h.trust.inside, h.binds, h.covers, h.suits⟩
    case inr => exact hfits t' hrest

theorem Sound.stays (h : Sound p (t :: ts)) (hstays : Stays (heldBy ts) ⟨p, t⟩ ⟨p', t'⟩) :
    Sound p' (t' :: ts) :=
  sound_cons hstays.toLodged fun x hx =>
    (h.fits x (List.mem_cons_of_mem t hx)).mono hstays.channels hstays.lengths

theorem Sound.of_held (h : Sound p (t :: ts)) (hheld : t.context.held = []) : Sound p ts :=
  { h with
    balanced := fun place => by
      have hbalanced := h.balanced place
      rwa [heldBy, List.flatMap_cons, heldAt_of_held hheld] at hbalanced
    fits := fun x hx => h.fits x (List.mem_cons_of_mem t hx) }

theorem step_sound (hsound : Sound h.platform h.tenants) (move : Move) :
    Sound (h.step move).platform (h.step move).tenants := by
  cases move with
  | enter name devices =>
    simp only [step]
    split
    case isFalse => exact hsound
    case isTrue hplaces =>
      refine Sound.perm (List.perm_append_singleton _ _).symm (sound_cons ?_ hsound.fits)
      exact {
        books := ⟨hplaces, hsound.orderly, hsound.balanced, fun _ => rfl, nofun⟩
        trust := ⟨hsound.honest, nofun⟩
        words := hsound.words
        binds := nofun
        covers := nofun
        suits := nofun }
  | act k deed =>
    simp only [step]
    split
    case h_1 => exact hsound
    case h_2 t ht =>
      have hfirst := hsound.perm (perm_cons_eraseIdx ht)
      exact (hfirst.stays (Tenant.perform_stays hfirst.lodged deed)).perm (set_perm_cons ht _).symm
  | leave k =>
    simp only [step]
    split
    case h_1 => exact hsound
    case h_2 t ht =>
      have hfirst := hsound.perm (perm_cons_eraseIdx ht)
      exact (hfirst.stays (Tenant.perform_stays hfirst.lodged .invalidate)).of_held (held_detachAll _)

theorem run_sound (hsound : Sound h.platform h.tenants) (moves : List Move) :
    Sound (h.run moves).platform (h.run moves).tenants := by
  unfold run
  induction moves generalizing h with
  | nil => exact hsound
  | cons move moves ih => exact ih (step_sound hsound move)

theorem Fresh.byteLength_lt (hfresh : h.Fresh) (k : Handle) :
    h.platform.registry.byteLength k < wordLimit := by
  rw [Registry.byteLength, Registry.bytes]
  cases hentry : h.platform.registry.entry? k with
  | none => exact Nat.two_pow_pos 64
  | some entry => exact hfresh.words entry (Registry.mem_of_entry? hentry)

theorem Fresh.sound (hfresh : h.Fresh) : Sound h.platform h.tenants := by
  rw [hfresh.tenants]
  have hmemory := Platform.forall_channel
    (Q := fun c => c.device.memory.buffers = [] ∧ c.device.memory.allocated = 0) ⟨rfl, rfl⟩ hfresh.empty
  have hunused := Platform.forall_channel
    (Q := fun c => c.device.events = [] ∧ c.journal = []) ⟨rfl, rfl⟩ hfresh.unused
  refine ⟨hfresh.byteLength_lt, fun place => ⟨?_, ?_⟩, fun place => ?_, fun place => ?_, nofun⟩
  case refine_1 => simp [Device.Past, (hunused place).1]
  case refine_2 => simp [(hunused place).2]
  case refine_3 => exact Memory.orderly_of_nil (hmemory place).1 (hmemory place).2
  case refine_4 =>
    rw [Memory.live, (hmemory place).1]
    exact List.Perm.nil

theorem Sound.placed (hsound : Sound p (t :: ts)) {b : Binding} (hb : b ∈ t.context.bindings)
    {id : BufferId} (hid : b.state.buffer = some id) : ∃ place,
      t.context.activePlace? = some place ∧ (id, b.state.size) ∈ (p.channel place).device.memory.live := by
  obtain ⟨place, hplace⟩ := hsound.lodged.books.exists_place hb hid
  exact ⟨place, hplace, hsound.lodged.books.mem_live hplace hb hid⟩

theorem Sound.inOrder (hsound : Sound h.platform h.tenants) : h.InOrder where
  placed t ht b hb id hid := by
    obtain ⟨k, hk⟩ := List.getElem?_of_mem ht
    exact (hsound.perm (perm_cons_eraseIdx hk)).placed hb hid
  balanced := hsound.balanced
  distinct place := by
    rw [Memory.map_fst_live]
    exact (hsound.orderly place).nodup
  blank t ht b hb hnone := by
    have htidy := (hsound.fits t ht).tidy b hb
    obtain ⟨hsize, hoffset, hvalid⟩ := htidy.blank hnone
    exact ⟨hsize, hoffset, hvalid, htidy.agree ▸ hvalid⟩
  agree t ht b hb := ((hsound.fits t ht).tidy b hb).isValid_eq
  failed t ht machine e s hfails := by
    obtain ⟨k, hk⟩ := List.getElem?_of_mem ht
    have hlodged := (hsound.perm (perm_cons_eraseIdx hk)).lodged
    exact ((Tenant.execute_stays hlodged machine).of_eq hfails).2 e rfl
  excused place := (hsound.honest place).excused
  deserted htenants place := by
    have hbalanced := hsound.balanced place
    rw [htenants] at hbalanced
    exact (hsound.orderly place).allocated_eq_zero hbalanced.eq_nil

-- Whatever contexts do on devices they share, all buffers are accounted for.
theorem run_inOrder (hfresh : h.Fresh) (moves : List Move) : (h.run moves).InOrder :=
  (run_sound hfresh.sound moves).inOrder

-- Two objects of two bytes each, and a device that can count up.
def first : HostObject :=
  ⟨⟨1⟩, .array .byte⟩

def second : HostObject :=
  ⟨⟨2⟩, .array .byte⟩

def inn : House where
  platform := {
    registry := ((({} : Registry).register (.array .byte) [1, 2]).2.register (.array .byte) [3, 4]).2
    channels := [{ device := {
      limits := { computeUnits := 1 }
      threadName := "queue"
      kernels := [("increment", Kernel.increment)] } }] }

def calling (kernel : String) (o : HostObject) : Task where
  id := "count"
  kernel
  domain := [2]
  arguments := [⟨o, .readWrite⟩]

-- Both bring an object to the same device. The second then asks for a kernel that is not there.
def stay : List Move :=
  [.enter "one" [0], .enter "two" [0],
    .act 0 (.build 0 [.streamIn first, .task (calling "increment" first)]),
    .act 0 (.compile 0 none {} {}),
    .act 0 (.execute 0),
    .act 1 (.bind first),
    .act 1 (.build 0 [.streamIn second, .task (calling "nothing" second), .streamOut second]),
    .act 1 (.compile 0 (some 1) {} {}),
    .act 1 (.execute 0),
    .act 0 (.sync [first])]

theorem inn_inOrder : inn.Fresh ∧ (inn.run stay).InOrder ∧
    ((inn.run stay).device 0).memory.live = [(⟨1⟩, 2)] ∧
    (inn.run (stay ++ [.leave 1, .leave 0])).InOrder ∧
    ((inn.run (stay ++ [.leave 1, .leave 0])).device 0).memory.allocated = 0 := by
  have hfresh : inn.Fresh := ⟨rfl, by simp [inn], by simp [inn], by decide⟩
  refine ⟨hfresh, run_inOrder hfresh stay, by decide +kernel, run_inOrder hfresh _, ?_⟩
  have htenants : (inn.run (stay ++ [.leave 1, .leave 0])).tenants.length = 0 := by decide +kernel
  exact ((run_inOrder hfresh _).deserted (List.length_eq_zero_iff.mp htenants) 0).2

end House
end Offload
