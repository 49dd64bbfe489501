import Offload.Proofs.Coherence
import Offload.Proofs.Kernels
import Offload.Proofs.Lockstep

/-!
What a failed execution leaves behind. Its context has no buffer any more, and goes on as a new one would that
has the same tables: what comes of a later execution is the same, and so are the bytes that it leaves.
-/

namespace Offload

theorem ObjectState.Tidy.detach_eq {st : ObjectState} (h : st.Tidy) (hnone : st.buffer = none) :
    st.detach = st := by
  obtain ⟨hsize, hoffset, hvalid⟩ := h.blank hnone
  have hwritten : st.written = false := h.agree ▸ hvalid
  cases st
  simp_all [ObjectState.detach]

namespace Context

variable {c : Context} {g : Stage} {ν : Numbering} {s t : Hosted Context} {p : Platform} {device : Nat}

-- To give up everything would change nothing.
def Bare (c : Context) : Prop :=
  ∀ b ∈ c.bindings, b.state.detach = b.state

theorem Bare.buffer (h : c.Bare) {b : Binding} (hb : b ∈ c.bindings) : b.state.buffer = none := by
  rw [← h b hb]
  rfl

theorem Bare.detachAll (h : c.Bare) : c.detachAll = c := by
  have hsame : c.bindings.map (fun b => { b with state := b.state.detach }) = c.bindings :=
    (List.map_congr_left fun b hb => by rw [h b hb, id]).trans (List.map_id _)
  rw [Context.detachAll, hsame]

-- Whoever has no buffer has none to give up.
theorem giveUpAll_bare {bs : List Binding} (hbare : ∀ b ∈ bs, b.state.buffer = none) (p : Platform) :
    ∃ registry : Registry, bs.foldl c.giveUp p = { p with registry } ∧
      ∀ k, registry.bytes k = p.registry.bytes k := by
  induction bs generalizing p with
  | nil => exact ⟨p.registry, rfl, fun _ => rfl⟩
  | cons b bs ih =>
    obtain ⟨hfirst, hlater⟩ := List.forall_mem_cons.mp hbare
    obtain ⟨registry, _, heq⟩ := giveUp_eq c p b
    have hbytes := bytes_giveUp c p b
    rw [hfirst] at heq
    have heq : c.giveUp p b = { p with registry } := heq.trans (by split <;> first | rfl | simp_all)
    rw [heq] at hbytes
    obtain ⟨registry', heq', hbytes'⟩ := ih hlater { p with registry }
    exact ⟨registry', by rw [List.foldl_cons, heq, heq'], fun k => (hbytes' k).trans (hbytes k)⟩

theorem invalidate_bare (h : s.part.Bare) : ∃ registry : Registry,
    invalidate s = (.ok ⟨⟩, ⟨{ s.platform with registry }, s.part⟩) ∧
      ∀ k, registry.bytes k = s.platform.registry.bytes k := by
  obtain ⟨registry, heq, hbytes⟩ := giveUpAll_bare (c := s.part) (fun b hb => h.buffer hb) s.platform
  refine ⟨registry, ?_, hbytes⟩
  rw [← heq]
  exact congrArg (fun part => (Except.ok PUnit.unit, Hosted.mk _ part)) h.detachAll

theorem activate_bare (h : s.part.Bare) {place : Nat} (hplace : s.part.devices[device]? = some place) :
    ∃ registry : Registry, activate device s =
        (.ok ⟨⟩, ⟨{ s.platform with registry }, { s.part with active := some device }⟩) ∧
      ∀ k, registry.bytes k = s.platform.registry.bytes k := by
  obtain ⟨registry, hgive, hbytes⟩ := invalidate_bare h
  unfold activate
  rw [Action.bind_of_ok (Action.get_apply s), place_ok.mpr hplace, Action.bind_of_ok (Action.lift_apply _ s),
    Action.bind_of_ok (Action.get_apply s)]
  dsimp only
  cases s.part.active with
  | none => exact ⟨s.platform.registry, rfl, fun _ => rfl⟩
  | some current =>
    by_cases hdiffers : current ≠ device
    case pos =>
      dsimp only
      rw [if_pos hdiffers, Action.bind_of_ok hgive]
      exact ⟨registry, rfl, hbytes⟩
    case neg =>
      dsimp only
      rw [if_neg hdiffers]
      exact ⟨s.platform.registry, rfl, fun _ => rfl⟩

-- Two contexts without buffers, whatever device each of them worked on before.
structure Apart (g : Stage) (ν : Numbering) (s t : Hosted Context) : Prop where
  platform : s.platform.Twin g ν t.platform
  context  : s.part.Twin g ν t.part
  bare     : s.part.Bare
  bare'    : t.part.Bare

-- In the end only what is on the devices and in the objects is looked at.
def Level (g : Stage) (ν : Numbering) (s t : Hosted Context) : Prop :=
  s.platform.Twin g ν t.platform

open Offload.Action (Echoes)

variable {R : Hosted Context → Prop}

theorem invalidate_echoes_apart (htracked : ¬g.tracked) (h : Apart g ν s t) :
    Echoes (Apart g) R Numbering.Same ν invalidate invalidate s t := by
  obtain ⟨registry, heq, hbytes⟩ := invalidate_bare h.bare
  obtain ⟨registry', heq', hbytes'⟩ := invalidate_bare h.bare'
  refine .of_eq heq heq' (.refl ν) ⟨h.platform.registry (fun k hk => ?_) (absurd · htracked), h.context, h.bare,
    h.bare'⟩ (.ok rfl)
  rw [hbytes, hbytes', h.platform.bytes k hk]

theorem activate_echoes_apart (htracked : ¬g.tracked) (h : Apart g ν s t) (hdevice : g.At device) {place : Nat}
    (hplace : g.devices[device]? = some place) :
    Echoes (Beside g) R Numbering.Same ν (activate device) (activate device) s t := by
  obtain ⟨registry, heq, hbytes⟩ := activate_bare h.bare (h.context.devices ▸ hplace)
  obtain ⟨registry', heq', hbytes'⟩ := activate_bare h.bare' (h.context.devices' ▸ hplace)
  refine .of_eq heq heq' (.refl ν) ⟨h.platform.registry (fun k hk => ?_) (absurd · htracked), { h.context with },
    rfl, fun _ hsome => Option.some.inj hsome ▸ hdevice⟩ (.ok rfl)
  rw [hbytes, hbytes', h.platform.bytes k hk]

end Context

namespace Machine

open Offload.Action (Echoes)
open Context (Apart Beside Crowded Level)

variable {g : Stage} {ν : Numbering} {r r' : Run} {s t : Hosted Context} {m : Machine}

theorem begin_echoes_apart (h : Apart g ν s t) (hr : r.Twin g ν r') (index slots tasks lists : Nat) :
    Echoes (Apart g) (Crowded g) (Run.Twin g) ν (m.step index (.begin slots tasks lists) r)
      (m.step index (.begin slots tasks lists) r') s t := by
  unfold step record count
  refine Echoes.bind_get ?_
  dsimp only
  rw [← h.context.tasks, ← h.context.name]
  split
  case isTrue => exact .throw h (.config _)
  case isFalse =>
    have hnone := hr.record index (e := none) .none
    split
    case isFalse => exact .pure h hnone
    case isTrue =>
      refine (Echoes.modify ⟨?_, h.context, h.bare, h.bare'⟩).bind
        fun _ _ _ _ _ hν hS _ => .pure hS (hnone.mono hν)
      exact ⟨h.platform.here, h.platform.there, h.platform.channel, h.platform.bytes, h.platform.records⟩

theorem execute_echoes_apart (htracked : ¬g.tracked) {slots tasks lists device place : Nat}
    {is : List Instruction} (hm : m.instructions = .begin slots tasks lists :: .context device :: is)
    (his : ∀ i ∈ is, i.At g) (hdevice : g.At device) (hplace : g.devices[device]? = some place)
    (h : Apart g ν s t) :
    Echoes (Level g) (Crowded g) (Execution.Twin g) ν m.execute m.execute s t := by
  unfold execute
  rw [hm, steps, bind_assoc]
  refine (caught_echoes (fun _ _ _ hS => Context.invalidate_echoes_apart htracked hS)
    (begin_echoes_apart h (.start g ν m) 0 slots tasks lists)).bind_mono (fun _ _ _ hS => hS.platform)
      fun ν₁ r r' s₁ t₁ hν₁ hS₁ hr₁ => ?_
  have hcontext : Echoes (Beside g) (Crowded g) (Run.Twin g) ν₁ (m.step 1 (.context device) r)
      (m.step 1 (.context device) r') s₁ t₁ :=
    (Context.activate_echoes_apart htracked hS₁ hdevice hplace).bind fun _ _ _ _ _ hν hS _ =>
      aim_echoes hS (hr₁.mono hν) 1 hdevice
  rw [steps, bind_assoc, steps, bind_assoc]
  exact (caught_echoes (fun _ _ _ hS => Context.invalidate_echoes hS) hcontext).bind_mono
    (fun _ _ _ hS => hS.platform) fun _ _ _ _ _ _ hS hr =>
      ((steps_echoes his hS hr 2).bind fun _ _ _ _ _ _ hS hr => conclude_echoes hS hr).mono
        fun _ _ _ hS => hS.platform

end Machine

namespace Context

variable {c : Context} {p q : Platform}

-- A new context, with the same devices, objects and tasks.
def anew (c : Context) : Context :=
  let attached : Context := c.devices.foldl (fun c place => (c.addDevice place).2) { name := c.name }
  c.tasks.foldl (fun c t => (c.addTask t).2) (attached.bindAll c.objects)

-- On another platform it finds what it finds on this one: devices of the same make, with as much in use, and
-- the same bytes.
structure Akin (c : Context) (p q : Platform) : Prop where
  attached : ∀ place ∈ c.devices, place < q.channels.length
  orderly  : ∀ place ∈ c.devices, (q.channel place).device.memory.Orderly
  make     : ∀ place ∈ c.devices, (q.channel place).device.make = (p.channel place).device.make
  memory   : ∀ place ∈ c.devices,
    (q.channel place).device.memory.capacity = (p.channel place).device.memory.capacity ∧
      (q.channel place).device.memory.allocated = (p.channel place).device.memory.allocated
  bytes    : ∀ o ∈ c.objects, q.registry.bytes o.handle = p.registry.bytes o.handle

theorem akin_refl {rest : Nat → List (BufferId × Nat)} (hbooks : Books rest ⟨p, c⟩) : c.Akin p p :=
  ⟨hbooks.attached, fun place _ => hbooks.orderly place, fun _ _ => rfl, fun _ _ => ⟨rfl, rfl⟩, fun _ _ => rfl⟩

theorem addDevices_eq (places : List Nat) (c : Context) :
    places.foldl (fun c place => (c.addDevice place).2) c = { c with devices := c.devices ++ places } := by
  induction places generalizing c with
  | nil => rw [List.append_nil]; rfl
  | cons place places ih =>
    rw [List.foldl_cons, ih]
    simp [addDevice]

theorem bindAll_new {os : List HostObject} {c : Context}
    (hnodup : ((c.objects ++ os).map HostObject.handle).Nodup) :
    c.bindAll os = { c with bindings := c.bindings ++ os.map fun o => { object := o } } := by
  unfold bindAll
  induction os generalizing c with
  | nil => rw [List.map_nil, List.append_nil]; rfl
  | cons o os ih =>
    have hnew : c.objectIndex? o.handle = none := by
      rw [objectIndex?_eq, List.findIdx?_eq_none_iff]
      intro x hx
      rw [List.map_append] at hnodup
      simpa using (List.nodup_append.mp hnodup).2.2 _ (List.mem_map_of_mem hx) _
        (List.mem_map_of_mem List.mem_cons_self)
    have hbind : (c.bind o).2 = { c with bindings := c.bindings ++ [{ object := o }] } := by
      rw [bind, hnew]
    rw [List.foldl_cons, hbind, ih (by simpa [objects] using hnodup)]
    simp

theorem bindAll_bound {os : List HostObject} {c : Context}
    (hbound : ∀ o ∈ os, o.handle ∈ c.objects.map HostObject.handle) : c.bindAll os = c := by
  unfold bindAll
  induction os with
  | nil => rfl
  | cons o os ih =>
    obtain ⟨hfirst, hlater⟩ := List.forall_mem_cons.mp hbound
    have hbind : (c.bind o).2 = c := by
      cases hindex : c.objectIndex? o.handle with
      | some index => rw [bind, hindex]
      | none =>
        rw [objectIndex?_eq, List.findIdx?_eq_none_iff] at hindex
        obtain ⟨x, hx, heq⟩ := List.mem_map.mp hfirst
        exact absurd heq (by simpa using hindex x hx)
    rw [List.foldl_cons, hbind, ih hlater]

theorem addTasks_eq {ts : List Task} {c : Context}
    (hbound : ∀ t ∈ ts, ∀ a ∈ t.arguments, a.object.handle ∈ c.objects.map HostObject.handle) :
    ts.foldl (fun c t => (c.addTask t).2) c = { c with tasks := c.tasks ++ ts } := by
  induction ts generalizing c with
  | nil => rw [List.append_nil]; rfl
  | cons t ts ih =>
    obtain ⟨hfirst, hlater⟩ := List.forall_mem_cons.mp hbound
    have hbind : c.bindAll (t.arguments.map Argument.object) = c :=
      bindAll_bound fun o ho => by
        obtain ⟨a, ha, rfl⟩ := List.mem_map.mp ho
        exact hfirst a ha
    have hadd : (c.addTask t).2 = { c with tasks := c.tasks ++ [t] } := by rw [addTask, hbind]
    have hrest := ih (c := { c with tasks := c.tasks ++ [t] }) hlater
    rw [List.foldl_cons, hadd, hrest]
    simp

-- Nothing but the tables is the same.
theorem anew_eq (hdistinct : c.Distinct) (hbinds : c.Binds) :
    c.anew = { name := c.name, devices := c.devices, tasks := c.tasks,
               bindings := c.objects.map fun o => { object := o } } := by
  unfold anew
  dsimp only
  rw [addDevices_eq, bindAll_new (by simpa [objects, Distinct] using hdistinct),
    addTasks_eq (by simpa [objects, Binds, Function.comp_def] using hbinds)]
  simp

-- Without buffers, a context is as good as new.
theorem apart_anew {rest : Nat → List (BufferId × Nat)} (hbooks : Books rest ⟨p, c⟩)
    (hlearned : Learned ⟨p, c⟩) (hdistinct : c.Distinct) (hbinds : c.Binds) (hheld : c.held = [])
    (hq : c.Akin p q) {place : Nat} (hplace : place ∈ c.devices) :
    Apart
      { place, devices := c.devices, kind := (p.channel place).device.make, extra := 0
        own := (· ∈ c.objects.map HostObject.handle), tracked := False }
      {} ⟨p, c⟩ ⟨q, c.anew⟩ := by
  have hnone (b : Binding) (hb : b ∈ c.bindings) : b.state.buffer = none := by
    cases hid : b.state.buffer with
    | none => rfl
    | some id => exact absurd (hheld ▸ mem_held hb hid) List.not_mem_nil
  have hblank (b : Binding) (hb : b ∈ c.bindings) := (hbooks.tidy b hb).blank (hnone b hb)
  have hwritten (b : Binding) (hb : b ∈ c.bindings) : b.state.written = false :=
    (hbooks.tidy b hb).agree ▸ (hblank b hb).2.2
  rw [anew_eq hdistinct hbinds]
  refine ⟨⟨hbooks.attached place hplace, hq.attached place hplace, ?_, ?_, nofun⟩, ?_, ?_, ?_⟩
  case refine_1 =>
    obtain ⟨hcapacity, hallocated⟩ := hq.memory place hplace
    exact ⟨rfl, hq.make place hplace, ⟨hcapacity.symm, hallocated.symm, hbooks.orderly place,
      hq.orderly place hplace, nofun, nofun⟩, ⟨nofun, nofun⟩, nofun, nofun⟩
  case refine_2 =>
    intro k hk
    obtain ⟨o, ho, rfl⟩ := List.mem_map.mp hk
    exact (hq.bytes o ho).symm
  case refine_3 =>
    refine ⟨rfl, rfl, rfl, rfl, ?_, fun b hb => List.mem_map_of_mem (List.mem_map_of_mem hb), ?_, nofun⟩
    case refine_1 =>
      rw [objects, List.map_map, List.forall₂_map_right_iff, List.forall₂_same]
      refine fun b hb => ⟨rfl, ?_, (hblank b hb).1, (hblank b hb).2.1, (hblank b hb).2.2, hwritten b hb⟩
      rw [hnone b hb]
      exact .none
    case refine_2 =>
      intro x hx
      obtain ⟨site, t, hsite, ht, hfound⟩ := hlearned x hx
      refine ⟨site, t, hsite, ht, fun heq => ?_⟩
      cases heq
      exact hfound
  case refine_4 =>
    exact fun b hb => (hbooks.tidy b hb).detach_eq (hnone b hb)
  case refine_5 => simp [Bare, ObjectState.detach]

end Context

-- The same comes of a machine, but for the numbers of buffers and events: the same failure or what is left of the
-- execution, the same bytes in the objects of the context, and the same for whoever waits.
structure Machine.Agrees (m : Machine) (ν : Numbering) (s t : Hosted Context) : Prop where
  issued : Answers Execution.Matches ν (m.execute s).1 (m.execute t).1
  bytes  : ∀ o ∈ s.part.objects, (m.execute s).2.platform.registry.bytes o.handle =
    (m.execute t).2.platform.registry.bytes o.handle
  waited : ∀ x y, (m.execute s).1 = .ok x → (m.execute t).1 = .ok y →
    Answers Numbering.Same ν (Execution.wait ⟨(m.execute s).2.platform, x⟩).1
      (Execution.wait ⟨(m.execute t).2.platform, y⟩).1 ∧
    (Execution.wait ⟨(m.execute s).2.platform, x⟩).2.part.states =
      (Execution.wait ⟨(m.execute t).2.platform, y⟩).2.part.states

-- With nobody else on the devices of the stage there is always room on both sides or on neither.
theorem Machine.agrees_of_echoes {m : Machine} {g : Stage} {ν : Numbering} {s t : Hosted Context}
    (hextra : g.extra = 0) (hown : ∀ o ∈ s.part.objects, g.own o.handle)
    (h : Action.Echoes (Context.Level g) (Context.Crowded g) (Execution.Twin g) ν m.execute m.execute s t) :
    ∃ ν', ν'.OneToOne ∧ m.Agrees ν' s t := by
  have hroom {p : Platform} : ¬p.Crowded g := fun hcrowded => (hextra ▸ hcrowded.1).false
  rcases h with ⟨_, _, hcrowded⟩ | ⟨ν₁, _, htwin, hresult⟩
  case inl => exact absurd hcrowded hroom
  case inr =>
    have hbytes := fun o ho => htwin.bytes _ (hown o ho)
    have hissued := hresult.imp fun _ _ hmatches => hmatches.toMatches
    cases hleft : (m.execute s).1 with
    | error e =>
      refine ⟨ν₁, htwin.channel.apart, hissued, hbytes, fun x y hx => ?_⟩
      cases hleft.symm.trans hx
    | ok x =>
      cases hright : (m.execute t).1 with
      | error e =>
        refine ⟨ν₁, htwin.channel.apart, hissued, hbytes, fun x y _ hy => ?_⟩
        cases hright.symm.trans hy
      | ok y =>
        rw [hleft, hright] at hresult
        cases hresult with
        | ok hmatches =>
          have hbeside : Execution.Beside g ν₁ ⟨(m.execute s).2.platform, x⟩ ⟨(m.execute t).2.platform, y⟩ :=
            ⟨htwin, hmatches⟩
          rcases Execution.wait_echoes hbeside with ⟨_, _, hcrowded⟩ | ⟨ν₂, hν, hafter, hwaited⟩
          case inl => exact absurd hcrowded hroom
          case inr =>
            refine ⟨ν₂, hafter.platform.channel.apart, ?_, hbytes, fun x' y' hx hy => ?_⟩
            case refine_1 => exact hissued.mono (fun _ _ h => h.mono hν) hν
            case refine_2 =>
              cases hleft.symm.trans hx
              cases hright.symm.trans hy
              exact ⟨hwaited, hafter.execution.states⟩

namespace Tenant

open Context

variable {rest : Nat → List (BufferId × Nat)} {p q : Platform} {s : Hosted Tenant} {t : Tenant} {m : Machine}

-- A machine cannot tell a context without buffers from a new one.
theorem agrees_anew (hlodged : Lodged rest ⟨p, t⟩) (hversed : t.Versed p) (hdistinct : t.context.Distinct)
    (hheld : t.context.held = []) (hm : m ∈ t.machines) (hq : t.context.Akin p q) :
    ∃ ν, ν.OneToOne ∧ m.Agrees ν ⟨p, t.context⟩ ⟨q, t.context.anew⟩ := by
  obtain ⟨slots, tasks, lists, device, is, his, hall⟩ := hlodged.suits m hm
  obtain ⟨place, hplace⟩ := hversed.seated m hm _ device is his
  have hapart := apart_anew hlodged.books hversed.learned hdistinct hlodged.binds hheld hq
    (List.mem_of_getElem? hplace)
  refine Machine.agrees_of_echoes rfl (fun o ho => List.mem_map_of_mem ho)
    (Machine.execute_echoes_apart id his (fun i hi => ?_) (fun site hsite => ?_) hplace hapart)
  case refine_1 =>
    obtain ⟨hne, hworks, _⟩ := hall i hi
    cases i with
    | context => exact absurd rfl hne
    | launch =>
      cases hworks
      exact fun site hsite => Option.some.inj (hsite.symm.trans hplace)
    | _ => trivial
  case refine_2 => exact Option.some.inj (hsite.symm.trans hplace)

-- Nobody gets a buffer but by an execution.
theorem perform_held (hlodged : Lodged rest s) {deed : Deed} (hdeed : ∀ machine, deed ≠ .execute machine)
    (hheld : s.part.context.held = []) : (perform deed).Ends s fun _ u => u.part.context.held = [] := by
  cases deed with
  | bind o => exact (s.part.context.grown_bind o).held.trans hheld
  | build device steps => exact (build_grown device steps s).mono fun _ _ ⟨_, hgrown⟩ => hgrown.held.trans hheld
  | compile graph batch config config' =>
    exact (compile_same graph batch config config' s).mono fun _ _ ⟨_, hsame⟩ => hsame ▸ hheld
  | execute machine => exact absurd rfl (hdeed machine)
  | sync objects =>
    have hsame := (sync_deals hlodged.books objects).mono fun _ _ hdeals =>
      (hdeals.same hlodged.books fun _ _ => Returns.reads).1
    exact (congrArg (List.filterMap Binding.key?) hsame).trans hheld
  | invalidate => exact held_detachAll _

end Tenant

namespace Household

variable {h : Household} {n : Nat} {t : Tenant}

-- Nobody leaves, and one of the tenants executes nothing.
def Move.Rests (n : Nat) : Move → Prop
  | .house (.act k (.execute _)) => k ≠ n
  | .house (.leave _) => False
  | _ => True

theorem step_held (hsound : House.Sound h.platform h.house.tenants) (ht : h.house.tenants[n]? = some t)
    (hheld : t.context.held = []) {move : Move} (hmove : move.Rests n) :
    ∃ t', (h.step move).house.tenants[n]? = some t' ∧ t'.context.held = [] := by
  cases move with
  | wait k i =>
    rw [(h.step_wait k i).1]
    exact ⟨t, ht, hheld⟩
  | waitLate i =>
    rw [(h.step_waitLate i).1]
    exact ⟨t, ht, hheld⟩
  | house move =>
    rw [house_step]
    cases move with
    | leave => exact hmove.elim
    | enter name places =>
      simp only [House.step]
      split
      case isFalse => exact ⟨t, ht, hheld⟩
      case isTrue => exact ⟨t, by rw [List.getElem?_append_left (List.getElem?_eq_some_iff.mp ht).1, ht], hheld⟩
    | act k deed =>
      simp only [House.step]
      cases hk : h.house.tenants[k]? with
      | none => exact ⟨t, ht, hheld⟩
      | some x =>
        dsimp only
        by_cases heq : k = n
        case neg => exact ⟨t, by rw [List.getElem?_set_ne heq, ht], hheld⟩
        case pos =>
          subst heq
          cases hk.symm.trans ht
          have hlodged := (hsound.perm (perm_cons_eraseIdx ht)).lodged
          have hdeed : ∀ machine, deed ≠ .execute machine := fun machine hexecute => by
            subst hexecute
            exact hmove rfl
          exact ⟨_, List.getElem?_set_self (List.getElem?_eq_some_iff.mp ht).1,
            Tenant.perform_held hlodged hdeed hheld⟩

theorem run_held (hsound : House.Sound h.platform h.house.tenants) (ht : h.house.tenants[n]? = some t)
    (hheld : t.context.held = []) {moves : List Move} (hmoves : ∀ move ∈ moves, move.Rests n) :
    ∃ t', (h.run moves).house.tenants[n]? = some t' ∧ t'.context.held = [] := by
  unfold run
  induction moves generalizing h t with
  | nil => exact ⟨t, ht, hheld⟩
  | cons move moves ih =>
    obtain ⟨hmove, hlater⟩ := List.forall_mem_cons.mp hmoves
    obtain ⟨t', ht', hheld'⟩ := step_held hsound ht hheld hmove
    exact ih (step_sound hsound move) ht' hheld' hlater

-- Whoever fails has no buffer any more.
theorem step_fails (hsound : House.Sound h.platform h.house.tenants) (ht : h.house.tenants[n]? = some t)
    {k : Nat} {m : Machine} (hm : t.machines[k]? = some m) {e : Error}
    (hfails : (m.execute ⟨h.platform, t.context⟩).1 = .error e) :
    ∃ t', (h.step (.house (.act n (.execute k)))).house.tenants[n]? = some t' ∧ t'.context.held = [] := by
  have hlodged := (hsound.perm (perm_cons_eraseIdx ht)).lodged
  have hexecute : (Tenant.execute k ⟨h.platform, t⟩).1 = .error e := by
    rw [Tenant.execute, Action.bind_of_ok (Action.get_apply _)]
    dsimp only
    rw [hm]
    have hcontext : Tenant.onContext m.execute ⟨h.platform, t⟩ = (.error e, _) := Prod.ext hfails rfl
    exact congrArg Prod.fst (Action.bind_of_error hcontext)
  have hnone := (Tenant.execute_stays hlodged k).2 e hexecute
  rw [house_step]
  simp only [House.step, ht]
  exact ⟨_, List.getElem?_set_self (List.getElem?_eq_some_iff.mp ht).1, Context.held_of_none hnone⟩

theorem run_distinct (hfresh : h.house.Fresh) (moves : List Move) (ht : t ∈ (h.run moves).house.tenants) :
    t.context.Distinct := by
  have hnobody : ∀ t ∈ h.house.tenants, t.Rooted fun _ => True := by
    rw [hfresh.tenants]
    exact nofun
  have hmeets : ∀ move ∈ moves, move.Meets (Tenant.Deed.Builds fun _ => True) := fun move _ => by
    match move with
    | .house (.act _ deed) => cases deed <;> trivial
    | .house (.enter ..) | .house (.leave _) | .wait .. | .waitLate _ => trivial
  exact ((run_custom (Tenant.rooted_custom fun _ => True) (fun _ _ _ => ⟨trivial, fun _ ht => ht⟩) hfresh.sound
    trivial hnobody hmeets).2 t ht).distinct

open House (first calling)

def faltering : List Tenant.Deed :=
  [.build 0 [.streamIn first, .task (calling "nothing" first)], .compile 0 none {} {},
    .build 0 [.streamIn first, .task (calling "increment" first), .streamOut first]]

-- There is no such kernel. Then the other graph is compiled.
def recovery : Household :=
  lodge.run (visit faltering ++ .house (.act 0 (.execute 0)) :: [.house (.act 0 (.compile 1 none {} {}))])

end Household
end Offload
