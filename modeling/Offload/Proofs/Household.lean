import Offload.Proofs.Await
import Offload.Proofs.Records
import Offload.Proofs.Sparing

/-!
Households: houses that keep what is left of the executions. It may be waited for at any time, also when the
context that it came from has given up its buffers, or is gone.
-/

namespace Offload

namespace Tenant

-- As `perform`, for whoever keeps what is left of an execution.
def act : Deed → On (Option Execution)
  | .execute machine => do
    match (← get).part.machines[machine]? with
    | some m => return some (← onContext m.execute)
    | none => return none
  | deed => do
    perform deed
    return none

end Tenant

structure Guest where
  tenant  : Tenant
  handles : List Execution := []

namespace Guest

def gains : Except Error (Option Execution) → List Execution
  | .ok (some e) => [e]
  | _ => []

-- The guest after a deed, and what it can no longer vouch for: all that is left of earlier executions, if its
-- context has no buffer any more, or went on to another device.
def after (g : Guest) (result : Except Error (Option Execution)) (t : Tenant) : Guest × List Execution :=
  if t.context.held = [] ∨ t.context.active ≠ g.tenant.context.active then
    ({ tenant := t, handles := gains result }, g.handles)
  else ({ tenant := t, handles := g.handles ++ gains result }, [])

end Guest

structure Household where
  platform : Platform
  guests   : List Guest := []
  -- What is left of executions that no guest can vouch for.
  late     : List Execution := []

namespace Household

-- What is left of an execution is called by its place.
inductive Move
  | house (move : House.Move)
  | wait (guest handle : Nat)
  | waitLate (handle : Nat)

def step (h : Household) : Move → Household
  | .house (.enter name devices) =>
    if ∀ place ∈ devices, place < h.platform.channels.length then
      { h with guests := h.guests ++ [{ tenant := { context := { name, devices } } }] }
    else h
  | .house (.act k deed) =>
    match h.guests[k]? with
    | none => h
    | some g =>
      let (result, s) := Tenant.act deed ⟨h.platform, g.tenant⟩
      let (g, lost) := g.after result s.part
      { platform := s.platform, guests := h.guests.set k g, late := h.late ++ lost }
  | .house (.leave k) =>
    match h.guests[k]? with
    | none => h
    | some g =>
      let s := (Tenant.perform .invalidate ⟨h.platform, g.tenant⟩).2
      { platform := s.platform, guests := h.guests.eraseIdx k, late := h.late ++ g.handles }
  | .wait k n =>
    match h.guests[k]? with
    | none => h
    | some g =>
      match g.handles[n]? with
      | none => h
      | some e =>
        let s := (Execution.wait ⟨h.platform, e⟩).2
        let g := { g with handles := g.handles.set n s.part }
        { h with platform := s.platform, guests := h.guests.set k g }
  | .waitLate n =>
    match h.late[n]? with
    | none => h
    | some e =>
      let s := (Execution.wait ⟨h.platform, e⟩).2
      { h with platform := s.platform, late := h.late.set n s.part }

def run (h : Household) (moves : List Move) : Household :=
  moves.foldl step h

-- But for what is left of executions, a household is a house.
def house (h : Household) : House where
  platform := h.platform
  tenants := h.guests.map Guest.tenant

end Household

-- No buffer changed, and no bytes.
structure Platform.Idle (p p' : Platform) : Prop where
  channels : p'.channels.length = p.channels.length
  bytes    : p'.registry.bytes = p.registry.bytes
  calm     : ∀ place, (p.channel place).Calm (p'.channel place)
  honest   : ∀ place, (p.channel place).Honest → (p'.channel place).Honest

theorem Platform.idle_lasting : Action.Lasting Platform.Idle where
  refl _ := ⟨rfl, rfl, fun _ => Channel.calm_lasting.refl _, fun _ => id⟩
  trans h h' := ⟨h'.channels.trans h.channels, h'.bytes.trans h.bytes,
    fun place => Channel.calm_lasting.trans (h.calm place) (h'.calm place),
    fun place => h'.honest place ∘ h.honest place⟩

theorem Platform.Idle.memory {p p' : Platform} (h : p.Idle p') (place : Nat) :
    (p'.channel place).device.memory = (p.channel place).device.memory :=
  (h.calm place).device.memory

namespace Execution

open Context (Owns)
open Platform (idle_lasting)

variable {α : Type} {place : Nat} {s t : Hosted Execution}

-- Waiting puts at most the device on record that it waits for.
structure Awaits (s t : Hosted Execution) : Prop where
  idle    : s.platform.Idle t.platform
  target  : t.part.target = s.part.target
  pending : t.part.pending ⊆ s.part.pending
  owns    : ∀ device h, Owns t.platform device h →
    Owns s.platform device h ∨ device = s.part.target.index ∧ h ∈ s.part.pending

theorem awaits_lasting : Action.Lasting Awaits where
  refl _ := ⟨idle_lasting.refl _, rfl, List.Subset.refl _, fun _ _ => .inl⟩
  trans := by
    intro s t u h h'
    refine ⟨idle_lasting.trans h.idle h'.idle, h'.target.trans h.target,
      List.Subset.trans h'.pending h.pending, fun device k howns => ?_⟩
    rcases h'.owns device k howns with hbefore | ⟨hdevice, hpending⟩
    case inl => exact h.owns device k hbefore
    case inr => exact .inr ⟨h.target ▸ hdevice, h.pending hpending⟩

theorem awaits_onTarget {act : Action Channel α} (hcalm : act.Keeps Channel.Calm)
    (hstill : act.Keeps Channel.Still) : (onTarget act).Keeps Awaits := by
  refine .bind awaits_lasting (.get awaits_lasting) fun e s => ?_
  refine ⟨⟨Platform.length_setChannel _ _, rfl, ?_, ?_⟩, rfl, List.Subset.refl _, fun _ _ => .inl⟩
  case refine_1 =>
    exact Platform.rel_onChannel (R := Channel.Calm) (fun _ => Channel.calm_lasting.refl _) act s.platform _
      (hcalm _)
  case refine_2 =>
    exact Platform.rel_onChannel (R := fun c c' => c.Honest → c'.Honest) (fun _ => id) act s.platform _
      (hstill _).aside.honest

theorem awaits_settle (events : List (Nat × EventId)) (failure : Option Error) :
    (settle events failure).Keeps Awaits := by
  have hR := awaits_lasting
  induction events generalizing failure with
  | nil => exact .pure hR _
  | cons event events ih =>
    unfold settle
    refine .bind hR (awaits_onTarget (Channel.calm_resolve _) (Channel.still_resolve _)) fun info => ?_
    split
    case h_1 =>
      refine .bind hR (.modify fun s => ?_) fun _ => ih _
      exact ⟨idle_lasting.refl _, rfl, List.Subset.refl _, fun _ _ => .inl⟩
    case h_2 => exact .bind hR (.get hR) fun _ => ih _
    case h_3 => exact ih _

theorem publish_all (device : Nat) (handles : List Handle) (p : Platform) :
    (handles.foldl (publish device) p).channels = p.channels ∧
      (handles.foldl (publish device) p).registry.bytes = p.registry.bytes ∧
        ∀ other k, Owns (handles.foldl (publish device) p) other k →
          Owns p other k ∨ other = device ∧ k ∈ handles := by
  induction handles generalizing p with
  | nil => exact ⟨rfl, rfl, fun _ _ => .inl⟩
  | cons h handles ih =>
    obtain ⟨hchannels, hbytes, howns⟩ := ih (publish device p h)
    refine ⟨hchannels, hbytes.trans (funext fun k => Registry.bytes_setOwner _ _ k _ _), fun other k hk => ?_⟩
    rcases howns other k hk with hfirst | ⟨hdevice, hmem⟩
    case inl =>
      exact (Context.owns_setOwner hfirst).imp_right fun ⟨heq, hdevice⟩ =>
        ⟨hdevice, List.mem_cons.mpr (.inl heq)⟩
    case inr => exact .inr ⟨hdevice, List.mem_cons_of_mem h hmem⟩

-- What is published is put on record, unless it was released.
theorem record?_publishAll (device : Nat) (handles : List Handle) (p : Platform) (h : Handle) :
    (handles.foldl (publish device) p).registry.record? h =
      if h ∈ handles then (p.registry.record? h).map fun _ => { owner := some device, shared := true }
      else p.registry.record? h := by
  induction handles generalizing p with
  | nil => rfl
  | cons k handles ih =>
    have hfirst : (publish device p k).registry.record? h =
        if h = k then (p.registry.record? h).map fun _ => { owner := some device, shared := true }
        else p.registry.record? h := Registry.record?_setOwner p.registry k h device true
    rw [List.foldl_cons, ih, hfirst]
    by_cases hk : h = k
    case pos => simp [hk, Function.comp_def]
    case neg => simp [hk]

theorem wait_awaits : wait.Keeps Awaits := by
  have hR := awaits_lasting
  unfold wait
  refine .bind hR (.get hR) fun e => .bind hR
    (awaits_onTarget (Channel.calm_wait _) (Channel.still_wait _)) fun _ => .bind hR (awaits_settle _ _)
      fun found => ?_
  split
  case h_1 => exact .throw hR _
  case h_2 =>
    refine .modify fun s => ?_
    obtain ⟨hchannels, hbytes, howns⟩ := publish_all s.part.target.index s.part.pending s.platform
    have hchannel (place : Nat) :
        (s.part.pending.foldl (publish s.part.target.index) s.platform).channel place =
          s.platform.channel place := by
      rw [Platform.channel, hchannels]
      rfl
    refine ⟨⟨congrArg List.length hchannels, hbytes, fun place => ?_, fun place => ?_⟩, rfl,
      List.nil_subset _, howns⟩
    case refine_1 => rw [hchannel]; exact Channel.calm_lasting.refl _
    case refine_2 => rw [hchannel]; exact id

end Execution

namespace House

open Context
open Tenant (Lodged)

variable {B : Prop} {k : Handle} {p p' : Platform} {ts : List Tenant}

theorem Sound.idle (hsound : Sound p ts) (h : p.Idle p') : Sound p' ts := by
  have hlengths (k : Handle) : p'.registry.byteLength k = p.registry.byteLength k := by
    rw [Registry.byteLength, h.bytes]
    rfl
  refine ⟨fun k => hlengths k ▸ hsound.words k, fun place => h.honest place (hsound.honest place),
    fun place => ?_, fun place => ?_, fun t ht => (hsound.fits t ht).mono h.channels hlengths⟩
  case refine_1 => exact h.memory place ▸ hsound.orderly place
  case refine_2 => exact h.memory place ▸ hsound.balanced place

theorem Spared.idle (hspared : Spared B k p ts) (h : p.Idle p') : Spared B k p' ts := fun t ht =>
  (hspared t ht).imp_right fun hmirrors => hmirrors.frame (congrFun h.bytes k) fun place _ _ _ => by
    rw [h.memory]
    rfl

end House

-- To keep what is left of an execution makes no difference to the tenant.
theorem Tenant.act_eq (deed : Deed) (s : Hosted Tenant) : (act deed s).2 = (perform deed s).2 := by
  cases deed with
  | execute machine =>
    rw [act, perform, execute, Action.bind_of_ok (Action.get_apply s), Action.bind_of_ok (Action.get_apply s)]
    cases s.part.machines[machine]? with
    | none => rfl
    | some m =>
      exact (Action.snd_bind_pure (onContext m.execute) some s).trans
        (Action.snd_bind_pure (onContext m.execute) (fun _ => PUnit.unit) s).symm
  | _ => exact Action.snd_bind_pure (perform _) (fun _ => none) s

namespace Household

variable {h : Household} {k n : Nat}

theorem tenants_after (g : Guest) (result : Except Error (Option Execution)) (t : Tenant) :
    (g.after result t).1.tenant = t := by
  unfold Guest.after
  split <;> rfl

theorem house_step (h : Household) (move : House.Move) : (h.step (.house move)).house = h.house.step move := by
  cases move with
  | enter name devices =>
    by_cases hplaces : ∀ place ∈ devices, place < h.platform.channels.length
    case pos =>
      have hhouse : ∀ place ∈ devices, place < h.house.platform.channels.length := hplaces
      rw [step, if_pos hplaces, House.step, if_pos hhouse, house, List.map_append]
      rfl
    case neg =>
      have hhouse : ¬∀ place ∈ devices, place < h.house.platform.channels.length := hplaces
      rw [step, if_neg hplaces, House.step, if_neg hhouse]
  | act k deed =>
    simp only [step, House.step, house, List.getElem?_map]
    cases hk : h.guests[k]? with
    | none => rfl
    | some g =>
      rcases hact : Tenant.act deed ⟨h.platform, g.tenant⟩ with ⟨result, s⟩
      have hperform : (Tenant.perform deed ⟨h.platform, g.tenant⟩).2 = s := by rw [← Tenant.act_eq, hact]
      simp [hact, hperform, List.map_set, tenants_after]
  | leave k =>
    simp only [step, House.step, house, List.getElem?_map]
    cases hk : h.guests[k]? with
    | none => rfl
    | some g => simp [List.eraseIdx_map]

-- Waiting is nothing that the tenants would notice.
theorem step_wait (h : Household) (k n : Nat) :
    (h.step (.wait k n)).house.tenants = h.house.tenants ∧ h.platform.Idle (h.step (.wait k n)).platform := by
  have hrefl := Platform.idle_lasting.refl h.platform
  simp only [step]
  cases hk : h.guests[k]? with
  | none => exact ⟨rfl, hrefl⟩
  | some g =>
    dsimp only
    cases hn : g.handles[n]? with
    | none => exact ⟨rfl, hrefl⟩
    | some e =>
      refine ⟨?_, (Execution.wait_awaits ⟨h.platform, e⟩).idle⟩
      have htenant : (h.guests.map Guest.tenant)[k]? = some g.tenant := by
        rw [List.getElem?_map, hk, Option.map_some]
      obtain ⟨hlt, hget⟩ := List.getElem?_eq_some_iff.mp htenant
      simp only [house, List.map_set]
      rw [← hget, List.set_getElem_self]

theorem step_waitLate (h : Household) (n : Nat) :
    (h.step (.waitLate n)).house.tenants = h.house.tenants ∧
      h.platform.Idle (h.step (.waitLate n)).platform := by
  simp only [step]
  cases h.late[n]? with
  | none => exact ⟨rfl, Platform.idle_lasting.refl h.platform⟩
  | some e => exact ⟨rfl, (Execution.wait_awaits ⟨h.platform, e⟩).idle⟩

theorem step_sound (hsound : House.Sound h.platform h.house.tenants) (move : Move) :
    House.Sound (h.step move).platform (h.step move).house.tenants := by
  cases move with
  | house move =>
    have hstep := House.step_sound (h := h.house) hsound move
    rwa [← house_step] at hstep
  | wait k n =>
    obtain ⟨htenants, hidle⟩ := h.step_wait k n
    exact htenants ▸ hsound.idle hidle
  | waitLate n =>
    obtain ⟨htenants, hidle⟩ := h.step_waitLate n
    exact htenants ▸ hsound.idle hidle

theorem run_sound (hsound : House.Sound h.platform h.house.tenants) (moves : List Move) :
    House.Sound (h.run moves).platform (h.run moves).house.tenants := by
  unfold run
  induction moves generalizing h with
  | nil => exact hsound
  | cons move moves ih => exact ih (step_sound hsound move)

def Move.Meets (Q : Tenant.Deed → Prop) : Move → Prop
  | .house move => move.Meets Q
  | _ => True

instance {Q : Tenant.Deed → Prop} [DecidablePred Q] : DecidablePred (Move.Meets Q) := fun move =>
  match move with
  | .house move => inferInstanceAs (Decidable (move.Meets Q))
  | .wait .. | .waitLate _ => isTrue trivial

theorem step_spared {B : Prop} {o : Handle} (hsound : House.Sound h.platform h.house.tenants)
    (hspared : House.Spared B o h.platform h.house.tenants) {move : Move}
    (hmove : move.Meets (Tenant.Deed.Spares B o)) :
    (h.step move).platform.registry.bytes o = h.platform.registry.bytes o ∧
      House.Spared B o (h.step move).platform (h.step move).house.tenants := by
  cases move with
  | house move =>
    have hstep := House.step_spared (h := h.house) hsound hspared hmove
    rwa [← house_step] at hstep
  | wait k n =>
    obtain ⟨htenants, hidle⟩ := h.step_wait k n
    exact ⟨congrFun hidle.bytes o, htenants ▸ hspared.idle hidle⟩
  | waitLate n =>
    obtain ⟨htenants, hidle⟩ := h.step_waitLate n
    exact ⟨congrFun hidle.bytes o, htenants ▸ hspared.idle hidle⟩

theorem run_spared {B : Prop} {o : Handle} (hsound : House.Sound h.platform h.house.tenants)
    (hspared : House.Spared B o h.platform h.house.tenants) {moves : List Move}
    (hmoves : ∀ move ∈ moves, move.Meets (Tenant.Deed.Spares B o)) :
    (h.run moves).platform.registry.bytes o = h.platform.registry.bytes o ∧
      House.Spared B o (h.run moves).platform (h.run moves).house.tenants := by
  unfold run
  induction moves generalizing h with
  | nil => exact ⟨rfl, hspared⟩
  | cons move moves ih =>
    obtain ⟨hmove, hlater⟩ := List.forall_mem_cons.mp hmoves
    obtain ⟨hbytes, hnext⟩ := step_spared hsound hspared hmove
    exact (ih (step_sound hsound move) hnext hlater).imp_left fun hrest => hrest.trans hbytes

-- In one pass or with the object brought in by every graph: either way it is spared.
theorem exists_spares {o : Handle} {moves : List Move}
    (havoids : ∀ move ∈ moves, move.Meets (Tenant.Deed.Avoids o))
    (hway : (∀ move ∈ moves, move.Meets Tenant.Deed.Whole) ∨
      ∀ move ∈ moves, move.Meets (Tenant.Deed.Refills o)) :
    ∃ B, ∀ move ∈ moves, move.Meets (Tenant.Deed.Spares B o) := by
  rcases hway with hwhole | hrefills
  case inl =>
    refine ⟨False, fun move hmove => ?_⟩
    have havoids := havoids move hmove
    have hwhole := hwhole move hmove
    match move with
    | .house (.act _ deed) => exact ⟨havoids, False.elim, fun _ => hwhole⟩
    | .house (.enter ..) | .house (.leave _) | .wait .. | .waitLate _ => trivial
  case inr =>
    refine ⟨True, fun move hmove => ?_⟩
    have havoids := havoids move hmove
    have hrefills := hrefills move hmove
    match move with
    | .house (.act _ deed) => exact ⟨havoids, fun _ => hrefills, fun hnot => absurd trivial hnot⟩
    | .house (.enter ..) | .house (.leave _) | .wait .. | .waitLate _ => trivial

theorem spared_of_fresh (hfresh : h.house.Fresh) {B : Prop} {o : Handle} :
    House.Spared B o h.platform h.house.tenants := by
  rw [hfresh.tenants]
  exact nofun

-- Whatever is brought in and out, and whoever waits for it, the bytes of an object stay as they are, as long
-- as no task has to do with it and nothing but what was brought in is brought out.
theorem run_bytes (hfresh : h.house.Fresh) {o : Handle} {moves : List Move}
    (havoids : ∀ move ∈ moves, move.Meets (Tenant.Deed.Avoids o))
    (hway : (∀ move ∈ moves, move.Meets Tenant.Deed.Whole) ∨
      ∀ move ∈ moves, move.Meets (Tenant.Deed.Refills o)) :
    (h.run moves).platform.registry.bytes o = h.platform.registry.bytes o := by
  obtain ⟨B, hspares⟩ := exists_spares havoids hway
  exact (run_spared hfresh.sound (spared_of_fresh hfresh) hspares).1

open House (first second calling)

-- A device and two objects of two bytes each, before anybody came.
def lodge : Household where
  platform := House.inn.platform

theorem lodge_fresh : lodge.house.Fresh :=
  ⟨rfl, by simp [lodge, house, House.inn], by simp [lodge, house, House.inn], by decide⟩

def visit (deeds : List Tenant.Deed) : List Move :=
  .house (.enter "one" [0]) :: deeds.map fun deed => .house (.act 0 deed)

-- One object is only moved, byte by byte, while the other is counted up.
def tour : List Step :=
  [.streamIn first, .streamOut first, .streamIn second, .task (calling "increment" second), .streamOut second]

def outing : List Move :=
  visit [.build 0 tour, .compile 0 (some 1) {} {}, .execute 0] ++ [.wait 0 0]

theorem tour_refills : Step.Refills first.handle tour := by
  intro pre o post hsplit hfirst
  rcases pre with _ | ⟨x, _ | ⟨y, _ | ⟨z, _ | ⟨a, _ | ⟨b, pre⟩⟩⟩⟩⟩ <;> simp [tour] at hsplit
  case cons.nil => exact ⟨first, by rw [← hsplit.1]; exact List.mem_cons_self, rfl⟩
  case cons.cons.cons.cons.nil =>
    rw [← hsplit.2.2.2.2.1] at hfirst
    cases hfirst

theorem outing_refills : ∀ move ∈ outing, move.Meets (Tenant.Deed.Refills first.handle) := by
  simp [outing, visit, Move.Meets, House.Move.Meets, Tenant.Deed.Refills, tour_refills]

theorem lodge_bytes : lodge.house.Fresh ∧ (∀ move ∈ outing, move.Meets (Tenant.Deed.Avoids first.handle)) ∧
    (∀ move ∈ outing, move.Meets (Tenant.Deed.Refills first.handle)) ∧
    (lodge.run outing).platform.registry.bytes second.handle = [4, 5] ∧
    (lodge.run outing).platform.registry.bytes first.handle = lodge.platform.registry.bytes first.handle := by
  have havoids : ∀ move ∈ outing, move.Meets (Tenant.Deed.Avoids first.handle) := by decide
  exact ⟨lodge_fresh, havoids, outing_refills, by decide +kernel,
    run_bytes lodge_fresh havoids (.inr outing_refills)⟩

def muddle : List Tenant.Deed :=
  [.build 0 [.streamIn first], .build 0 [.streamOut first], .compile 0 (some 1) {} {},
    .compile 1 (some 1) {} {}, .execute 0, .execute 1]

-- The first program leaves the last byte in the buffer, and the second one copies that to every place.
theorem lodge_muddled : lodge.house.Fresh ∧
    (∀ move ∈ visit muddle, move.Meets (Tenant.Deed.Avoids first.handle)) ∧
    lodge.platform.registry.bytes first.handle = [1, 2] ∧
    (lodge.run (visit muddle)).platform.registry.bytes first.handle = [2, 2] ∧
    (lodge.run (visit muddle)).guests.map (·.handles.length) = [2] :=
  ⟨lodge_fresh, by decide, by decide, by decide +kernel, by decide +kernel⟩

end Household
end Offload
