import Offload.Machine.Execution
import Offload.Proofs.Execute

/-!
Waiting for an execution disturbs nothing that the next one relies on, and succeeds if all events of the
execution are complete, but not if one of them failed.
-/

namespace Offload

-- Apart from who owns what, and what was noted, everything is as it was.
structure Platform.Undisturbed (place : Nat) (p p' : Platform) : Prop where
  bytes    : p'.registry.bytes = p.registry.bytes
  channels : p'.channels.length = p.channels.length
  device   : (p'.channel place).device = (p.channel place).device

namespace Platform.Undisturbed

variable {place : Nat} {p p' p'' : Platform}

theorem refl (p : Platform) : Undisturbed place p p :=
  ⟨rfl, rfl, rfl⟩

theorem trans (h : Undisturbed place p p') (h' : Undisturbed place p' p'') : Undisturbed place p p'' :=
  ⟨h'.bytes.trans h.bytes, h'.channels.trans h.channels, h'.device.trans h.device⟩

theorem setChannel (hplace : place < p.channels.length) {c : Channel}
    (hc : c.device = (p.channel place).device) : Undisturbed place p (p.setChannel place c) where
  bytes := rfl
  channels := length_setChannel p c
  device := by rw [channel_setChannel hplace, hc]

theorem status?_eq (h : Undisturbed place p p') (e : EventId) :
    (p'.channel place).queue.status? e = (p.channel place).queue.status? e := by
  rw [Channel.queue, h.device]
  rfl

theorem publish (device : Nat) (handles : List Handle) (p : Platform) :
    Undisturbed place p (handles.foldl (Execution.publish device) p) := by
  induction handles generalizing p with
  | nil => exact .refl p
  | cons h handles ih =>
    have hfirst : Undisturbed place p (Execution.publish device p h) :=
      ⟨funext fun k => Registry.bytes_setOwner _ _ k _ _, rfl, rfl⟩
    exact hfirst.trans (ih _)

theorem intact {b : Bench} {s : Hosted Context} (hi : Intact b s)
    (h : Undisturbed b.place s.platform p') :
    Intact b { s with platform := p' } ∧
      ({ s with platform := p' } : Hosted Context).world b.place = s.world b.place := by
  have hdevice : ({ s with platform := p' } : Hosted Context).device b.place = s.device b.place := h.device
  have hframe : Frame b.place s { s with platform := p' } :=
    ⟨rfl, h.channels, by rw [hdevice], by rw [hdevice], rfl, rfl, rfl, rfl, by rw [hdevice]; exact id⟩
  refine ⟨hi.of_frame hframe ?_ hi.apart, World.ext h.bytes (funext fun k => ?_)⟩
  case refine_1 =>
    rw [hdevice]
    exact hi.sized
  case refine_2 =>
    rw [Hosted.world, hdevice]
    rfl

end Platform.Undisturbed

-- The failure of an event, as an error of a device.
def Device.fault? (d : Device) (device : Nat) (e : EventId) : Option Error :=
  match d.status? e with
  | some (.failed fault) => some (.device device e.number fault)
  | _ => none

-- The first failure among some events.
def Device.failure? (d : Device) (device : Nat) (events : List (Nat × EventId)) : Option Error :=
  events.findSome? fun x => d.fault? device x.2

-- The states of instructions once it is known which of the events ended well.
def Device.settled (d : Device) (events : List (Nat × EventId)) (states : List Progress) : List Progress :=
  events.foldl (fun states x => if d.status? x.2 = some .complete then states.set x.1 .completed else states) states

theorem Device.fault?_eq_some {d : Device} {device : Nat} {e : EventId} {error : Error} :
    d.fault? device e = some error ↔
      ∃ fault, d.status? e = some (.failed fault) ∧ error = .device device e.number fault := by
  unfold fault?
  cases d.status? e with
  | none => simp
  | some status => cases status <;> simp [eq_comm]

theorem Device.failure?_eq_none {d : Device} (device : Nat) {events : List (Nat × EventId)} :
    d.failure? device events = none ↔ ∀ x ∈ events, ∀ fault, d.status? x.2 ≠ some (.failed fault) := by
  rw [failure?, List.findSome?_eq_none_iff]
  refine forall₂_congr fun x _ => ?_
  rw [Option.eq_none_iff_forall_ne_some]
  constructor
  case mp => exact fun h fault hfault => h _ (fault?_eq_some.mpr ⟨fault, hfault, rfl⟩)
  case mpr =>
    intro h error herror
    obtain ⟨fault, hfault, _⟩ := fault?_eq_some.mp herror
    exact h fault hfault

namespace Execution

-- What waiting answers, puts on record and leaves, once a device tells how all events ended.
def answer (e : Execution) (d : Device) : Except Error Unit :=
  match d.failure? e.target.index e.events with
  | some failure => .error failure
  | none => .ok ⟨⟩

def published (e : Execution) (d : Device) : List Handle :=
  if (d.failure? e.target.index e.events).isNone then e.pending else []

def waited (e : Execution) (d : Device) : Execution :=
  { e with
    states := d.settled e.events e.states
    pending := if (d.failure? e.target.index e.events).isNone then [] else e.pending }

open Platform (Undisturbed)

variable {place : Nat} {s : Hosted Execution}

theorem onTarget_eq {α : Type} (hplace : s.part.target.place = place) (act : Action Channel α) :
    onTarget act s = ((act (s.platform.channel place)).1,
      { s with platform := s.platform.setChannel place (act (s.platform.channel place)).2 }) := by
  unfold onTarget
  rw [Action.bind_of_ok (Action.get_apply s), hplace]
  rfl

theorem resolve_known (hplace : s.part.target.place = place) (hattached : place < s.platform.channels.length)
    {e : EventId} {status : EventStatus} (h : (s.queue place).status? e = some status) :
    ∃ info p', resolve e s = (.ok info, { s with platform := p' }) ∧ info.status = status ∧
      Undisturbed place s.platform p' ∧ p'.registry = s.platform.registry := by
  obtain ⟨info, c, hc, hstatus, hdevice⟩ := Channel.resolve_known (p := s.platform.channel place) h
  have hcall := onTarget_eq hplace (Channel.resolve e)
  rw [hc] at hcall
  exact ⟨info, _, hcall, hstatus, .setChannel hattached hdevice, rfl⟩

-- Settling passes on a failure that it was given, and finds the first one otherwise.
theorem settle_eq (events : List (Nat × EventId)) (failure : Option Error)
    (hplace : s.part.target.place = place) (hattached : place < s.platform.channels.length)
    (hknown : ∀ x ∈ events, ((s.queue place).status? x.2).isSome) :
    ∃ p', settle events failure s =
        (.ok (failure.or ((s.platform.channel place).device.failure? s.part.target.index events)),
          ⟨p', { s.part with states := (s.platform.channel place).device.settled events s.part.states }⟩) ∧
      Undisturbed place s.platform p' ∧ p'.registry = s.platform.registry := by
  induction events generalizing s failure with
  | nil => exact ⟨s.platform, by simp [settle, Device.failure?, Device.settled]; rfl, .refl _, rfl⟩
  | cons x events ih =>
    obtain ⟨status, hstatus⟩ := Option.isSome_iff_exists.mp (hknown x (by simp))
    obtain ⟨info, p', hresolve, hinfo, hp', hregistry⟩ := resolve_known hplace hattached hstatus
    have hstatus' : (s.platform.channel place).device.status? x.2 = some status := hstatus
    have hrest (states : List Progress) (failure : Option Error) :
        ∃ p'', settle events failure ⟨p', { s.part with states }⟩ =
            (.ok (failure.or ((s.platform.channel place).device.failure? s.part.target.index events)),
              ⟨p'', { s.part with states := (s.platform.channel place).device.settled events states }⟩) ∧
          Undisturbed place s.platform p'' ∧ p''.registry = s.platform.registry := by
      obtain ⟨p'', hsettle, hp'', hregistry'⟩ := ih (s := ⟨p', { s.part with states }⟩) failure hplace
        (hp'.channels ▸ hattached) fun y hy => by
          change ((p'.channel place).queue.status? y.2).isSome
          rw [hp'.status?_eq]
          exact hknown y (List.mem_cons_of_mem _ hy)
      rw [hp'.device] at hsettle
      exact ⟨p'', hsettle, hp'.trans hp'', hregistry'.trans hregistry⟩
    unfold settle
    rw [Action.bind_of_ok hresolve, hinfo]
    cases status with
    | complete =>
      obtain ⟨p'', hsettle, hp''⟩ := hrest (s.part.states.set x.1 .completed) failure
      refine ⟨p'', ((Action.bind_of_ok (Action.modify_apply _ _)).trans hsettle).trans ?_, hp''⟩
      simp [Device.failure?, Device.fault?, Device.settled, hstatus']
    | failed fault =>
      obtain ⟨p'', hsettle, hp''⟩ := hrest s.part.states
        (some (failure.getD (.device s.part.target.index x.2.number fault)))
      refine ⟨p'', ((Action.bind_of_ok (Action.get_apply _)).trans hsettle).trans ?_, hp''⟩
      cases failure <;> simp [Device.failure?, Device.fault?, Device.settled, hstatus']
    | queued | running =>
      obtain ⟨p'', hsettle, hp''⟩ := hrest s.part.states failure
      refine ⟨p'', hsettle.trans ?_, hp''⟩
      simp [Device.failure?, Device.fault?, Device.settled, hstatus']

-- What comes of waiting for events that are all known.
theorem wait_eq (hplace : s.part.target.place = place) (hattached : place < s.platform.channels.length)
    (hknown : ∀ x ∈ s.part.events, ((s.queue place).status? x.2).isSome) :
    ∃ p', Undisturbed place s.platform p' ∧ p'.registry = s.platform.registry ∧
      wait s = (s.part.answer (s.platform.channel place).device,
        ⟨(s.part.published (s.platform.channel place).device).foldl (publish s.part.target.index) p',
          s.part.waited (s.platform.channel place).device⟩) := by
  have hcall := onTarget_eq hplace (Channel.wait (s.part.events.map Prod.snd))
  have hwaited := Channel.wait_ends (s.part.events.map Prod.snd) (s.platform.channel place)
  rcases hwait : Channel.wait (s.part.events.map Prod.snd) (s.platform.channel place) with ⟨result, c⟩
  rw [hwait] at hcall
  obtain ⟨hdevice, hok⟩ := hwaited.of_eq hwait
  obtain rfl : result = .ok ⟨⟩ := hok.mpr fun e he => by
    obtain ⟨x, hx, rfl⟩ := List.mem_map.mp he
    exact hknown x hx
  have hc : Undisturbed place s.platform (s.platform.setChannel place c) := .setChannel hattached hdevice
  obtain ⟨p', hsettle, hp', hregistry⟩ := settle_eq
    (s := { s with platform := s.platform.setChannel place c }) s.part.events none hplace (hc.channels ▸ hattached)
    fun x hx => by
      change (((s.platform.setChannel place c).channel place).queue.status? x.2).isSome
      rw [hc.status?_eq]
      exact hknown x hx
  rw [hc.device, Option.none_or] at hsettle
  refine ⟨p', hc.trans hp', hregistry, ?_⟩
  unfold wait
  rw [Action.bind_of_ok (Action.get_apply s), Action.bind_of_ok hcall, Action.bind_of_ok hsettle]
  cases hfailure : (s.platform.channel place).device.failure? s.part.target.index s.part.events <;>
    simp only [answer, published, waited, hfailure]
  case none => rfl
  case some => rfl

theorem answer_eq_ok {e : Execution} {d : Device} :
    e.answer d = .ok ⟨⟩ ↔ ∀ x ∈ e.events, ∀ fault, d.status? x.2 ≠ some (.failed fault) := by
  rw [← Device.failure?_eq_none e.target.index, answer]
  cases d.failure? e.target.index e.events <;> simp

-- Waiting succeeds if all events are complete, and fails if one of them failed.
theorem wait_ends (hplace : s.part.target.place = place) (hattached : place < s.platform.channels.length) :
    wait.Ends s fun r t => Undisturbed place s.platform t.platform ∧
      ((∀ x ∈ s.part.events, (s.queue place).status? x.2 = some .complete) → r = .ok ⟨⟩) ∧
      (r = .ok ⟨⟩ → ∀ x ∈ s.part.events, ∀ fault, (s.queue place).status? x.2 ≠ some (.failed fault)) := by
  by_cases hknown : ∀ x ∈ s.part.events, ((s.queue place).status? x.2).isSome
  case pos =>
    obtain ⟨p', hp', _, hwait⟩ := wait_eq hplace hattached hknown
    unfold Action.Ends
    rw [hwait]
    refine ⟨hp'.trans (.publish _ _ p'), fun hcomplete => ?_, answer_eq_ok.mp⟩
    refine answer_eq_ok.mpr fun x hx fault hfault => ?_
    cases (hcomplete x hx).symm.trans hfault
  case neg =>
    unfold wait
    refine Action.Ends.bind_get ?_
    have hcall := onTarget_eq hplace (Channel.wait (s.part.events.map Prod.snd))
    rcases hwait : Channel.wait (s.part.events.map Prod.snd) (s.platform.channel place) with ⟨result, c⟩
    rw [hwait] at hcall
    obtain ⟨hdevice, hok⟩ := (Channel.wait_ends _ _).of_eq hwait
    cases result with
    | ok => exact absurd (fun x hx => hok.mp rfl _ (List.mem_map_of_mem hx)) hknown
    | error e =>
      refine Action.Ends.bind_of_error hcall ⟨.setChannel hattached hdevice, fun hcomplete => ?_, nofun⟩
      exact absurd (fun x hx => Option.isSome_iff_exists.mpr ⟨_, hcomplete x hx⟩) hknown

end Execution
end Offload
