import Offload.Proofs.Progress

/-!
What becomes of an execution by waiting for it. All its commands ended well, and then nothing of it is left open and
what it copied back is put on record; or the first that failed is told, and what failed stays open. Waiting again
changes nothing.
-/

namespace Offload

namespace Device

variable {d d' : Device} {device k : Nat} {events : List (Nat × EventId)} {states : List Progress} {error : Error}

theorem failure?_eq_some : d.failure? device events = some error ↔
    ∃ before x after fault, events = before ++ x :: after ∧ d.status? x.2 = some (.failed fault) ∧
      error = .device device x.2.number fault ∧ d.failure? device before = none := by
  rw [failure?, List.findSome?_eq_some_iff]
  constructor
  case mp =>
    rintro ⟨before, x, after, hevents, hx, hbefore⟩
    obtain ⟨fault, hstatus, herror⟩ := fault?_eq_some.mp hx
    exact ⟨before, x, after, fault, hevents, hstatus, herror, List.findSome?_eq_none_iff.mpr hbefore⟩
  case mpr =>
    rintro ⟨before, x, after, fault, hevents, hstatus, herror, hbefore⟩
    exact ⟨before, x, after, hevents, fault?_eq_some.mpr ⟨fault, hstatus, herror⟩,
      List.findSome?_eq_none_iff.mp hbefore⟩

theorem failure?_congr (h : ∀ x ∈ events, d'.status? x.2 = d.status? x.2) :
    d'.failure? device events = d.failure? device events := by
  induction events with
  | nil => rfl
  | cons x events ih =>
    have ⟨hx, hrest⟩ := List.forall_mem_cons.mp h
    have hfault : d'.fault? device x.2 = d.fault? device x.2 := by rw [fault?, fault?, hx]
    rw [failure?, failure?, List.findSome?_cons, List.findSome?_cons, hfault, ← failure?, ← failure?, ih hrest]

theorem settled_congr (h : ∀ x ∈ events, d'.status? x.2 = d.status? x.2) :
    d'.settled events states = d.settled events states := by
  induction events generalizing states with
  | nil => rfl
  | cons x events ih =>
    have ⟨hx, hrest⟩ := List.forall_mem_cons.mp h
    rw [settled, settled, List.foldl_cons, List.foldl_cons, hx, ← settled, ← settled, ih hrest]

-- An instruction is over once its event is found to have ended well, and as it was otherwise.
theorem getElem?_settled : (d.settled events states)[k]? =
    if events.any (fun x => x.1 = k ∧ d.status? x.2 = some .complete) then states[k]?.map fun _ => .completed
    else states[k]? := by
  induction events generalizing states with
  | nil => rfl
  | cons x events ih =>
    rw [settled, List.foldl_cons, ← settled, ih, List.any_cons]
    by_cases hx : x.1 = k ∧ d.status? x.2 = some .complete
    case pos =>
      obtain ⟨rfl, hx⟩ := hx
      rw [if_pos hx, List.getElem?_set_self', hx]
      cases states[x.1]? <;> simp
    case neg =>
      have hsame : (if d.status? x.2 = some .complete then states.set x.1 .completed else states)[k]? = states[k]? := by
        split
        case isFalse => rfl
        case isTrue hcomplete => exact List.getElem?_set_ne fun hk => hx ⟨hk, hcomplete⟩
      rw [hsame, decide_eq_false hx, Bool.false_or]

theorem length_settled : (d.settled events states).length = states.length := by
  induction events generalizing states with
  | nil => rfl
  | cons x events ih =>
    rw [settled, List.foldl_cons, ← settled, ih]
    split <;> simp

theorem settled_settled : d.settled events (d.settled events states) = d.settled events states := by
  refine List.ext_getElem? fun k => ?_
  rw [getElem?_settled, getElem?_settled]
  split <;> simp [Function.comp_def]

end Device
-- An instruction has at most one event.
theorem Machine.HandsOver.unique {m : Machine} {c : Context} {e : Execution} (h : m.HandsOver c e)
    {x y : Nat × EventId} (hx : x ∈ e.events) (hy : y ∈ e.events) (heq : x.1 = y.1) : x = y := by
  have hnodup : (e.events.map Prod.fst).Nodup := List.pairwise_map.mpr (h.rising.imp fun h => Nat.ne_of_lt h.1)
  exact List.inj_on_of_nodup_map hnodup hx hy heq

namespace Execution

variable {m : Machine} {c : Context} {e : Execution} {p p' : Platform} {result : Except Error Unit}
  {u : Hosted Execution}

-- What an execution comes to when it is waited for on a platform, what is answered, and what is left of it.
inductive Waits (e : Execution) (p : Platform) : Except Error Unit → Hosted Execution → Prop
  | complete {u : Hosted Execution}
    (hcomplete : ∀ x ∈ e.events, (p.channel e.target.place).device.status? x.2 = some .complete)
    (hstates : u.part.states = e.states.map fun _ => .completed)
    (hrecords : ∀ h, u.platform.registry.record? h =
      if h ∈ e.pending then
        (p.registry.record? h).map fun _ => { owner := some e.target.index, shared := true }
      else p.registry.record? h) : Waits e p (.ok ⟨⟩) u
  | failed {u : Hosted Execution} {before after : List (Nat × EventId)} {x : Nat × EventId} {fault : CommandFault}
    (hevents : e.events = before ++ x :: after)
    (hbefore : ∀ y ∈ before, (p.channel e.target.place).device.status? y.2 = some .complete)
    (hfault : (p.channel e.target.place).device.status? x.2 = some (.failed fault))
    (hlength : u.part.states.length = e.states.length)
    (hissued : ∀ k, u.part.states[k]? = some .issued ↔ ∃ event fault, (k, event) ∈ e.events ∧
      (p.channel e.target.place).device.status? event = some (.failed fault))
    (hothers : ∀ progress ∈ u.part.states, progress = .issued ∨ progress = .completed)
    (hregistry : u.platform.registry = p.registry) : Waits e p (.error (.device e.target.index x.2.number fault)) u

-- An event that is over and did not fail is complete.
theorem Known.complete (hknown : e.Known p) {x : Nat × EventId} (hx : x ∈ e.events)
    (hnot : ∀ fault, (p.channel e.target.place).device.status? x.2 ≠ some (.failed fault)) :
    (p.channel e.target.place).device.status? x.2 = some .complete := by
  obtain ⟨status, hstatus, hdone⟩ := hknown.ended x hx
  cases status with
  | complete => exact hstatus
  | failed fault => exact absurd hstatus (hnot fault)
  | queued | running => cases hdone

theorem Known.isSome (hknown : e.Known p) : ∀ x ∈ e.events,
    (Hosted.queue e.target.place ⟨p, e⟩).status? x.2 |>.isSome := fun x hx => by
  obtain ⟨status, hstatus, _⟩ := hknown.ended x hx
  exact Option.isSome_iff_exists.mpr ⟨status, hstatus⟩

-- The instructions that are still open are those whose events failed.
theorem settled_issued (h : m.HandsOver c e) (hknown : e.Known p) (k : Nat) :
    ((p.channel e.target.place).device.settled e.events e.states)[k]? = some .issued ↔
      ∃ event fault, (k, event) ∈ e.events ∧
        (p.channel e.target.place).device.status? event = some (.failed fault) := by
  rw [Device.getElem?_settled]
  split
  case isTrue hany =>
    obtain ⟨x, hx, hsame⟩ := List.any_eq_true.mp hany
    obtain ⟨rfl, hcomplete⟩ := of_decide_eq_true hsame
    refine iff_of_false (by cases e.states[x.1]? <;> simp) ?_
    rintro ⟨event, fault, hevent, hfault⟩
    have hone : (x.1, event) = x := h.unique hevent hx rfl
    rw [← hone] at hcomplete
    cases hcomplete.symm.trans hfault
  case isFalse hany =>
    rw [h.issued]
    constructor
    case mpr => exact fun ⟨event, _, hevent, _⟩ => ⟨event, hevent⟩
    case mp =>
      rintro ⟨event, hevent⟩
      by_contra hnone
      refine hany (List.any_eq_true.mpr ⟨_, hevent, decide_eq_true ⟨rfl, hknown.complete hevent fun fault hfault => ?_⟩⟩)
      exact hnone ⟨event, fault, hevent, hfault⟩

-- Waiting for an execution that was handed over, while its events are known.
theorem waits (h : m.HandsOver c e) (hknown : e.Known p) : wait.Ends ⟨p, e⟩ fun result u => e.Waits p result u := by
  obtain ⟨p', hp', hregistry, hwait⟩ := wait_eq (s := ⟨p, e⟩) rfl hknown.attached hknown.isSome
  unfold Action.Ends
  rw [hwait]
  simp only [answer, published, waited]
  have hlength : ((p.channel e.target.place).device.settled e.events e.states).length = e.states.length :=
    Device.length_settled
  have hothers : ∀ progress ∈ (p.channel e.target.place).device.settled e.events e.states,
      progress = .issued ∨ progress = .completed := by
    intro progress hprogress
    obtain ⟨k, hk⟩ := List.getElem?_of_mem hprogress
    rw [Device.getElem?_settled] at hk
    split at hk
    case isTrue =>
      obtain ⟨_, _, rfl⟩ := Option.map_eq_some_iff.mp hk
      exact .inr rfl
    case isFalse => exact h.others progress (List.mem_of_getElem? hk)
  cases hfailure : (p.channel e.target.place).device.failure? e.target.index e.events with
  | some failure =>
    obtain ⟨before, x, after, fault, hevents, hfault, rfl, hbefore⟩ := Device.failure?_eq_some.mp hfailure
    refine .failed hevents (fun y hy => hknown.complete (hevents ▸ List.mem_append_left _ hy) ?_) hfault hlength
      (settled_issued h hknown) hothers hregistry
    exact (Device.failure?_eq_none _).mp hbefore y hy
  | none =>
    have hcomplete : ∀ x ∈ e.events, (p.channel e.target.place).device.status? x.2 = some .complete :=
      fun x hx => hknown.complete hx ((Device.failure?_eq_none _).mp hfailure x hx)
    refine .complete hcomplete (List.ext_getElem? fun k => ?_) fun k => ?_
    case refine_1 =>
      rw [List.getElem?_map]
      by_cases hk : k < e.states.length
      case neg =>
        rw [List.getElem?_eq_none (Nat.le_of_not_lt hk), List.getElem?_eq_none (hlength.trans_le (Nat.le_of_not_lt hk))]
        rfl
      case pos =>
        have hget := List.getElem?_eq_getElem (hlength ▸ hk :
          k < ((p.channel e.target.place).device.settled e.events e.states).length)
        rw [List.getElem?_eq_getElem hk]
        rcases hothers _ (List.mem_of_getElem? hget) with hissued | hcompleted
        case inr => rw [hget, hcompleted]; rfl
        case inl =>
          rw [hissued] at hget
          obtain ⟨event, fault, hevent, hfault⟩ := (settled_issued h hknown k).mp hget
          cases (hcomplete _ hevent).symm.trans hfault
    case refine_2 => exact hregistry ▸ record?_publishAll e.target.index e.pending p' k

-- What one device tells and another does too, waiting finds in the same way.
theorem failure?_waited {d d' : Device} (h : ∀ x ∈ e.events, d'.status? x.2 = d.status? x.2) :
    d'.failure? (e.waited d).target.index (e.waited d).events = d.failure? e.target.index e.events :=
  Device.failure?_congr h

theorem waited_waited {d d' : Device} (h : ∀ x ∈ e.events, d'.status? x.2 = d.status? x.2) :
    (e.waited d).waited d' = e.waited d := by
  rw [waited, failure?_waited h]
  have hstates : d'.settled e.events (d.settled e.events e.states) = d.settled e.events e.states :=
    (Device.settled_congr h).trans Device.settled_settled
  simp only [waited, hstates]
  split <;> rfl

theorem published_waited {d d' : Device} (h : ∀ x ∈ e.events, d'.status? x.2 = d.status? x.2) :
    (e.waited d).published d' = [] := by
  rw [published, failure?_waited h]
  simp only [waited]
  split <;> rfl

-- As long as the events are what they were, waiting again answers the same, and does nothing.
theorem waits_again (hknown : e.Known p) (hattached : e.target.place < p'.channels.length)
    (hsame : ∀ x ∈ e.events, (p'.channel e.target.place).device.status? x.2 =
      (p.channel e.target.place).device.status? x.2) :
    wait.Ends ⟨p, e⟩ fun result u => wait.Ends ⟨p', u.part⟩ fun result' u' =>
      result' = result ∧ u'.part = u.part ∧ u'.platform.registry = p'.registry := by
  obtain ⟨q, _, _, hwait⟩ := wait_eq (s := ⟨p, e⟩) rfl hknown.attached hknown.isSome
  have hknown' : ∀ x ∈ e.events, ((p'.channel e.target.place).device.status? x.2).isSome := fun x hx => by
    rw [hsame x hx]
    exact hknown.isSome x hx
  obtain ⟨q', _, hregistry, hwait'⟩ := wait_eq (s := ⟨p', e.waited (p.channel e.target.place).device⟩) rfl
    hattached hknown'
  unfold Action.Ends
  rw [hwait]
  dsimp only
  rw [hwait']
  have hanswer : (e.waited (p.channel e.target.place).device).answer (p'.channel e.target.place).device =
      e.answer (p.channel e.target.place).device := by
    rw [answer, failure?_waited hsame, answer]
  refine ⟨hanswer, waited_waited hsame, ?_⟩
  have hnothing := published_waited hsame
  exact (congrArg (fun handles => (handles.foldl (publish e.target.index) q').registry) hnothing).trans hregistry

end Execution

namespace Machine

variable {r : Registry} {c : Context} {g : Graph} {batch : Option Nat} {config config' : Config} {program : Program}
  {m : Machine} {counted : Bool} {e : Execution} {s t : Hosted Context}

-- What is handed over by an execution, and what comes of waiting for it, once and again, wherever else the platform
-- has got to meanwhile, as long as it knows the events.
theorem execute_lifecycle (hcompile : compile r c g batch config = .ok program)
    (hcreate : Machine.create program config' = .ok m)
    (hattached : ∀ place ∈ s.part.devices, place < s.platform.channels.length)
    (hrun : { m with counted }.execute s = (.ok e, t)) :
    m.HandsOver s.part e ∧ e.Known t.platform ∧ ∀ p, e.Known p →
      Execution.wait.Ends ⟨p, e⟩ fun result u => e.Waits p result u ∧
        ∀ p' : Platform, e.target.place < p'.channels.length →
          (∀ x ∈ e.events, (p'.channel e.target.place).device.status? x.2 =
            (p.channel e.target.place).device.status? x.2) →
          Execution.wait.Ends ⟨p', u.part⟩ fun result' u' =>
            result' = result ∧ u'.part = u.part ∧ u'.platform.registry = p'.registry := by
  obtain ⟨_, _, _, _, is, _, _, hdecode, _, hmade⟩ := Compile.coded_of_compile hcompile
  obtain ⟨_, hmachine, hinstructions⟩ := Compile.create_ok hcreate
  have hm := hmade { m with counted } (by rw [hmachine]) (hdecode _ hinstructions)
  have hover : m.HandsOver s.part e := by
    have h := execute_handsOver hm hattached hrun
    exact ⟨h.length, h.issued, h.others, h.rising, h.pending⟩
  refine ⟨hover, (execute_known hm hattached hrun).2, fun p hp => ⟨Execution.waits hover hp, fun p' hp' hsame => ?_⟩⟩
  exact Execution.waits_again hp hp' hsame

-- A copy back that does not block, and one that does: the first leaves its object to whoever waits.
theorem roundTrip_lifecycle :
    compile roundTripStart.platform.registry roundTripStart.part roundTripGraph (some 1) {} =
        .ok roundTripMachine.program ∧
      Machine.create roundTripMachine.program {} = .ok roundTripMachine ∧
      ∃ e t, { roundTripMachine with counted := true }.execute roundTripStart = (.ok e, t) ∧ e.pending = [⟨1⟩] ∧
        roundTripMachine.HandsOver roundTripStart.part e ∧ e.Known t.platform ∧
        (Execution.wait ⟨t.platform, e⟩).1 = .ok ⟨⟩ ∧
        e.Waits t.platform (Execution.wait ⟨t.platform, e⟩).1 (Execution.wait ⟨t.platform, e⟩).2 := by
  have hcompile : compile roundTripStart.platform.registry roundTripStart.part roundTripGraph
      (some 1) {} = .ok roundTripMachine.program := by decide +kernel
  have hcreate : Machine.create roundTripMachine.program {} = .ok roundTripMachine := by
    decide +kernel
  have hpending : ({ roundTripMachine with counted := true }.execute roundTripStart).1.toOption.map
      Execution.pending = some [⟨1⟩] := by decide +kernel
  have hok : ({ roundTripMachine with counted := true }.execute roundTripStart).1.toOption.any (fun e =>
      (Execution.wait ⟨({ roundTripMachine with counted := true }.execute roundTripStart).2.platform, e⟩).1.toOption.isSome) := by
    decide +kernel
  rcases hrun : { roundTripMachine with counted := true }.execute roundTripStart with ⟨result, t⟩
  rw [hrun] at hpending hok
  cases result with
  | error => cases hok
  | ok e =>
    obtain ⟨_, _, hwait⟩ := Action.exists_ok hok
    obtain ⟨hover, hknown, hwaits⟩ := execute_lifecycle hcompile hcreate (by decide) hrun
    exact ⟨hcompile, hcreate, e, t, hrun, Option.some.inj hpending, hover, hknown, congrArg Prod.fst hwait,
      (hwaits t.platform hknown).1⟩

end Machine
end Offload
