import Offload.Proofs.Equipped
import Offload.Proofs.Undisturbed

/-!
Schedules that share a device and may be changed between their turns. Whatever was asked of them before, an execution
of one of them fails for one of its steps, and only for what a step can be refused: its kernel, the shape of its
launch, room on the device, or data that nobody brought.
-/

namespace Offload

namespace Tenant

variable {rest : Nat → List (BufferId × Nat)} {p : Platform} {t : Tenant} {place : Nat}

-- Who has given everything back may as well start afresh.
theorem Lodged.afresh (h : Lodged rest ⟨p, t⟩) (hheld : t.context.held = []) (hplace : place ∈ t.context.devices)
    (name : String) : Lodged rest ⟨p, { context := { name, devices := [place] } }⟩ where
  books := by
    refine ⟨fun other hother => ?_, h.books.orderly, fun other => ?_, fun _ => rfl, nofun⟩
    case refine_1 =>
      cases List.mem_singleton.mp hother
      exact h.books.attached place hplace
    case refine_2 =>
      have hbalanced := h.books.balanced other
      rwa [Context.heldAt_of_held hheld] at hbalanced
  trust := ⟨h.trust.honest, nofun⟩
  words := h.words
  binds := nofun
  covers := nofun
  suits := nofun

end Tenant

namespace Schedule

open Tenant (Lodged Stays)

variable {rest : Nat → List (BufferId × Nat)} {place : Nat} {q : Registry} {s t : Hosted Schedule}

theorem setConfig_minds (h : Equipped place q s) (hlodged : Lodged rest ⟨s.platform, s.part.tenant⟩)
    (config : Config) : (setConfig config).Ends s fun _ t => Minds rest place (fun _ => True) s t := by
  have hends : (setConfig config).Ends s fun _ t =>
      Stays rest ⟨s.platform, s.part.tenant⟩ ⟨t.platform, t.part.tenant⟩ ∧ t.platform = s.platform := by
    unfold setConfig
    refine Action.Ends.bind_lift (fun _ _ => ?_) fun _ _ => ⟨hlodged.stays, rfl⟩
    exact ⟨⟨{ hlodged with suits := nofun }, rfl, fun _ => rfl⟩, rfl⟩
  exact ⟨hends.1, (h.setConfig config).proper, hends.2 ▸ .refl _⟩

theorem push_minds (h : Equipped place q s) (hlodged : Lodged rest ⟨s.platform, s.part.tenant⟩) (step : Step) :
    (push step).Ends s fun _ t => Minds rest place (fun _ => True) s t := by
  have hpush := push_ends s step
  have hequipped := h.push hlodged step
  have hdrop := drop_minds hlodged h.proper
  unfold Action.Ends at hpush hequipped ⊢
  generalize (push step s).2 = t at hpush hequipped ⊢
  obtain ⟨hgraph, ⟨hplatform, htenant⟩ | hplatform⟩ := hpush
  case inl =>
    refine ⟨?_, hequipped.proper, hplatform ▸ .refl _⟩
    rw [hplatform, htenant]
    exact hlodged.stays
  case inr =>
    obtain ⟨hmachine, hcontext⟩ := hequipped.recalls.blank hgraph
    have htenant : t.part.tenant = { context := { name := t.part.context.name, devices := [place] } } := by
      rw [tenant, hgraph, hmachine, ← hcontext]
      rfl
    refine ⟨?_, hequipped.proper, ?_⟩
    case refine_2 => exact hplatform ▸ hdrop.leaves
    case refine_1 =>
      rw [hplatform, htenant]
      refine ⟨hdrop.stays.toLodged.afresh (Context.held_detachAll _) ?_ _, hdrop.stays.channels, hdrop.stays.lengths⟩
      exact hdrop.proper.devices ▸ List.mem_singleton_self _

end Schedule

-- What may be asked of a schedule among others.
inductive Affair
  | push (step : Step)
  | configure (config : Config)
  | turn (turn : Turn)

namespace Neighbour

open Tenant (Lodged Stays)
open Schedule (Equipped)

variable {rest : Nat → List (BufferId × Nat)} {place : Nat} {q : Registry} {s t : Hosted Neighbour}

def attend : Affair → On Yield
  | .push step => unlessDropped do
    onSchedule (Schedule.push step)
    return .nothing
  | .configure config => unlessDropped do
    onSchedule (Schedule.setConfig config)
    return .nothing
  | .turn turn => take turn

theorem attend_minds (h : Equipped place q ⟨s.platform, s.part.schedule⟩)
    (hlodged : Lodged rest ⟨s.platform, s.part.schedule.tenant⟩) (hproper : s.part.Proper place fun _ => True)
    (affair : Affair) : (attend affair).Ends s fun _ t => Minds rest place (fun _ => True) s t := by
  cases affair with
  | push step =>
    refine unlessDropped_minds hlodged hproper ?_
    have hpush : (onSchedule (Schedule.push step)).Ends s fun _ t => Minds rest place (fun _ => True) s t :=
      .of_schedule (Schedule.push_minds h hlodged step) hproper.pending _
    exact hpush.bind (fun _ _ ht => ht) fun _ _ ht => ht
  | configure config =>
    refine unlessDropped_minds hlodged hproper ?_
    have hconfig : (onSchedule (Schedule.setConfig config)).Ends s fun _ t => Minds rest place (fun _ => True) s t :=
      .of_schedule (Schedule.setConfig_minds h hlodged config) hproper.pending _
    exact hconfig.bind (fun _ _ ht => ht) fun _ _ ht => ht
  | turn turn => exact take_minds hlodged hproper turn

-- What is asked of the schedule, and what is made of the answer.
theorem asked_equipped {α : Type} {act : Schedule.On α} {f : α → On Yield}
    (h : Equipped place q ⟨s.platform, s.part.schedule⟩)
    (hact : act.Ends ⟨s.platform, s.part.schedule⟩ fun _ t => Equipped place q t)
    (hf : ∀ a t, Equipped place q ⟨t.platform, t.part.schedule⟩ →
      (f a).Ends t fun _ u => Equipped place q ⟨u.platform, u.part.schedule⟩) :
    (unlessDropped (onSchedule act >>= f)).Ends s fun _ t => Equipped place q ⟨t.platform, t.part.schedule⟩ := by
  have hschedule : (onSchedule act).Ends s fun _ t => Equipped place q ⟨t.platform, t.part.schedule⟩ := hact
  unfold unlessDropped
  refine Action.Ends.bind_get ?_
  split
  case isTrue => exact h
  case isFalse => exact hschedule.bind (fun a t ht => hf a t ht) fun _ _ ht => ht

theorem attend_equipped (h : Equipped place q ⟨s.platform, s.part.schedule⟩)
    (hlodged : Lodged rest ⟨s.platform, s.part.schedule.tenant⟩) (hproper : s.part.Proper place fun _ => True)
    (affair : Affair) : (attend affair).Ends s fun _ t => Equipped place q ⟨t.platform, t.part.schedule⟩ := by
  cases affair with
  | push step => exact asked_equipped h (h.push hlodged step) fun _ _ ht => ht
  | configure config => exact asked_equipped h (h.setConfig config) fun _ _ ht => ht
  | turn turn =>
    cases turn with
    | compile batch => exact asked_equipped h ((h.compile batch).mono fun _ _ ht => ht.1) fun _ _ ht => ht
    | execute => exact asked_equipped h (h.execute hlodged) fun _ _ ht => ht
    | sync objects => exact asked_equipped h (h.sync hlodged objects) fun _ _ ht => ht
    | drop => exact asked_equipped h (h.drop hlodged) fun _ _ ht => ht
    | wait handle =>
      have hminds := wait_minds hlodged hproper handle
      have hsame : (wait handle).Ends s fun _ t => t.part.schedule = s.part.schedule := by
        unfold wait
        refine Action.Ends.bind_get ?_
        split
        case h_1 => rfl
        case h_2 => rfl
      change (wait handle).Ends _ _
      rw [Action.Ends, hsame]
      exact h.of_same hminds.leaves.same hminds.stays.lengths

end Neighbour

-- A plan that was not begun can go on.
theorem Plan.equipped_neighbour (plan : Plan) (p : Platform) (place : Nat) :
    Schedule.Equipped place p.registry ⟨p, (plan.neighbour p place).schedule⟩ := by
  have hrecalls : (plan.neighbour p place).schedule.Recalls place plan.steps plan.config :=
    ⟨rfl, rfl, rfl, rfl, nofun, fun _ => ⟨rfl, rfl⟩⟩
  exact .of_bare hrecalls (fun _ => rfl) rfl nofun rfl

namespace Neighbourhood

variable {h : Neighbourhood} {place k : Nat} {q : Registry} {x : Neighbour}

-- What becomes of all of them, whether or not the single requests are met.
def proceed (h : Neighbourhood) : List (Nat × Affair) → Neighbourhood
  | [] => h
  | (k, affair) :: moves =>
    match h.neighbours[k]? with
    | none => proceed h moves
    | some x => proceed (h.after k (Neighbour.attend affair ⟨h.platform, x⟩).2) moves

-- All buffers are accounted for, and every schedule can go on.
structure Orderly (place : Nat) (q : Registry) (h : Neighbourhood) : Prop where
  sound    : h.Sound place fun _ _ => True
  equipped : ∀ (k : Nat) (x : Neighbour), h.neighbours[k]? = some x →
    Schedule.Equipped place q ⟨h.platform, x.schedule⟩

theorem Orderly.minds (horderly : h.Orderly place q) (hx : h.neighbours[k]? = some x) (affair : Affair) :
    (Neighbour.attend affair).Ends ⟨h.platform, x⟩ fun _ t =>
      Neighbour.Minds (h.others k) place (fun _ => True) ⟨h.platform, x⟩ t :=
  Neighbour.attend_minds (s := ⟨h.platform, x⟩) (horderly.equipped k x hx) (horderly.sound.lodged hx)
    (horderly.sound.proper k x hx) affair

theorem Orderly.attend (horderly : h.Orderly place q) (hx : h.neighbours[k]? = some x) (affair : Affair) :
    (h.after k (Neighbour.attend affair ⟨h.platform, x⟩).2).Orderly place q := by
  have hequipped := horderly.equipped k x hx
  have hlodged := horderly.sound.lodged hx
  have hproper := horderly.sound.proper k x hx
  have hminds := horderly.minds hx affair
  refine ⟨horderly.sound.of_minds hx hminds, fun j y hy => ?_⟩
  obtain ⟨hlt, -⟩ := List.getElem?_eq_some_iff.mp hx
  by_cases heq : k = j
  case pos =>
    subst heq
    rw [after, List.getElem?_set_self hlt] at hy
    cases hy
    exact Neighbour.attend_equipped (s := ⟨h.platform, x⟩) hequipped hlodged hproper affair
  case neg =>
    rw [after, List.getElem?_set_ne heq] at hy
    exact (horderly.equipped j y hy).of_same hminds.leaves.same hminds.stays.lengths

theorem Orderly.proceed (horderly : h.Orderly place q) (moves : List (Nat × Affair)) :
    (h.proceed moves).Orderly place q := by
  induction moves generalizing h with
  | nil => exact horderly
  | cons move moves ih =>
    unfold Neighbourhood.proceed
    split
    case h_1 => exact ih horderly
    case h_2 x hx => exact ih (horderly.attend hx move.2)

-- The device stays what it is.
theorem Orderly.proceed_same (horderly : h.Orderly place q) (moves : List (Nat × Affair)) :
    (h.platform.channel place).Same ((h.proceed moves).platform.channel place) := by
  induction moves generalizing h with
  | nil => exact rfl
  | cons move moves ih =>
    unfold Neighbourhood.proceed
    split
    case h_1 => exact ih horderly
    case h_2 x hx =>
      have hfirst := (horderly.minds hx move.2).leaves.same
      exact (ih (horderly.attend hx move.2)).trans hfirst

theorem settle_orderly {p : Platform} (hfresh : House.Fresh ⟨p, []⟩) (hplace : place < p.channels.length)
    (plans : List Plan) : (settle p place plans).Orderly place p.registry := by
  have hsound := settle_sound hfresh hplace plans
  refine ⟨⟨hsound.house, fun k x hx => ?_⟩, fun k x hx => ?_⟩
  case refine_1 =>
    have hschedule := (hsound.proper k x hx).schedule
    exact ⟨⟨hschedule.devices, fun _ _ _ _ => trivial, fun _ _ => trivial, hschedule.blank⟩, fun _ _ _ _ => trivial⟩
  case refine_2 =>
    rw [settle, List.getElem?_map] at hx
    obtain ⟨plan, -, rfl⟩ := Option.map_eq_some_iff.mp hx
    exact plan.equipped_neighbour p place

-- Whatever was asked of the schedules on a device before, one of them is executed unless it does not compile or one
-- of its steps is refused: its kernel is not there, its launch has no shape that the device takes, the device has no
-- room for an object, a kernel failed and one looked, or there is nothing to bring out, because no step before it
-- brought it in or wrote it.
theorem proceed_confined {p : Platform} (hfresh : House.Fresh ⟨p, []⟩) (hplace : place < p.channels.length)
    (plans : List Plan) (moves : List (Nat × Affair)) :
    let h := (settle p place plans).proceed moves
    ∀ x, h.neighbours[k]? = some x → (∀ step ∈ x.schedule.steps, step.Regular p.registry) →
      Schedule.execute.Ends ⟨h.platform, x.schedule⟩ fun result t =>
        let c := h.platform.channel place
        let c' := t.platform.channel place
        c'.device.Accountable c.device.nextEvent ∧ ∀ e, result = .error e →
          x.schedule.machine = none ∧ (Schedule.compile none ⟨h.platform, x.schedule⟩).1 = .error e ∨
            Step.Fails x.schedule.config.tuning c.device.nextEvent c c' x.schedule.steps e := by
  intro h x hx hregular
  have horderly : h.Orderly place p.registry := (settle_orderly hfresh hplace plans).proceed moves
  exact (horderly.equipped k x hx).execute_fails (horderly.sound.lodged hx) hregular

-- After both were executed, and the first one again in smaller passes, the first one is to bring out what only the
-- second one brought in.
def errandAffairs : List (Nat × Affair) :=
  [(0, .turn (.compile none)), (0, .turn .execute), (1, .turn .execute), (0, .turn (.compile (some 1))),
    (0, .turn .execute), (0, .push (.streamOut House.second)), (0, .turn (.compile (some 1)))]

def visited : Neighbourhood :=
  (settle House.inn.platform 0 errands).proceed errandAffairs

theorem inn_confined :
    House.Fresh ⟨House.inn.platform, []⟩ ∧ 0 < House.inn.platform.channels.length ∧
      ∃ x e s, visited.neighbours[0]? = some x ∧
        (∀ step ∈ x.schedule.steps, step.Regular House.inn.platform.registry) ∧ x.schedule.machine.isSome ∧
        Schedule.execute ⟨visited.platform, x.schedule⟩ = (.error e, s) ∧
        e = .instruction 7 .streamOut (.config (.nothingToRead House.second.handle)) ∧
        Step.Fails x.schedule.config.tuning (visited.platform.channel 0).device.nextEvent
          (visited.platform.channel 0) (s.platform.channel 0) x.schedule.steps e := by
  have hfresh : House.Fresh ⟨House.inn.platform, []⟩ := ⟨rfl, by simp [House.inn], by simp [House.inn], by decide⟩
  have hplace : 0 < House.inn.platform.channels.length := by decide
  have hvisited : (visited.neighbours[0]?.map fun x => (x.schedule.steps, x.schedule.machine.isSome,
      (Schedule.execute ⟨visited.platform, x.schedule⟩).1)) =
      some ([.streamIn House.first, .task (House.calling "increment" House.first), .streamOut House.first,
        .streamOut House.second], true,
        .error (.instruction 7 .streamOut (.config (.nothingToRead House.second.handle)))) := by
    decide +kernel
  obtain ⟨x, hx, hfacts⟩ := Option.map_eq_some_iff.mp hvisited
  simp only [Prod.mk.injEq] at hfacts
  obtain ⟨hsteps, hmachine, hfails⟩ := hfacts
  have hfirst : House.first.Whole House.inn.platform.registry := ⟨rfl, fun e he => by cases he; decide⟩
  have hsecond : House.second.Whole House.inn.platform.registry := ⟨rfl, fun e he => by cases he; decide⟩
  have hregular : ∀ step ∈ x.schedule.steps, step.Regular House.inn.platform.registry := by
    rw [hsteps]
    simp only [List.forall_mem_cons]
    exact ⟨Step.regular_streamIn hfirst, Step.regular_task (by simpa [House.calling] using hfirst) (by decide),
      Step.regular_streamOut hfirst, Step.regular_streamOut hsecond, by simp⟩
  have hconfined := proceed_confined hfresh hplace errands errandAffairs x hx hregular
  rcases hrun : Schedule.execute ⟨visited.platform, x.schedule⟩ with ⟨result, s⟩
  rw [hrun] at hfails
  cases hfails
  refine ⟨hfresh, hplace, x, _, s, hx, hregular, hmachine, hrun, rfl, ?_⟩
  rcases (hconfined.of_eq hrun).2 _ rfl with ⟨hnone, _⟩ | hblame
  case inl =>
    rw [hnone] at hmachine
    cases hmachine
  case inr =>
    unfold visited
    exact hblame

end Neighbourhood
end Offload
