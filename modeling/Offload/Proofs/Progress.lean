import Offload.Proofs.Barrier
import Offload.Proofs.Kernels

/-!
What an execution has on record of its instructions. Each was entered once, in order, with its event if it has one,
and copies back that did not block left the objects that they are for.
-/

namespace Offload

-- The object that is to be put on record when the copy of an instruction has come back.
def Instruction.promises? (c : Context) : Instruction → Option Handle
  | .streamOut object .. => c.objects[object]?.map HostObject.handle
  | _ => none

-- Instruction `k` was entered in the records of a run, with its event and the object that it leaves.
structure Run.Entered (r : Run) (k : Nat) (event : Option EventId) (h : Option Handle) (r' : Run) : Prop where
  states  : r'.states = r.states.set k (if event.isSome then .issued else .completed)
  events  : r'.events = r.events ++ (event.map (k, ·)).toList
  pending : r'.pending = r.pending ++ h.toList

theorem Run.entered_record (r : Run) (k : Nat) (event : Option EventId) : r.Entered k event none (r.record k event) := by
  cases event <;> exact ⟨rfl, by simp [record], by simp [record]⟩

theorem Run.Entered.of_consume {r r' : Run} {k : Nat} {event : Option EventId} {h : Option Handle} {list : Option Nat}
    (he : (r.consume list).Entered k event h r') : r.Entered k event h r' := by
  cases list <;> exact ⟨he.states, he.events, he.pending⟩

namespace Machine

open Context (binding_ok)

variable {m : Machine} {r r' : Run} {s s' : Hosted Context} {k : Nat} {i : Instruction} {is : List Instruction}

theorem streamOut_promises {object offset length : Nat} {wait : List EventId} {blocking : Bool}
    {event : Option EventId} (h : m.streamOut r object offset length wait blocking s = (.ok (event, r'), s')) :
    r' = { r with pending := r.pending ++
      (if blocking then none else s.part.objects[object]?.map HostObject.handle).toList } := by
  unfold streamOut at h
  obtain ⟨_, _, htarget, h⟩ := Action.bind_ok.mp h
  obtain ⟨_, rfl⟩ := Action.lift_eq_ok.mp htarget
  obtain ⟨_, _, hget, h⟩ := Action.bind_ok.mp h
  cases hget
  obtain ⟨b, _, hlookup, h⟩ := Action.bind_ok.mp h
  obtain ⟨hb, rfl⟩ := Action.lift_eq_ok.mp hlookup
  have hobject : s.part.objects[object]?.map HostObject.handle = some b.object.handle := by
    simp [Context.objects, binding_ok.mp hb]
  rw [hobject]
  cases hvalid : b.state.validBuffer? <;> simp only [hvalid] at h
  case none => cases h
  case some buffer =>
    split at h
    case isTrue => cases h
    case isFalse =>
      obtain ⟨_, _, _, h⟩ := Action.bind_ok.mp h
      obtain ⟨_, _, _, h⟩ := Action.bind_ok.mp h
      split at h
      case isTrue hblocking =>
        obtain ⟨_, _, _, h⟩ := Action.bind_ok.mp h
        cases h
        simp [hblocking]
      case isFalse hblocking =>
        cases h
        simp [hblocking]

-- Every instruction that was issued was entered.
theorem step_enters (h : m.step k i r s = (.ok r', s')) : ∃ event, r.Entered k event (i.promises? s.part) r' := by
  have hrecord {r : Run} {event : Option EventId} {u : Hosted Context}
      (h : m.record r k event u = (.ok r', s')) : r.Entered k event none r' := by
    rw [(record_gives (· = r.record k event) rfl).of_eq h]
    exact r.entered_record k event
  have hstreamOut {object offset length : Nat} {wait : Option Nat} {blocking : Bool}
      {event : Option EventId} {r₁ : Run} {u : Hosted Context}
      (hout : m.streamOut (r.consume wait) object offset length (r.waiting wait) blocking s = (.ok (event, r₁), u))
      (h : m.record r₁ k event u = (.ok r', s')) :
      r.Entered k event (if blocking then none else s.part.objects[object]?.map HostObject.handle) r' := by
    have he := hrecord h
    rw [streamOut_promises hout] at he
    exact .of_consume ⟨he.states, he.events, by simpa using he.pending⟩
  cases i with
  | begin slots tasks lists =>
    rw [(step_begin h).2]
    exact ⟨none, r.entered_record k none⟩
  | context device =>
    obtain ⟨_, place, _, rfl⟩ := step_context h
    have he := Run.entered_record { r with target := some { index := device, place } } k none
    exact ⟨none, he.states, he.events, he.pending⟩
  | launch task device wait offset threads =>
    obtain ⟨event, u, _, h⟩ := Action.bind_ok.mp h
    exact ⟨some event, (hrecord h).of_consume⟩
  | streamIn object offset length wait =>
    obtain ⟨event, u, _, h⟩ := Action.bind_ok.mp h
    exact ⟨event, (hrecord h).of_consume⟩
  | streamOut object offset length wait =>
    obtain ⟨⟨event, r₁⟩, u, hout, h⟩ := Action.bind_ok.mp h
    exact ⟨event, hstreamOut hout h⟩
  | streamOutBlocking object offset length wait =>
    obtain ⟨⟨event, r₁⟩, u, hout, h⟩ := Action.bind_ok.mp h
    exact ⟨event, hstreamOut hout h⟩
  | addDep list =>
    by_cases hlist : list < r.lists.length
    case pos =>
      rw [step_addDep hlist] at h
      cases h
      exact ⟨none, rfl, by simp, by simp [Instruction.promises?]⟩
    case neg =>
      simp only [step, if_neg hlist] at h
      cases h
  | barrier wait | marker wait =>
    simp only [step, synchronize] at h
    obtain ⟨t, u, _, h⟩ := Action.bind_ok.mp h
    obtain ⟨event, v, _, h⟩ := Action.bind_ok.mp h
    obtain ⟨_, w, _, h⟩ := Action.bind_ok.mp h
    have he := hrecord h
    have hentered : (r.consume wait).Entered k (some event) none r' := ⟨he.states, he.events, he.pending⟩
    exact ⟨some event, hentered.of_consume⟩
  | finish =>
    rw [(step_finish h).2]
    exact ⟨none, r.entered_record k none⟩

end Machine

theorem Instruction.promises?_congr {c c' : Context} (h : c'.objects = c.objects) (i : Instruction) :
    i.promises? c' = i.promises? c := by
  cases i <;> simp [promises?, h]

-- The records of a run after the first `k` instructions.
structure Filed (m : Machine) (c : Context) (k : Nat) (r : Run) : Prop where
  length  : r.states.length = m.instructions.length
  states  : ∀ j < k, r.states[j]? = some (if j ∈ r.events.map Prod.fst then .issued else .completed)
  before  : ∀ x ∈ r.events, x.1 < k
  rising  : r.events.Pairwise fun x y => x.1 < y.1
  pending : r.pending = (m.instructions.take k).filterMap (·.promises? c)

namespace Filed

open Machine (Reaches)

variable {m : Machine} {c : Context} {r r' : Run} {s s' : Hosted Context} {k : Nat} {i : Instruction}
  {is : List Instruction} {event : Option EventId}

theorem start (m : Machine) (c : Context) : Filed m c 0 (Run.start m) where
  length  := List.length_map _
  states  := nofun
  before  := List.forall_mem_nil _
  rising  := .nil
  pending := rfl

theorem step (h : Filed m c k r) (hi : m.instructions[k]? = some i) (he : r.Entered k event (i.promises? c) r') :
    Filed m c (k + 1) r' := by
  have hlt : k < r.states.length := h.length ▸ (List.getElem?_eq_some_iff.mp hi).1
  have hnew : k ∉ r.events.map Prod.fst := fun hmem => by
    obtain ⟨x, hx, heq⟩ := List.mem_map.mp hmem
    exact Nat.lt_irrefl _ (heq ▸ h.before x hx)
  have hmem (j : Nat) : j ∈ r'.events.map Prod.fst ↔ j ∈ r.events.map Prod.fst ∨ event.isSome ∧ j = k := by
    rw [he.events, List.map_append, List.mem_append]
    cases event <;> simp
  constructor
  case length => rw [he.states, List.length_set, h.length]
  case states =>
    intro j hj
    rw [he.states]
    by_cases hjk : j = k
    case pos =>
      subst hjk
      simp [hlt, hmem, hnew]
    case neg =>
      rw [List.getElem?_set_ne (Ne.symm hjk), h.states j (by omega)]
      simp only [hmem, hjk, and_false, or_false]
  case before =>
    rw [he.events, List.forall_mem_append]
    refine ⟨fun x hx => Nat.lt_succ_of_lt (h.before x hx), fun x hx => ?_⟩
    obtain ⟨e, -, rfl⟩ : ∃ e, event = some e ∧ (k, e) = x := by simpa using hx
    exact Nat.lt_succ_self k
  case rising =>
    rw [he.events]
    refine List.pairwise_append.mpr ⟨h.rising, by cases event <;> simp, fun x hx y hy => ?_⟩
    obtain ⟨e, -, rfl⟩ : ∃ e, event = some e ∧ (k, e) = y := by simpa using hy
    exact h.before x hx
  case pending =>
    rw [he.pending, h.pending, List.take_add_one, hi, List.filterMap_append]
    cases hpromise : i.promises? c <;> simp [hpromise]

theorem run (h : Filed m c k r) (hobjects : s.part.objects = c.objects) (hfront : is <+: m.instructions.drop k)
    (hrun : Reaches m k is r s r' s') : Filed m c (k + is.length) r' := by
  induction hrun with
  | done => exact h
  | @step k i is r r' _ s s' _ hstep _ ih =>
    have hi : m.instructions[k]? = some i := by
      obtain ⟨rest, hrest⟩ := hfront
      rw [← Nat.add_zero k, ← List.getElem?_drop, ← hrest]
      rfl
    obtain ⟨event, he⟩ := Machine.step_enters hstep
    rw [Instruction.promises?_congr hobjects] at he
    have hkept := ((Machine.schooled_step k i r).of_eq hstep).objects
    have hsplit : [i] ++ is <+: m.instructions.drop k := hfront
    rw [Machine.add_length_cons]
    exact ih (h.step hi he) (hkept.trans hobjects) (Ledger.prefix_drop hsplit)

end Filed
-- The events of an execution are known on a platform, and over.
structure Execution.Known (e : Execution) (p : Platform) : Prop where
  attached : e.target.place < p.channels.length
  ended    : ∀ x ∈ e.events, ∃ status, (p.channel e.target.place).device.status? x.2 = some status ∧ status.isFinished

namespace Machine

open Compile (Layout Log Made Faithful Ending)

variable {m : Machine} {g : Graph} {d : Graph.Dependencies} {l : Layout} {passes : List Pass} {r₀ : Registry}
  {c : Context} {batch : Option Nat} {e : Execution} {s t : Hosted Context} {place q : Nat}

-- The events in the books are known, and over.
def Logged (place : Nat) (log : Log) (s : Hosted Context) : Prop :=
  ∀ x ∈ log, ∃ status, (s.queue place).status? x.2 = some status ∧ status.isFinished

theorem logged_carried : Ledger.Carried m g l passes place fun _ _ log _ s => Logged place log s where
  next _ h := h
  block hledger h _ _ _ hb _ := by
    intro x hx
    rcases List.mem_append.mp hx with hold | hnew
    case inl =>
      rw [hb.outcome.status?_eq (hledger.past x hold)]
      exact h x hold
    case inr =>
      obtain ⟨e, rfl, rfl⟩ : ∃ e, _ = some e ∧ (_, e) = x := by simpa using hnew
      obtain ⟨status, hdone, _, he, hqueue⟩ := hb.outcome.of_some
      refine ⟨status, ?_, hdone⟩
      rw [hqueue, he]
      exact Queue.status?_nextEvent _ _ _

-- The events of an execution rise, and are over when it is handed over.
theorem execute_known (hm : Made r₀ c g batch q d l passes m)
    (hattached : ∀ place ∈ s.part.devices, place < s.platform.channels.length) (hrun : m.execute s = (.ok e, t)) :
    (e.events.map Prod.snd).Pairwise (fun x y => x.number < y.number) ∧ e.Known t.platform := by
  obtain ⟨k, log, r, u, r', u', hledger, hlogged, _, htail, htarget, hquiet, _, hevents⟩ :=
    execute_blocks (P := fun place _ _ log _ u => Logged place log u) hm (fun _ => logged_carried)
      (fun _ _ _ _ => List.forall_mem_nil _) hattached hrun
  obtain ⟨_, hchannels, hends⟩ := htail.ending htarget hledger.attached
  have hattached' : e.target.place < t.platform.channels.length := by
    rw [(hquiet e.target.place).platform.2, hchannels]
    exact hledger.attached
  have hqueue : t.queue e.target.place = u'.queue e.target.place := (hquiet e.target.place).platform.1
  have hrising : (log.map Prod.snd).Pairwise fun x y => x.number < y.number := hledger.rising.map _ fun _ _ h => h
  have hpast : ∀ x ∈ log.map Prod.snd, x.number < (u.queue e.target.place).next :=
    List.forall_mem_map.mpr hledger.past
  have hover : ∀ x ∈ log.map Prod.snd, ∃ status, (u.queue e.target.place).status? x = some status ∧
      status.isFinished := List.forall_mem_map.mpr hlogged
  suffices hends' : (e.events.map Prod.snd).Pairwise (fun x y => x.number < y.number) ∧
      ∀ x ∈ e.events.map Prod.snd, ∃ status, (t.queue e.target.place).status? x = some status ∧ status.isFinished from
    ⟨hends'.1, hattached', fun x hx => hends'.2 x.2 (List.mem_map_of_mem hx)⟩
  rw [hqueue, hevents]
  rcases hends with ⟨_, hsame, hidle⟩ | ⟨list, status, _, hdone, _, hissue, _, hlast⟩
  case inl =>
    rw [hsame, hidle, hledger.map_snd_events]
    exact ⟨hrising, hover⟩
  case inr =>
    rw [hlast, hissue, List.map_append, hledger.map_snd_events]
    refine ⟨List.pairwise_append.mpr ⟨hrising, List.pairwise_singleton _ _, fun x hx y hy => ?_⟩,
      List.forall_mem_append.mpr ⟨fun x hx => ?_, fun y hy => ?_⟩⟩
    case refine_1 =>
      cases List.mem_singleton.mp hy
      exact hpast x hx
    case refine_2 =>
      rw [Queue.status?_issue (hpast x hx)]
      exact hover x hx
    case refine_3 =>
      cases List.mem_singleton.mp hy
      exact ⟨status, Queue.status?_nextEvent _ _ _, hdone⟩

-- What an execution is handed over with. There is one event for each instruction that is issued and not over, in
-- the order of the instructions, and no instruction was left out.
structure HandsOver (m : Machine) (c : Context) (e : Execution) : Prop where
  length  : e.states.length = m.instructions.length
  issued  : ∀ k, e.states[k]? = some .issued ↔ ∃ event, (k, event) ∈ e.events
  others  : ∀ progress ∈ e.states, progress = .issued ∨ progress = .completed
  rising  : e.events.Pairwise fun x y => x.1 < y.1 ∧ x.2.number < y.2.number
  pending : e.pending = m.instructions.filterMap (·.promises? c)

theorem execute_handsOver (hm : Made r₀ c g batch q d l passes m)
    (hattached : ∀ place ∈ s.part.devices, place < s.platform.channels.length) (hrun : m.execute s = (.ok e, t)) :
    m.HandsOver s.part e := by
  obtain ⟨r, u, hreach, _, _, _, hevents, hpending, hstates⟩ := execute_ok hrun
  have hfiled : Filed m s.part m.instructions.length r := by
    simpa using (Filed.start m s.part).run rfl List.prefix_rfl hreach
  have hknown := (execute_known hm hattached hrun).1
  rw [hevents, List.pairwise_map] at hknown
  have hstate {k : Nat} (hk : k < m.instructions.length) : e.states[k]? =
      some (if k ∈ e.events.map Prod.fst then .issued else .completed) := by
    rw [hstates, hevents]
    exact hfiled.states k hk
  have hlength : e.states.length = m.instructions.length := hstates ▸ hfiled.length
  constructor
  case length => exact hlength
  case issued =>
    intro k
    have hmem : k ∈ e.events.map Prod.fst ↔ ∃ event, (k, event) ∈ e.events := by simp
    rw [← hmem]
    by_cases hk : k < m.instructions.length
    case pos =>
      rw [hstate hk]
      split <;> simp_all
    case neg =>
      rw [List.getElem?_eq_none (by omega)]
      refine iff_of_false nofun fun hin => ?_
      obtain ⟨x, hx, rfl⟩ := List.mem_map.mp hin
      exact hk (hfiled.before x (hevents ▸ hx))
  case others =>
    intro progress hprogress
    obtain ⟨k, hk⟩ := List.getElem?_of_mem hprogress
    have hlt := (List.getElem?_eq_some_iff.mp hk).1
    rw [hstate (hlength ▸ hlt)] at hk
    cases hk
    split
    case isTrue => exact .inl rfl
    case isFalse => exact .inr rfl
  case rising =>
    rw [hevents]
    exact List.pairwise_and_iff.mpr ⟨hfiled.rising, hknown⟩
  case pending => rw [hpending, hfiled.pending, List.take_length]

end Machine
end Offload
