import Offload.Proofs.Codec
import Offload.Proofs.Course
import Offload.Proofs.Ordinary

/-!
How an execution fails. What an instruction fails with does not name an instruction itself, so that the
error of the execution names the one that failed. If every launch is for the device of the latest CONTEXT,
the context is left without buffers and without the ownership of its objects; without a CONTEXT there is a
failure after the last instruction, which names none and leaves everything as it was.
-/

namespace Offload

-- The error does not say which instruction failed.
def Error.Plain : Error → Prop
  | .instruction .. => False
  | _ => True

theorem Error.Plain.atInstruction {e : Error} (h : e.Plain) (k : Nat) (opcode : Opcode) :
    e.atInstruction k opcode = .instruction k opcode e := by
  cases e with
  | instruction => cases h
  | _ => rfl

theorem Error.Ordinary.plain {e : Error} (h : e.Ordinary) : e.Plain := by
  cases e with
  | instruction => cases h
  | _ => trivial

abbrev Action.Plain {σ α : Type} (x : Action σ α) : Prop :=
  x.Errs Error.Plain

theorem Action.Ordinary.plain {σ α : Type} {x : Action σ α} (h : x.Ordinary) : x.Plain :=
  fun s => (h s).mono fun _ => Error.Ordinary.plain

theorem Context.plain_kernel (device task : Nat) : (kernel device task).Plain := by
  refine .bind .get fun s => ?_
  dsimp only
  split
  case h_1 => exact .pure _
  case h_2 =>
    have hlookup (name : String) : (onDevice device (Channel.lookup name)).Ordinary :=
      ordinary_onDevice (Channel.ordinary_noting (.bind .get fun _ => .pure _)) device
    refine .bind (.lift ((ordinary_task _ _).mono fun _ => Error.Ordinary.plain)) fun _ =>
      .bind (.lift ((ordinary_place _ _).mono fun _ => Error.Ordinary.plain)) fun _ => .bind (hlookup _).plain fun _ => ?_
    split
    case h_1 => exact .bind (.modify _) fun _ => .pure _
    case h_2 => exact .bind .get fun _ => .throw trivial

namespace Machine

open Context

variable {rest : Nat → List (BufferId × Nat)} {m : Machine} {r : Run} {s t u : Hosted Context}
  {k : Nat} {i : Instruction} {is : List Instruction} {e : Error}

theorem plain_launch (task device offset threads : Nat) (wait : List EventId) :
    (m.launch task device offset threads wait).Plain :=
  .bind (plain_kernel _ _) fun _ =>
    (ordinary_launchBy (fun _ _ => Channel.ordinary_noting (Device.ordinary_launch _ _ _ _)) _ _ _ _).plain

-- What an instruction fails with is the cause, and not yet the failure of an instruction.
theorem plain_step (k : Nat) (i : Instruction) (r : Run) : (m.step k i r).Plain := by
  have hsync {call : List EventId → Action Channel EventId} (hcall : ∀ events, (call events).Ordinary)
      (list : Option Nat) : (m.synchronize r k call list).Ordinary :=
    .bind (.lift (ordinary_device r)) fun _ => .bind (ordinary_onPlatform (hcall _) _) fun _ =>
      .bind (m.ordinary_count _) fun _ => ordinary_record _ _
  have hbarrier (events : List EventId) : (Device.barrier events).Ordinary :=
    .bind (Device.ordinary_perform _ _ _) fun _ => .pure _
  cases i with
  | begin slots tasks lists =>
    refine .bind .get fun _ => ?_
    dsimp only
    split
    case isTrue => exact .throw trivial
    case isFalse => exact (ordinary_record _ _).plain
  | context device =>
    have hordinary : (m.step k (.context device) r).Ordinary :=
      .bind (ordinary_activate device) fun _ => .bind .get fun _ => .bind (.lift (ordinary_place _ _)) fun _ =>
        ordinary_record _ _
    exact hordinary.plain
  | streamIn => exact .bind (ordinary_streamIn _ _ _ _).plain fun _ => (ordinary_record _ _).plain
  | launch => exact .bind (plain_launch _ _ _ _ _) fun _ => (ordinary_record _ _).plain
  | streamOut | streamOutBlocking =>
    exact .bind (ordinary_streamOut _ _ _ _ _).plain fun (_, _) => (ordinary_record _ _).plain
  | addDep list =>
    intro s
    simp only [step]
    split
    case isTrue =>
      intro e herror
      cases herror
    case isFalse => exact .throw trivial
  | barrier list => exact (hsync (fun events => Channel.ordinary_noting (hbarrier events)) list).plain
  | marker list => exact (hsync (fun events => Channel.ordinary_noting (hbarrier events)) list).plain
  | finish => exact (ordinary_record _ _).plain

-- A run that fails got as far as one instruction, and its error is that of this instruction.
theorem steps_error (h : m.steps k is r s = (.error e, t)) :
    ∃ pre i post r' s' source u, is = pre ++ i :: post ∧ Reaches m k pre r s r' s' ∧
      m.step (k + pre.length) i r' s' = (.error source, u) ∧
      e = .instruction (k + pre.length) i.opcode source ∧ t = (Context.invalidate u).2 := by
  induction is generalizing k r s with
  | nil => cases h
  | cons i is ih =>
    rcases hstep : m.step k i r s with ⟨source | r', s'⟩
    case error =>
      have hplain : source.Plain := plain_step k i r s source (congrArg Prod.fst hstep)
      rw [steps_of_error hstep, hplain.atInstruction] at h
      cases h
      exact ⟨[], i, is, r, s, source, s', rfl, .done, hstep, rfl, rfl⟩
    case ok =>
      unfold steps at h
      rw [Action.bind_of_ok (Action.tryCatch_of_ok hstep)] at h
      obtain ⟨pre, j, post, r₁, s₁, source, u, rfl, hreach, hfails, he, ht⟩ := ih h
      have hlength : k + (i :: pre).length = k + 1 + pre.length := add_length_cons k i pre
      exact ⟨i :: pre, j, post, r₁, s₁, source, u, rfl, .step hstep hreach, hlength ▸ hfails,
        hlength ▸ he, ht⟩

end Machine

theorem Registry.record?_clearOwner (r : Registry) (h k : Handle) :
    (r.clearOwner h).record? k = if k = h then (r.record? k).map fun _ => {} else r.record? k := by
  obtain ⟨n⟩ := h
  obtain ⟨j⟩ := k
  cases n with
  | zero =>
    cases j with
    | zero => rfl
    | succ j => rfl
  | succ n =>
    cases j with
    | zero => rfl
    | succ j =>
      by_cases heq : j = n
      case neg =>
        have hne : (⟨j + 1⟩ : Handle) ≠ ⟨n + 1⟩ := fun hsame => heq (by simpa using hsame)
        simp [clearOwner, modifyEntry, record?, entry?, Ne.symm heq, hne]
      case pos =>
        subst heq
        cases hentry : r.entries[j]? <;> simp [clearOwner, modifyEntry, record?, entry?, hentry]

namespace Context

variable {c : Context} {p : Platform} {b : Binding} {bs : List Binding} {active : Nat} {h : Handle}

-- The latest copy of an object is on record for a device.
def Owns (p : Platform) (device : Nat) (h : Handle) : Prop :=
  (p.registry.record? h).bind Ownership.owner = some device

-- Giving a buffer up takes the record from the active device, and gives none.
theorem owns_giveUp (hactive : c.active = some active) (howns : Owns (c.giveUp p b) active h) :
    Owns p active h ∧ h ≠ b.object.handle := by
  have hrelease (p' : Platform) (hregistry : p'.registry = p.registry)
      (howns : Owns (if (p'.registry.record? b.object.handle).bind Ownership.owner = some active then
        { p' with registry := p'.registry.clearOwner b.object.handle } else p') active h) :
      Owns p active h ∧ h ≠ b.object.handle := by
    split at howns
    case isFalse hother =>
      refine ⟨?_, fun heq => ?_⟩
      case refine_1 => rwa [Owns, hregistry] at howns
      case refine_2 => exact hother (heq ▸ howns)
    case isTrue =>
      unfold Owns at howns
      rw [Registry.record?_clearOwner, hregistry] at howns
      by_cases heq : h = b.object.handle
      case pos =>
        rw [if_pos heq] at howns
        cases hrecord : p.registry.record? h <;> rw [hrecord] at howns <;> cases howns
      case neg =>
        rw [if_neg heq] at howns
        exact ⟨howns, heq⟩
  unfold giveUp at howns
  rw [hactive] at howns
  exact hrelease _ (by split <;> rfl) howns

theorem owns_giveUpAll (hactive : c.active = some active) (howns : Owns (bs.foldl c.giveUp p) active h) :
    Owns p active h ∧ ∀ b ∈ bs, h ≠ b.object.handle := by
  induction bs generalizing p with
  | nil => exact ⟨howns, nofun⟩
  | cons b bs ih =>
    obtain ⟨hbefore, hrest⟩ := ih howns
    obtain ⟨hp, hb⟩ := owns_giveUp hactive hbefore
    exact ⟨hp, List.forall_mem_cons.mpr ⟨hb, hrest⟩⟩

-- What an execution that failed leaves behind: no buffer, and no object that the active device owns.
structure Abandoned (rest : Nat → List (BufferId × Nat)) (t : Hosted Context) : Prop where
  empty    : ∀ b ∈ t.part.bindings, b.state.buffer = none
  released : ∀ place, (t.device place).memory.live.Perm (rest place)
  disowned : ∀ b ∈ t.part.bindings, ∀ active, t.part.active = some active →
    ¬Owns t.platform active b.object.handle

theorem abandoned_invalidate {rest : Nat → List (BufferId × Nat)} {u : Hosted Context}
    (hbooks : Books rest (Context.invalidate u).2) : Abandoned rest (Context.invalidate u).2 where
  empty := by
    intro b hb
    obtain ⟨b', _, rfl⟩ := List.mem_map.mp hb
    rfl
  released := by
    intro place
    have hheld : (Context.invalidate u).2.part.held = [] := held_detachAll u.part
    have hbalanced := hbooks.balanced place
    rwa [heldAt_of_held hheld] at hbalanced
  disowned := by
    intro b hb active hactive howns
    obtain ⟨b', hb', rfl⟩ := List.mem_map.mp hb
    exact (owns_giveUpAll hactive howns).2 b' hb' rfl

end Context

namespace Machine

open Context

variable {rest : Nat → List (BufferId × Nat)} {m : Machine} {s t : Hosted Context} {e : Error}

-- The error of a program that has a CONTEXT, and launches on the device of the latest one, names the
-- instruction that failed, and all that the context has left is what it had no part in.
theorem execute_abandons (hbooks : Books rest s) (hcontext : ∃ device, .context device ∈ m.instructions)
    (hgrounded : Grounded none m.instructions) (h : m.execute s = (.error e, t)) :
    (∃ pre i post r s' source u, m.instructions = pre ++ i :: post ∧
      Reaches m 0 pre (Run.start m) s r s' ∧ m.step pre.length i r s' = (.error source, u) ∧
      e = .instruction pre.length i.opcode source) ∧ Abandoned rest t := by
  obtain ⟨⟨hsustains, herror⟩, hsteps⟩ :=
    (execute_ended (P := False) hcontext (steps_sustains hbooks (fit_start hgrounded))).of_eq h
  obtain ⟨pre, i, post, r, s', source, u, his, hreach, hfails, he, ht⟩ := steps_error (hsteps e rfl)
  rw [Nat.zero_add] at hfails he
  refine ⟨⟨pre, i, post, r, s', source, u, his, hreach, hfails, he⟩, ?_⟩
  rw [ht] at hsustains ⊢
  exact abandoned_invalidate hsustains.books

-- Without a CONTEXT the failure comes after the last instruction. It names none, and nothing is given back.
theorem execute_headless (hcontext : ∀ device, .context device ∉ m.instructions) {r : Run}
    (h : m.steps 0 m.instructions (Run.start m) s = (.ok r, t)) :
    m.execute s = (.error (.config .beforeContext), t) := by
  have hsame : m.instructions.foldl Instruction.turnsTo none = none := by
    generalize m.instructions = is at hcontext
    induction is with
    | nil => rfl
    | cons i is ih =>
      rw [List.foldl_cons, Instruction.turnsTo_of_ne]
      case h =>
        intro hi
        cases i with
        | context device => exact hcontext device List.mem_cons_self
        | _ => cases hi
      exact ih fun device hmem => hcontext device (List.mem_cons_of_mem _ hmem)
  have hcurrent := (steps_ok.mp h).current
  have htarget : r.target = none := by
    have hnone : r.target.map Target.index = none := hcurrent.trans hsame
    simpa using hnone
  unfold execute
  rw [Action.bind_of_ok h, Run.device, htarget]
  rfl

-- An object of two bytes, which a first program copies to the device.
def shelf : Hosted Context where
  platform := {
    registry := (({} : Registry).register (.array .byte) [1, 2]).2
    channels := [{ device := { limits := { computeUnits := 1 }, threadName := "queue" } }] }
  part := { name := "shelf", devices := [0], bindings := [{ object := ⟨⟨1⟩, .array .byte⟩ }] }

def written (is : List Instruction) : Machine where
  program := { code := is.flatMap Instruction.encoding, lists := [] }
  instructions := is
  config := {}

def filling : Machine :=
  written [.begin 1 0 0, .context 0, .streamIn 0 0 0 none, .finish]

def straying : Machine :=
  written [.begin 2 0 0, .context 0, .streamIn 0 0 0 none, .streamIn 7 0 0 none, .finish]

def headless : Machine :=
  written [.begin 0 0 0, .finish]

theorem straying_abandons : Machine.create straying.program {} = .ok straying ∧
    ∃ e t, straying.execute shelf = (.error e, t) ∧ (∃ source, e = .instruction 3 .streamIn source) ∧
      Abandoned (fun _ => []) t := by
  have hcreate : Machine.create straying.program {} = .ok straying := by decide +kernel
  have hbooks : Books (fun _ => []) shelf :=
    books_of_empty (by decide) (by simp [shelf]) (by simp [shelf, ObjectState.tidy_default])
  have hindex : (straying.execute shelf).1 =
      .error (.instruction 3 .streamIn (.config (.missingObject 7))) := by decide +kernel
  refine ⟨hcreate, _, _, Prod.ext hindex rfl, ⟨_, rfl⟩, ?_⟩
  exact (execute_abandons hbooks ⟨0, by decide⟩ (by decide) (Prod.ext hindex rfl)).2

-- A program without a CONTEXT is taken, its failure names no instruction, and the buffer is still there.
theorem headless_strands : Machine.create headless.program {} = .ok headless ∧
    (∃ e, (filling.execute shelf).1 = .ok e) ∧
      ∃ e t, headless.execute (filling.execute shelf).2 = (.error e, t) ∧
        (∀ k opcode source, e ≠ .instruction k opcode source) ∧
          ∃ b ∈ t.part.bindings, b.state.buffer = some ⟨1⟩ := by
  have hcreate : Machine.create headless.program {} = .ok headless := by decide +kernel
  have hfails : (headless.execute (filling.execute shelf).2).1 = .error (.config .beforeContext) := by
    decide +kernel
  have hkept : ((headless.execute (filling.execute shelf).2).2.part.bindings.map (·.state.buffer)) =
      [some ⟨1⟩] := by decide +kernel
  have hok : (filling.execute shelf).1.toOption.isSome := by decide +kernel
  refine ⟨hcreate, ?_, _, _, Prod.ext hfails rfl, nofun, ?_⟩
  case refine_1 =>
    cases h : (filling.execute shelf).1 with
    | error => rw [h] at hok; cases hok
    | ok e => exact ⟨e, rfl⟩
  case refine_2 =>
    obtain ⟨b, hb, hbuffer⟩ := List.mem_map.mp (hkept ▸ List.mem_singleton_self (some (⟨1⟩ : BufferId)))
    exact ⟨b, hb, hbuffer⟩

end Machine
end Offload
