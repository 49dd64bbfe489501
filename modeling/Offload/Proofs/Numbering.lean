import Offload.Event
import Offload.Device.Memory
import Offload.Proofs.Action

/-!
Two runs that do the same but for the numbers of their buffers and events. A numbering says which number stands
for which; it only ever grows. One action echoes another one if from states that correspond both get to states
that correspond again, with the same answer or the same failure.
-/

namespace Offload

section

variable {α β : Type} {R : α → β → Prop} {xs : List α} {ys : List β}

theorem forall₂_getElem? (h : List.Forall₂ R xs ys) (i : Nat) : Option.Rel R xs[i]? ys[i]? := by
  have hlength := h.length_eq
  by_cases hlt : i < xs.length
  case pos =>
    rw [List.getElem?_eq_getElem hlt, List.getElem?_eq_getElem (hlength ▸ hlt)]
    exact .some (h.get hlt (hlength ▸ hlt))
  case neg =>
    rw [List.getElem?_eq_none (Nat.le_of_not_lt hlt), List.getElem?_eq_none (hlength ▸ Nat.le_of_not_lt hlt)]
    exact .none

theorem forall₂_modify (h : List.Forall₂ R xs ys) (i : Nat) {f : α → α} {g : β → β}
    (hfg : ∀ x y, R x y → R (f x) (g y)) : List.Forall₂ R (xs.modify i f) (ys.modify i g) := by
  refine List.forall₂_iff_get.mpr ⟨by simp [h.length_eq], fun k hk hk' => ?_⟩
  rw [List.length_modify] at hk hk'
  have hget := h.get hk hk'
  simp only [List.get_eq_getElem, List.getElem_modify] at hget ⊢
  split
  case isTrue => exact hfg _ _ hget
  case isFalse => exact hget

end

-- Which buffers and which events of two runs stand for each other.
structure Numbering where
  buffers : List (BufferId × BufferId) := []
  events  : List (EventId × EventId) := []

namespace Numbering

variable {ν ν' ν'' : Numbering} {id id' : BufferId} {e e' : EventId}

-- No number stands for two.
structure OneToOne (ν : Numbering) : Prop where
  buffers : ∀ x ∈ ν.buffers, ∀ y ∈ ν.buffers, x.1 = y.1 ↔ x.2 = y.2
  events  : ∀ x ∈ ν.events, ∀ y ∈ ν.events, x.1 = y.1 ↔ x.2 = y.2

structure Within (ν ν' : Numbering) : Prop where
  buffers : ν.buffers ⊆ ν'.buffers
  events  : ν.events ⊆ ν'.events

theorem Within.refl (ν : Numbering) : ν.Within ν :=
  ⟨List.Subset.refl _, List.Subset.refl _⟩

theorem Within.trans (h : ν.Within ν') (h' : ν'.Within ν'') : ν.Within ν'' :=
  ⟨List.Subset.trans h.buffers h'.buffers, List.Subset.trans h.events h'.events⟩

def addBuffer (ν : Numbering) (id id' : BufferId) : Numbering :=
  { ν with buffers := (id, id') :: ν.buffers }

def addEvent (ν : Numbering) (e e' : EventId) : Numbering :=
  { ν with events := (e, e') :: ν.events }

theorem within_addBuffer (ν : Numbering) (id id' : BufferId) : ν.Within (ν.addBuffer id id') :=
  ⟨List.subset_cons_self _ _, List.Subset.refl _⟩

theorem within_addEvent (ν : Numbering) (e e' : EventId) : ν.Within (ν.addEvent e e') :=
  ⟨List.Subset.refl _, List.subset_cons_self _ _⟩

-- Two numbers that are both new may stand for each other.
theorem one_to_one_cons {α : Type} {x : α × α} {xs : List (α × α)}
    (h : ∀ y ∈ xs, ∀ z ∈ xs, y.1 = z.1 ↔ y.2 = z.2) (hnew : ∀ y ∈ xs, y.1 ≠ x.1 ∧ y.2 ≠ x.2) :
    ∀ y ∈ x :: xs, ∀ z ∈ x :: xs, y.1 = z.1 ↔ y.2 = z.2 := by
  intro y hy z hz
  rcases List.mem_cons.mp hy with hyx | hy <;> rcases List.mem_cons.mp hz with hzx | hz
  case inl.inl => rw [hyx, hzx]; exact ⟨fun _ => rfl, fun _ => rfl⟩
  case inl.inr =>
    rw [hyx]
    exact ⟨fun heq => absurd heq.symm (hnew z hz).1, fun heq => absurd heq.symm (hnew z hz).2⟩
  case inr.inl =>
    rw [hzx]
    exact ⟨fun heq => absurd heq (hnew y hy).1, fun heq => absurd heq (hnew y hy).2⟩
  case inr.inr => exact h y hy z hz

theorem OneToOne.addBuffer (h : ν.OneToOne) (hnew : ∀ x ∈ ν.buffers, x.1 ≠ id ∧ x.2 ≠ id') :
    (ν.addBuffer id id').OneToOne :=
  ⟨one_to_one_cons h.buffers hnew, h.events⟩

theorem OneToOne.addEvent (h : ν.OneToOne) (hnew : ∀ x ∈ ν.events, x.1 ≠ e ∧ x.2 ≠ e') :
    (ν.addEvent e e').OneToOne :=
  ⟨h.buffers, one_to_one_cons h.events hnew⟩

end Numbering

section

variable {ν ν' : Numbering}

-- Faults that are the same but for the events and buffers that they name.
inductive CommandFault.Matches (ν : Numbering) : CommandFault → CommandFault → Prop
  | dependency {e e' : EventId} (h : (e, e') ∈ ν.events) :
    Matches ν (.dependency e.number) (.dependency e'.number)
  | writeUnknown {id id' : BufferId} (h : (id, id') ∈ ν.buffers) :
    Matches ν (.writeUnknown id.number) (.writeUnknown id'.number)
  | writeOverflow (given size : Nat) {id id' : BufferId} (h : (id, id') ∈ ν.buffers) :
    Matches ν (.writeOverflow given id.number size) (.writeOverflow given id'.number size)
  | readUnknown {id id' : BufferId} (h : (id, id') ∈ ν.buffers) :
    Matches ν (.readUnknown id.number) (.readUnknown id'.number)
  | readOverflow (asked size : Nat) {id id' : BufferId} (h : (id, id') ∈ ν.buffers) :
    Matches ν (.readOverflow asked id.number size) (.readOverflow asked id'.number size)
  | readOutsideHost (start stop size : Nat) :
    Matches ν (.readOutsideHost start stop size) (.readOutsideHost start stop size)
  | unknownArgument (argument : Nat) {id id' : BufferId} (h : (id, id') ∈ ν.buffers) :
    Matches ν (.unknownArgument argument id.number) (.unknownArgument argument id'.number)
  | kernel (fault : KernelFault) : Matches ν (.kernel fault) (.kernel fault)
  | unknownEvent : Matches ν .unknownEvent .unknownEvent
  | task (id : String) {fault fault' : CommandFault} (h : Matches ν fault fault') :
    Matches ν (.task id fault) (.task id fault')
  | other (text : String) : Matches ν (.other text) (.other text)

theorem CommandFault.Matches.mono {fault fault' : CommandFault} (h : fault.Matches ν fault')
    (hν : ν.Within ν') : fault.Matches ν' fault' := by
  induction h with
  | dependency h => exact .dependency (hν.events h)
  | writeUnknown h => exact .writeUnknown (hν.buffers h)
  | writeOverflow given size h => exact .writeOverflow given size (hν.buffers h)
  | readUnknown h => exact .readUnknown (hν.buffers h)
  | readOverflow asked size h => exact .readOverflow asked size (hν.buffers h)
  | readOutsideHost start stop size => exact .readOutsideHost start stop size
  | unknownArgument argument h => exact .unknownArgument argument (hν.buffers h)
  | kernel fault => exact .kernel fault
  | unknownEvent => exact .unknownEvent
  | task id _ ih => exact .task id ih
  | other text => exact .other text

inductive EventStatus.Matches (ν : Numbering) : EventStatus → EventStatus → Prop
  | queued : Matches ν .queued .queued
  | running : Matches ν .running .running
  | complete : Matches ν .complete .complete
  | failed {fault fault' : CommandFault} (h : fault.Matches ν fault') : Matches ν (.failed fault) (.failed fault')

theorem EventStatus.Matches.mono {status status' : EventStatus} (h : status.Matches ν status')
    (hν : ν.Within ν') : status.Matches ν' status' := by
  cases h with
  | queued => exact .queued
  | running => exact .running
  | complete => exact .complete
  | failed h => exact .failed (h.mono hν)

-- Of all errors only those of devices name an event.
def Error.Nameless : Error → Prop
  | .device .. => False
  | .instruction _ _ source => source.Nameless
  | _ => True

inductive Error.Matches (ν : Numbering) : Error → Error → Prop
  | nameless {e : Error} (h : e.Nameless) : Matches ν e e
  | device (device : Nat) {e e' : EventId} {fault fault' : CommandFault} (he : (e, e') ∈ ν.events)
    (hfault : fault.Matches ν fault') : Matches ν (.device device e.number fault) (.device device e'.number fault')
  | instruction (index : Nat) (opcode : Opcode) {source source' : Error} (h : Matches ν source source') :
    Matches ν (.instruction index opcode source) (.instruction index opcode source')

namespace Error.Matches

theorem config (cause : Misuse) : Error.Matches ν (.config cause) (.config cause) :=
  .nameless trivial

theorem resource (device : Nat) (cause : Shortage) :
    Error.Matches ν (.resource device cause) (.resource device cause) :=
  .nameless trivial

variable {e e' : Error}

theorem mono (h : e.Matches ν e') (hν : ν.Within ν') : e.Matches ν' e' := by
  induction h with
  | nameless h => exact .nameless h
  | device device he hfault => exact .device device (hν.events he) (hfault.mono hν)
  | instruction index opcode _ ih => exact .instruction index opcode ih

theorem atInstruction (h : e.Matches ν e') (index : Nat) (opcode : Opcode) :
    (e.atInstruction index opcode).Matches ν (e'.atInstruction index opcode) := by
  cases h with
  | nameless h =>
    refine .nameless ?_
    cases e <;> exact h
  | device device he hfault => exact .instruction index opcode (.device device he hfault)
  | instruction index' opcode' h => exact .instruction index' opcode' h

end Error.Matches

end

section

variable {α β γ δ : Type} {ν ν' : Numbering} {V : Numbering → α → β → Prop}

-- The same failure, or answers that correspond.
inductive Answers (V : Numbering → α → β → Prop) (ν : Numbering) : Except Error α → Except Error β → Prop
  | ok {a : α} {b : β} (h : V ν a b) : Answers V ν (.ok a) (.ok b)
  | error {e e' : Error} (h : e.Matches ν e') : Answers V ν (.error e) (.error e')

theorem Answers.imp {W : Numbering → α → β → Prop} {r : Except Error α} {r' : Except Error β}
    (h : Answers V ν r r') (hVW : ∀ a b, V ν a b → W ν a b) : Answers W ν r r' := by
  cases h with
  | ok h => exact .ok (hVW _ _ h)
  | error h => exact .error h

theorem Answers.bind {W : Numbering → γ → δ → Prop} {r : Except Error α} {r' : Except Error β}
    {f : α → Except Error γ} {f' : β → Except Error δ} (h : Answers V ν r r')
    (hf : ∀ a b, V ν a b → Answers W ν (f a) (f' b)) : Answers W ν (r >>= f) (r' >>= f') := by
  cases h with
  | ok hV => exact hf _ _ hV
  | error he => exact .error he

theorem Answers.mono {r : Except Error α} {r' : Except Error β} (h : Answers V ν r r')
    (hV : ∀ a b, V ν a b → V ν' a b) (hν : ν.Within ν') : Answers V ν' r r' := by
  cases h with
  | ok h => exact .ok (hV _ _ h)
  | error h => exact .error (h.mono hν)

-- Pieces that stand at the same places of two lists.
abbrev Numbering.Each (V : Numbering → α → β → Prop) (ν : Numbering) : List α → List β → Prop :=
  List.Forall₂ (V ν)

-- What has nothing to do with numbers is the same.
def Numbering.Same (_ : Numbering) (a b : α) : Prop :=
  a = b

-- No failure of a computation names an event.
abbrev Namelessly (x : Except Error α) : Prop :=
  Erring Error.Nameless x

theorem Erring.answers {x : Except Error α} (h : Namelessly x) : Answers Numbering.Same ν x x := by
  cases x with
  | ok a => exact .ok rfl
  | error e => exact .error (.nameless (h e rfl))

-- What corresponds goes on to do so when the numbering grows.
def Numbering.Lasting (V : Numbering → α → β → Prop) : Prop :=
  ∀ {ν ν' : Numbering} {a : α} {b : β}, V ν a b → ν.Within ν' → V ν' a b

end

namespace Action

variable {σ τ α β γ δ : Type} {S : Numbering → σ → τ → Prop} {R : σ → Prop} {V : Numbering → α → β → Prop}
  {W : Numbering → γ → δ → Prop} {ν : Numbering} {s : σ} {t : τ}

-- One action does what the other one does, or it fails for a reason of its own, which `R` tells from the state.
def Echoes (S : Numbering → σ → τ → Prop) (R : σ → Prop) (V : Numbering → α → β → Prop) (ν : Numbering)
    (x : Action σ α) (y : Action τ β) (s : σ) (t : τ) : Prop :=
  (∃ e, (x s).1 = .error e ∧ R (x s).2) ∨
    ∃ ν', ν.Within ν' ∧ S ν' (x s).2 (y t).2 ∧ Answers V ν' (x s).1 (y t).1

namespace Echoes

theorem of_eq {x : Action σ α} {y : Action τ β} {r : Except Error α} {r' : Except Error β} {s' : σ} {t' : τ}
    {ν' : Numbering} (hx : x s = (r, s')) (hy : y t = (r', t')) (hν : ν.Within ν') (hS : S ν' s' t')
    (hr : Answers V ν' r r') : Echoes S R V ν x y s t := by
  refine .inr ⟨ν', hν, ?_, ?_⟩
  case refine_1 => rwa [hx, hy]
  case refine_2 => rwa [hx, hy]

theorem pure {a : α} {b : β} (hS : S ν s t) (hV : V ν a b) : Echoes S R V ν (pure a) (pure b) s t :=
  .inr ⟨ν, .refl ν, hS, .ok hV⟩

theorem throw {e e' : Error} (hS : S ν s t) (he : e.Matches ν e') :
    Echoes S R V ν (throw e) (throw e') s t :=
  .inr ⟨ν, .refl ν, hS, .error he⟩

theorem modify {f : σ → σ} {g : τ → τ} (hS : S ν (f s) (g t)) :
    Echoes S R Numbering.Same ν (modify f : Action σ PUnit) (modify g : Action τ PUnit) s t :=
  .inr ⟨ν, .refl ν, hS, .ok rfl⟩

-- What one of them is known to answer with.
theorem gives {x : Action σ α} {y : Action τ β} {P : α → Prop} (h : Echoes S R V ν x y s t) (hx : x.Gives P) :
    Echoes S R (fun ν' a b => V ν' a b ∧ P a) ν x y s t := by
  rcases h with hR | ⟨ν', hν, hS, hr⟩
  case inl => exact .inl hR
  case inr =>
    refine .inr ⟨ν', hν, hS, ?_⟩
    have hP := hx s
    generalize (x s).1 = r at hr hP ⊢
    generalize (y t).1 = r' at hr ⊢
    cases hr with
    | ok hV => exact .ok ⟨hV, hP _ rfl⟩
    | error he => exact .error he

theorem mono {S' : Numbering → σ → τ → Prop} {x : Action σ α} {y : Action τ β} (h : Echoes S R V ν x y s t)
    (hS : ∀ ν' s' t', S ν' s' t' → S' ν' s' t') : Echoes S' R V ν x y s t :=
  Or.imp id (fun ⟨ν', hν, hst, hr⟩ => ⟨ν', hν, hS ν' _ _ hst, hr⟩) h

-- In between, more may be known of the states.
theorem bind_mono {S' : Numbering → σ → τ → Prop} {x : Action σ α} {y : Action τ β} {f : α → Action σ γ}
    {g : β → Action τ δ} (h : Echoes S' R V ν x y s t) (hS : ∀ ν' s' t', S' ν' s' t' → S ν' s' t')
    (hf : ∀ ν' a b s' t', ν.Within ν' → S' ν' s' t' → V ν' a b → Echoes S R W ν' (f a) (g b) s' t') :
    Echoes S R W ν (x >>= f) (y >>= g) s t := by
  rcases hx : x s with ⟨e | a, s'⟩ <;> rcases hy : y t with ⟨e' | b, t'⟩ <;> unfold Echoes at h <;>
    rw [hx, hy] at h
  case error.error =>
    unfold Echoes
    rw [bind_of_error hx, bind_of_error hy]
    refine h.imp (fun ⟨e₁, he, hR⟩ => ⟨e, rfl, hR⟩) fun ⟨ν', hν, hst, hr⟩ => ⟨ν', hν, hS _ _ _ hst, ?_⟩
    cases hr with
    | error h => exact .error h
  case error.ok =>
    unfold Echoes
    rw [bind_of_error hx]
    refine h.imp (fun ⟨_, _, hR⟩ => ⟨e, rfl, hR⟩) fun ⟨_, _, _, hr⟩ => ?_
    cases hr
  case ok.error =>
    rcases h with ⟨_, he, _⟩ | ⟨_, _, _, hr⟩
    case inl => cases he
    case inr => cases hr
  case ok.ok =>
    rcases h with ⟨_, he, _⟩ | ⟨ν', hν, hst, hr⟩
    case inl => cases he
    case inr =>
      cases hr with
      | ok hV =>
        unfold Echoes
        rw [bind_of_ok hx, bind_of_ok hy]
        exact Or.imp id (fun ⟨ν'', hν', hrest⟩ => ⟨ν'', hν.trans hν', hrest⟩) (hf ν' a b s' t' hν hst hV)

theorem bind {x : Action σ α} {y : Action τ β} {f : α → Action σ γ} {g : β → Action τ δ}
    (h : Echoes S R V ν x y s t) (hf : ∀ ν' a b s' t', ν.Within ν' → S ν' s' t' → V ν' a b →
      Echoes S R W ν' (f a) (g b) s' t') : Echoes S R W ν (x >>= f) (y >>= g) s t :=
  h.bind_mono (fun _ _ _ hst => hst) hf

theorem bind_get {f : σ → Action σ γ} {g : τ → Action τ δ} (h : Echoes S R W ν (f s) (g t) s t) :
    Echoes S R W ν (get >>= f) (get >>= g) s t := by
  unfold Echoes
  rwa [bind_of_ok (get_apply s), bind_of_ok (get_apply t)]

-- What was lifted from two equal answers differs in nothing.
theorem bind_lift {r : Except Error α} {r' : Except Error β} {f : α → Action σ γ} {g : β → Action τ δ}
    (hS : S ν s t) (hr : Answers V ν r r')
    (hf : ∀ a b, r = .ok a → r' = .ok b → V ν a b → Echoes S R W ν (f a) (g b) s t) :
    Echoes S R W ν (liftM r >>= f) (liftM r' >>= g) s t := by
  cases hr with
  | error he =>
    exact of_eq (bind_of_error (lift_apply _ s)) (bind_of_error (lift_apply _ t)) (.refl ν) hS (.error he)
  | ok hV =>
    unfold Echoes
    rw [bind_of_ok (lift_apply _ s), bind_of_ok (lift_apply _ t)]
    exact hf _ _ rfl rfl hV

theorem bind_modify {f : σ → σ} {g : τ → τ} {x : PUnit → Action σ γ} {y : PUnit → Action τ δ}
    (h : Echoes S R W ν (x ⟨⟩) (y ⟨⟩) (f s) (g t)) :
    Echoes S R W ν (Bind.bind (MonadState.modifyGet fun s => (⟨⟩, f s)) x)
      (Bind.bind (MonadState.modifyGet fun t => (⟨⟩, g t)) y) s t := by
  have hx : (Bind.bind (MonadState.modifyGet fun s => (⟨⟩, f s)) x : Action σ γ) s = x ⟨⟩ (f s) := rfl
  have hy : (Bind.bind (MonadState.modifyGet fun t => (⟨⟩, g t)) y : Action τ δ) t = y ⟨⟩ (g t) := rfl
  unfold Echoes
  rwa [hx, hy]

-- Whoever catches the failures passes on those that the other one does not have.
theorem tryCatch {x : Action σ α} {y : Action τ β} {f : Error → Action σ α} {g : Error → Action τ β}
    (h : Echoes S R V ν x y s t) (hf : ∀ ν' e e' s' t', ν.Within ν' → S ν' s' t' → e.Matches ν' e' →
      Echoes S R V ν' (f e) (g e') s' t') (hR : ∀ e s', R s' → ∃ e', (f e s').1 = .error e' ∧ R (f e s').2) :
    Echoes S R V ν (tryCatch x f) (tryCatch y g) s t := by
  rcases hx : x s with ⟨e | a, s'⟩ <;> unfold Echoes at h <;> rw [hx] at h
  case ok =>
    rcases h with ⟨_, he, _⟩ | ⟨ν', hν, hS, hr⟩
    case inl => cases he
    case inr =>
      rcases hy : y t with ⟨e' | b, t'⟩ <;> rw [hy] at hS hr <;> cases hr
      case ok hV => exact of_eq (tryCatch_of_ok hx) (tryCatch_of_ok hy) hν hS (.ok hV)
  case error =>
    rcases h with ⟨_, _, hRs⟩ | ⟨ν', hν, hS, hr⟩
    case inl =>
      obtain ⟨e', he', hR'⟩ := hR e s' hRs
      refine .inl ⟨e', ?_, ?_⟩
      case refine_1 => rwa [tryCatch_of_error hx]
      case refine_2 => rwa [tryCatch_of_error hx]
    case inr =>
      rcases hy : y t with ⟨e' | b, t'⟩ <;> rw [hy] at hS hr <;> cases hr
      case error he =>
        unfold Echoes
        rw [tryCatch_of_error hx, tryCatch_of_error hy]
        exact Or.imp id (fun ⟨ν'', hν', hrest⟩ => ⟨ν'', hν.trans hν', hrest⟩) (hf ν' e e' s' t' hν hS he)

-- One by one, each answer corresponds to the one at the same place.
theorem mapM {ι : Type} {f : ι → Action σ γ} {g : ι → Action τ δ} (hW : Numbering.Lasting W) {xs : List ι}
    (hfg : ∀ x ∈ xs, ∀ ν' s' t', S ν' s' t' → Echoes S R W ν' (f x) (g x) s' t') (hS : S ν s t) :
    Echoes S R (Numbering.Each W) ν (xs.mapM f) (xs.mapM g) s t := by
  induction xs generalizing ν s t with
  | nil => exact pure hS .nil
  | cons x xs ih =>
    obtain ⟨hfirst, hlater⟩ := List.forall_mem_cons.mp hfg
    rw [List.mapM_cons, List.mapM_cons]
    refine (hfirst ν s t hS).bind fun ν₁ c d s₁ t₁ _ hS₁ hcd => (ih hlater hS₁).bind
      fun ν₂ cs ds s₂ t₂ hν₂ hS₂ hrest => ?_
    exact pure hS₂ (.cons (hW hcd hν₂) hrest)

theorem forM {ι : Type} {f : ι → Action σ PUnit} {g : ι → Action τ PUnit} {xs : List ι}
    (hfg : ∀ x ∈ xs, ∀ ν' s' t', S ν' s' t' → Echoes S R Numbering.Same ν' (f x) (g x) s' t')
    (hS : S ν s t) : Echoes S R Numbering.Same ν (xs.forM f) (xs.forM g) s t := by
  induction xs generalizing ν s t with
  | nil => exact pure hS rfl
  | cons x xs ih =>
    obtain ⟨hfirst, hlater⟩ := List.forall_mem_cons.mp hfg
    exact (hfirst ν s t hS).bind fun _ _ _ _ _ _ hS₁ _ => ih hlater hS₁

end Echoes
end Action
end Offload
