import Mathlib.Data.List.Forall2
import Offload.Error

/-!
Reasoning about actions. `Ends` says how an action ends from one state, in success or in failure;
`Keeps` says that whatever it does, the state before and the state after stand in a relation; `Errs` says
that whatever it fails with is of one kind; `Ignores` that a part of the state is nothing to it.
-/

namespace Offload

theorem bind_eq_ok {ε α β : Type} {x : Except ε α} {f : α → Except ε β} {b : β} :
    (x >>= f) = .ok b ↔ ∃ a, x = .ok a ∧ f a = .ok b := by
  cases x <;> simp [bind, Except.bind]

theorem forall₂_of_mapM_ok {ε α β : Type} {f : α → Except ε β} {xs : List α} {ys : List β}
    (h : xs.mapM f = .ok ys) : List.Forall₂ (fun x y => f x = .ok y) xs ys := by
  induction xs generalizing ys with
  | nil =>
    cases h
    exact .nil
  | cons x xs ih =>
    rw [List.mapM_cons] at h
    obtain ⟨y, hx, h⟩ := bind_eq_ok.mp h
    obtain ⟨ys, hxs, h⟩ := bind_eq_ok.mp h
    cases h
    exact .cons hx (ih hxs)

-- Whatever a computation fails with has a property.
def Erring {α : Type} (P : Error → Prop) (x : Except Error α) : Prop :=
  ∀ e, x = .error e → P e

namespace Erring

variable {α β : Type} {P P' : Error → Prop}

theorem mono {x : Except Error α} (hx : Erring P x) (h : ∀ e, P e → P' e) : Erring P' x :=
  fun e he => h e (hx e he)

theorem pure (a : α) : Erring P (pure a) :=
  nofun

theorem throw {e : Error} (h : P e) : Erring P (throw e : Except Error α) := by
  intro e' he
  cases he
  exact h

theorem bind {x : Except Error α} {f : α → Except Error β} (hx : Erring P x) (hf : ∀ a, Erring P (f a)) :
    Erring P (x >>= f) := by
  cases x with
  | error e => exact fun _ he => hx _ (by cases he; rfl)
  | ok a => exact hf a

theorem mapM {f : α → Except Error β} (hf : ∀ a, Erring P (f a)) (as : List α) : Erring P (as.mapM f) := by
  induction as with
  | nil => exact pure _
  | cons a as ih =>
    rw [List.mapM_cons]
    exact bind (hf a) fun _ => bind ih fun _ => pure _

end Erring

namespace Action

variable {σ τ α β : Type}

-- What holds of the outcome of `x` and the state it leaves, when it is run in `s`.
def Ends (x : Action σ α) (s : σ) (Q : Except Error α → σ → Prop) : Prop :=
  Q (x s).1 (x s).2

theorem bind_ok {x : Action σ α} {f : α → Action σ β} {s t : σ} {b : β} :
    (x >>= f) s = (.ok b, t) ↔ ∃ a u, x s = (.ok a, u) ∧ f a u = (.ok b, t) := by
  change ExceptT.bind x f s = _ ↔ _
  simp only [ExceptT.bind, ExceptT.mk, ExceptT.bindCont, bind, StateT.bind]
  rcases x s with ⟨e | a, u⟩ <;> constructor
  case error.mp => exact nofun
  case error.mpr => exact fun ⟨_, _, h, _⟩ => nomatch h
  case ok.mp => exact fun h => ⟨a, u, rfl, h⟩
  case ok.mpr =>
    intro ⟨_, _, hx, hf⟩
    cases hx
    exact hf

theorem bind_error {x : Action σ α} {f : α → Action σ β} {s t : σ} {e : Error} :
    (x >>= f) s = (.error e, t) ↔
      x s = (.error e, t) ∨ ∃ a u, x s = (.ok a, u) ∧ f a u = (.error e, t) := by
  change ExceptT.bind x f s = _ ↔ _
  simp only [ExceptT.bind, ExceptT.mk, ExceptT.bindCont, bind, StateT.bind]
  rcases x s with ⟨e' | a, u⟩ <;> constructor
  case error.mp =>
    intro h
    cases h
    exact .inl rfl
  case error.mpr =>
    rintro (h | ⟨_, _, h, _⟩) <;> cases h
    rfl
  case ok.mp => exact fun h => .inr ⟨a, u, rfl, h⟩
  case ok.mpr =>
    rintro (h | ⟨_, _, hx, hf⟩)
    · cases h
    · cases hx
      exact hf

theorem exists_ok {x : Action σ α} {s : σ} (h : (x s).1.toOption.isSome) : ∃ a t, x s = (.ok a, t) := by
  rcases hx : x s with ⟨e | a, t⟩
  case error =>
    rw [hx] at h
    cases h
  case ok => exact ⟨a, t, rfl⟩

theorem bind_of_ok {x : Action σ α} {f : α → Action σ β} {s u : σ} {a : α} (h : x s = (.ok a, u)) :
    (x >>= f) s = f a u := by
  change ExceptT.bind x f s = _
  simp only [ExceptT.bind, ExceptT.mk, ExceptT.bindCont, bind, StateT.bind, h]

theorem bind_of_error {x : Action σ α} {f : α → Action σ β} {s u : σ} {e : Error}
    (h : x s = (.error e, u)) : (x >>= f) s = (.error e, u) := by
  change ExceptT.bind x f s = _
  simp only [ExceptT.bind, ExceptT.mk, ExceptT.bindCont, bind, StateT.bind, h]
  rfl

theorem bind_congr {x y : Action σ α} {f g : α → Action σ β} {s u : σ} (hx : x s = y u)
    (hf : ∀ a t, x s = (.ok a, t) → f a t = g a t) : (x >>= f) s = (y >>= g) u := by
  rcases h : x s with ⟨e | a, t⟩ <;> rw [h] at hx
  case error => rw [bind_of_error h, bind_of_error hx.symm]
  case ok => rw [bind_of_ok h, bind_of_ok hx.symm, hf a t h]

theorem snd_bind_pure (x : Action σ α) (f : α → β) (s : σ) :
    ((x >>= fun a => pure (f a)) s).2 = (x s).2 := by
  rcases h : x s with ⟨e | a, t⟩
  case error => rw [bind_of_error h]
  case ok => rw [bind_of_ok h]; rfl

theorem tryCatch_of_ok {x : Action σ α} {f : Error → Action σ α} {s u : σ} {a : α}
    (h : x s = (.ok a, u)) : tryCatch x f s = (.ok a, u) := by
  change ExceptT.tryCatch x f s = _
  simp only [ExceptT.tryCatch, ExceptT.mk, bind, StateT.bind, h]
  rfl

theorem tryCatch_of_error {x : Action σ α} {f : Error → Action σ α} {s u : σ} {e : Error}
    (h : x s = (.error e, u)) : tryCatch x f s = f e u := by
  change ExceptT.tryCatch x f s = _
  simp only [ExceptT.tryCatch, ExceptT.mk, bind, StateT.bind, h]

-- The right sides are the definitions, but simp has to take them as equations: as a change of form
-- by unfolding, the terms that stand under the binders of an action are too large to compare.
theorem get_apply (s : σ) : (get : Action σ σ) s = (.ok s, s) := (rfl)

theorem set_apply (s t : σ) : (set t : Action σ PUnit) s = (.ok ⟨⟩, t) := (rfl)

theorem modify_apply (f : σ → σ) (s : σ) : (modify f : Action σ PUnit) s = (.ok ⟨⟩, f s) := (rfl)

theorem lift_apply (x : Except Error α) (s : σ) : (liftM x : Action σ α) s = (x, s) := (rfl)

theorem lift_eq_ok {x : Except Error α} {s t : σ} {a : α} :
    (liftM x : Action σ α) s = (.ok a, t) ↔ x = .ok a ∧ s = t := by
  rw [lift_apply, Prod.mk.injEq]

theorem get_bind_congr {f g : σ → Action σ β} {s : σ} (h : f s s = g s s) : (get >>= f) s = (get >>= g) s := by
  rw [bind_of_ok (get_apply s), bind_of_ok (get_apply s), h]

theorem lift_bind_congr {x : Except Error α} {f g : α → Action σ β} {s : σ} (h : ∀ a, f a s = g a s) :
    (liftM x >>= f) s = (liftM x >>= g) s :=
  bind_congr rfl fun a _ ht => (lift_eq_ok.mp ht).2 ▸ h a

namespace Ends

variable {s : σ} {Q : Except Error β → σ → Prop}

theorem of_eq {x : Action σ α} {P : Except Error α → σ → Prop} {r : Except Error α} {t : σ}
    (hx : Ends x s P) (h : x s = (r, t)) : P r t := by
  have hp : P (x s).1 (x s).2 := hx
  rwa [h] at hp

theorem mono {x : Action σ α} {P P' : Except Error α → σ → Prop} (hx : Ends x s P)
    (h : ∀ r t, P r t → P' r t) : Ends x s P' :=
  h _ _ hx

theorem bind {x : Action σ α} {f : α → Action σ β} {P : Except Error α → σ → Prop}
    (hx : Ends x s P) (hok : ∀ a t, P (.ok a) t → Ends (f a) t Q)
    (herror : ∀ e t, P (.error e) t → Q (.error e) t) : Ends (x >>= f) s Q := by
  unfold Ends at *
  rcases h : x s with ⟨e | a, t⟩ <;> rw [h] at hx
  case error =>
    rw [bind_of_error h]
    exact herror e t hx
  case ok =>
    rw [bind_of_ok h]
    exact hok a t hx

theorem bind_of_ok {x : Action σ α} {f : α → Action σ β} {a : α} {t : σ} (hx : x s = (.ok a, t))
    (hf : Ends (f a) t Q) : Ends (x >>= f) s Q := by
  unfold Ends at *
  rwa [Action.bind_of_ok hx]

theorem bind_of_error {x : Action σ α} {f : α → Action σ β} {e : Error} {t : σ}
    (hx : x s = (.error e, t)) (hQ : Q (.error e) t) : Ends (x >>= f) s Q := by
  unfold Ends
  rwa [Action.bind_of_error hx]

theorem bind_get {f : σ → Action σ β} (h : Ends (f s) s Q) : Ends (get >>= f) s Q :=
  bind_of_ok (get_apply s) h

theorem bind_lift {x : Except Error α} {f : α → Action σ β}
    (hok : ∀ a, x = .ok a → Ends (f a) s Q) (herror : ∀ e, x = .error e → Q (.error e) s) :
    Ends (liftM x >>= f) s Q := by
  cases h : x with
  | error e => exact bind_of_error (lift_apply _ s) (herror e h)
  | ok a => exact bind_of_ok (lift_apply _ s) (hok a h)

theorem bind_modify {g : σ → σ} {f : PUnit → Action σ β} (h : Ends (f ⟨⟩) (g s) Q) :
    Ends (modify g >>= f) s Q :=
  bind_of_ok (modify_apply g s) h

theorem bind_set {t : σ} {f : PUnit → Action σ β} (h : Ends (f ⟨⟩) t Q) :
    Ends (set t >>= f) s Q :=
  bind_of_ok (set_apply s t) h

theorem tryCatch {x : Action σ β} {f : Error → Action σ β} {P : Except Error β → σ → Prop}
    (hx : Ends x s P) (hok : ∀ b t, P (.ok b) t → Q (.ok b) t)
    (herror : ∀ e t, P (.error e) t → Ends (f e) t Q) : Ends (tryCatch x f) s Q := by
  unfold Ends at *
  rcases h : x s with ⟨e | b, t⟩ <;> rw [h] at hx
  case error =>
    rw [tryCatch_of_error h]
    exact herror e t hx
  case ok =>
    rw [tryCatch_of_ok h]
    exact hok b t hx

end Ends

-- Whatever comes of `x`, the states before and after it are related.
def Keeps (R : σ → σ → Prop) (x : Action σ α) : Prop :=
  ∀ s, Ends x s fun _ t => R s t

theorem Ends.and_keeps {R : σ → σ → Prop} {x : Action σ α} {s : σ} {P : Except Error α → σ → Prop}
    (hx : Ends x s P) (hkeeps : Keeps R x) : Ends x s fun r t => P r t ∧ R s t :=
  ⟨hx, hkeeps s⟩

-- A relation between states that holds across nothing and across one thing after another.
structure Lasting (R : σ → σ → Prop) : Prop where
  refl (s : σ) : R s s
  trans {s t u : σ} : R s t → R t u → R s u

namespace Keeps

variable {R : σ → σ → Prop} {x : Action σ α}

theorem of_eq (hx : Keeps R x) {s t : σ} {r : Except Error α} (h : x s = (r, t)) : R s t :=
  (hx s).of_eq h

theorem get (hR : Lasting R) : Keeps R (get : Action σ σ) :=
  hR.refl

theorem pure (hR : Lasting R) (a : α) : Keeps R (pure a) :=
  hR.refl

theorem throw (hR : Lasting R) (e : Error) : Keeps R (throw e : Action σ α) :=
  hR.refl

theorem lift (hR : Lasting R) (y : Except Error α) : Keeps R (liftM y : Action σ α) :=
  hR.refl

theorem modify {g : σ → σ} (h : ∀ s, R s (g s)) : Keeps R (modify g : Action σ PUnit) :=
  h

theorem bind (hR : Lasting R) {f : α → Action σ β} (hx : Keeps R x) (hf : ∀ a, Keeps R (f a)) :
    Keeps R (x >>= f) :=
  fun s => (hx s).bind (fun a t h => (hf a t).mono fun _ _ h' => hR.trans h h') fun _ _ h => h

theorem tryCatch (hR : Lasting R) {f : Error → Action σ α} (hx : Keeps R x)
    (hf : ∀ e, Keeps R (f e)) : Keeps R (tryCatch x f) :=
  fun s => (hx s).tryCatch (fun _ _ h => h) fun e t h => (hf e t).mono fun _ _ h' => hR.trans h h'

theorem mapM (hR : Lasting R) {γ : Type} {f : γ → Action σ α} (hf : ∀ c, Keeps R (f c)) (cs : List γ) :
    Keeps R (cs.mapM f) := by
  induction cs with
  | nil => exact pure hR []
  | cons c cs ih =>
    rw [List.mapM_cons]
    exact bind hR (hf c) fun _ => bind hR ih fun _ => pure hR _

end Keeps

-- Whatever `x` does, what it answers with has a property.
def Gives (P : α → Prop) (x : Action σ α) : Prop :=
  ∀ s a, (x s).1 = .ok a → P a

namespace Gives

variable {P : β → Prop}

theorem pure {b : β} (h : P b) : Gives (σ := σ) P (pure b) := by
  intro s b' hb
  cases hb
  exact h

theorem throw (e : Error) : Gives (σ := σ) P (throw e) :=
  fun _ _ h => nomatch h

theorem bind_of {Q : α → Prop} {x : Action σ α} {f : α → Action σ β} (hx : Gives Q x)
    (hf : ∀ a, Q a → Gives P (f a)) : Gives P (x >>= f) := by
  intro s b h
  obtain ⟨a, t, ha, hb⟩ := bind_ok.mp (Prod.ext h rfl : (x >>= f) s = (.ok b, ((x >>= f) s).2))
  exact hf a (hx s a (congrArg Prod.fst ha)) t b (congrArg Prod.fst hb)

theorem bind {x : Action σ α} {f : α → Action σ β} (hf : ∀ a, Gives P (f a)) :
    Gives P (x >>= f) :=
  bind_of (Q := fun _ => True) (fun _ _ _ => trivial) fun a _ => hf a

theorem of_eq {x : Action σ β} (hx : Gives P x) {s t : σ} {b : β} (h : x s = (.ok b, t)) : P b :=
  hx s b (congrArg Prod.fst h)

end Gives

-- Whatever `x` fails with has a property, wherever it starts.
def Errs (P : Error → Prop) (x : Action σ α) : Prop :=
  ∀ s, Erring P (x s).1

namespace Errs

variable {P : Error → Prop} {x : Action σ α}

theorem pure (a : α) : Errs P (Pure.pure a : Action σ α) :=
  fun _ => Erring.pure a

theorem throw {e : Error} (h : P e) : Errs P (throw e : Action σ α) :=
  fun _ => Erring.throw h

theorem get : Errs P (get : Action σ σ) :=
  fun s => Erring.pure s

theorem set (t : σ) : Errs P (set t : Action σ PUnit) :=
  fun _ => Erring.pure PUnit.unit

theorem modify (f : σ → σ) : Errs P (modify f : Action σ PUnit) :=
  fun _ => Erring.pure PUnit.unit

theorem lift {y : Except Error α} (h : Erring P y) : Errs P (liftM y : Action σ α) :=
  fun _ => h

theorem bind {f : α → Action σ β} (hx : Errs P x) (hf : ∀ a, Errs P (f a)) : Errs P (x >>= f) := by
  intro s e he
  rcases bind_error.mp (Prod.ext he rfl : (x >>= f) s = (.error e, _)) with h | ⟨a, u, _, h⟩
  case inl => exact hx s e (congrArg Prod.fst h)
  case inr => exact hf a u e (congrArg Prod.fst h)

theorem tryCatch {f : Error → Action σ α} (hx : Errs P x) (hf : ∀ e, P e → Errs P (f e)) :
    Errs P (tryCatch x f) := by
  intro s e' he'
  rcases h : x s with ⟨e | a, u⟩
  case error =>
    rw [tryCatch_of_error h] at he'
    exact hf e (hx s e (congrArg Prod.fst h)) u e' he'
  case ok =>
    rw [tryCatch_of_ok h] at he'
    cases he'

theorem mapM {γ : Type} {f : γ → Action σ α} (hf : ∀ c, Errs P (f c)) (cs : List γ) :
    Errs P (cs.mapM f) := by
  induction cs with
  | nil => exact pure []
  | cons c cs ih =>
    rw [List.mapM_cons]
    exact bind (hf c) fun _ => bind ih fun _ => pure _

theorem forM {f : α → Action σ PUnit} (hf : ∀ a, Errs P (f a)) (as : List α) : Errs P (as.forM f) := by
  induction as with
  | nil => exact pure _
  | cons a as ih => exact bind (hf a) fun _ => ih

end Errs

-- It makes no difference to `x` in `s` whether `f` comes before or after it.
def Ignores (f : σ → σ) (x : Action σ α) (s : σ) : Prop :=
  x (f s) = ((x s).1, f (x s).2)

namespace Ignores

variable {f : σ → σ} {s : σ}

theorem bind {x : Action σ α} {k : α → Action σ β} (hx : Ignores f x s) (hk : ∀ a t, Ignores f (k a) t) :
    Ignores f (x >>= k) s := by
  unfold Ignores at hx ⊢
  rcases h : x s with ⟨e | a, t⟩ <;> rw [h] at hx
  case error => rw [bind_of_error hx, bind_of_error h]
  case ok => rw [bind_of_ok hx, bind_of_ok h, hk a t]

theorem bind_get {k : σ → Action σ β} (hk : k (f s) (f s) = ((k s s).1, f (k s s).2)) :
    Ignores f (get >>= k) s := by
  unfold Ignores
  rw [bind_of_ok (get_apply _), bind_of_ok (get_apply _), hk]

end Ignores
end Action
end Offload
