import Mathlib.Algebra.BigOperators.Group.List.Basic
import Offload.Proofs.Dealings

/-!
What an execution adds to the counters. Each instruction adds its own part, which can be told from its operands and
the lengths of the objects; all that happens in between adds nothing.
-/

namespace Offload

-- What is added to the counters, before they wrap.
@[ext]
structure Tally where
  executions : Nat := 0
  instructions : Nat := 0
  kernels : Nat := 0
  barriers : Nat := 0
  bytesIn : Nat := 0
  bytesOut : Nat := 0
  deriving DecidableEq, Repr

namespace Tally

instance : Zero Tally :=
  ⟨{}⟩

instance : Add Tally :=
  ⟨fun a b =>
    { executions := a.executions + b.executions
      instructions := a.instructions + b.instructions
      kernels := a.kernels + b.kernels
      barriers := a.barriers + b.barriers
      bytesIn := a.bytesIn + b.bytesIn
      bytesOut := a.bytesOut + b.bytesOut }⟩

instance : AddCommMonoid Tally where
  add_assoc _ _ _ := by ext <;> exact Nat.add_assoc _ _ _
  zero_add _ := by ext <;> exact Nat.zero_add _
  add_zero _ := by ext <;> exact Nat.add_zero _
  add_comm _ _ := by ext <;> exact Nat.add_comm _ _
  nsmul := nsmulRec

-- The parts are added apart.
theorem sum_eq (ts : List Tally) : ts.sum =
    { executions := (ts.map executions).sum
      instructions := (ts.map instructions).sum
      kernels := (ts.map kernels).sum
      barriers := (ts.map barriers).sum
      bytesIn := (ts.map bytesIn).sum
      bytesOut := (ts.map bytesOut).sum } := by
  induction ts with
  | nil => rfl
  | cons t ts ih =>
    rw [List.sum_cons, ih]
    rfl

end Tally

namespace Counters

-- The counters once so much was added.
def plus (c : Counters) (n : Tally) : Counters where
  executions := c.executions + .ofNat n.executions
  instructionsIssued := c.instructionsIssued + .ofNat n.instructions
  kernelsLaunched := c.kernelsLaunched + .ofNat n.kernels
  barriers := c.barriers + .ofNat n.barriers
  bytesIn := c.bytesIn + .ofNat n.bytesIn
  bytesOut := c.bytesOut + .ofNat n.bytesOut

variable (c : Counters)

theorem plus_zero : c.plus 0 = c := by
  change Counters.mk (c.executions + 0) (c.instructionsIssued + 0) (c.kernelsLaunched + 0) (c.barriers + 0)
    (c.bytesIn + 0) (c.bytesOut + 0) = c
  simp only [UInt64.add_zero]

theorem plus_plus (a b : Tally) : (c.plus a).plus b = c.plus (a + b) := by
  simp only [plus, UInt64.add_assoc, ← UInt64.ofNat_add]
  rfl

theorem countExecution_eq : c.countExecution = c.plus { executions := 1 } := by
  simp [countExecution, plus]

theorem countInstruction_eq : c.countInstruction = c.plus { instructions := 1 } := by
  simp [countInstruction, plus]

theorem countLaunch_eq : c.countLaunch = c.plus { kernels := 1 } := by
  simp [countLaunch, plus]

theorem countBarrier_eq : c.countBarrier = c.plus { barriers := 1 } := by
  simp [countBarrier, plus]

theorem countIn_eq (bytes : Nat) : c.countIn bytes = c.plus { bytesIn := bytes } := by
  simp [countIn, plus]

theorem countOut_eq (bytes : Nat) : c.countOut bytes = c.plus { bytesOut := bytes } := by
  simp [countOut, plus]

end Counters

-- The bytes of a transfer, of which no length stands for all.
def portion (length total : Nat) : Nat :=
  if 0 < length then length else total

-- What an instruction adds where the objects have the given sizes.
def Instruction.tally (size : Nat → Nat) : Instruction → Tally
  | .begin .. | .context _ | .finish => { instructions := 1 }
  | .streamIn object _ length _ => { instructions := 1, bytesIn := portion length (size object) }
  | .launch .. => { instructions := 1, kernels := 1 }
  | .streamOut object _ length _ | .streamOutBlocking object _ length _ =>
    { instructions := 1, bytesOut := portion length (size object) }
  | .addDep _ => 0
  | .barrier _ | .marker _ => { instructions := 1, barriers := 1 }

namespace Context

variable {α β : Type} {s t u : Hosted Context} {n n' : Tally} {device index size : Nat} {b : Binding}

-- The counters went up by so much, and what the next counts depend on is as it was.
structure Meters (n : Tally) (s t : Hosted Context) : Prop where
  counters : t.platform.counters = s.platform.counters.plus n
  lengths  : ∀ h, t.platform.registry.byteLength h = s.platform.registry.byteLength h
  objects  : t.part.objects = s.part.objects

theorem Meters.trans (h : Meters n s t) (h' : Meters n' t u) : Meters (n + n') s u where
  counters := by rw [h'.counters, h.counters, Counters.plus_plus]
  lengths k := (h'.lengths k).trans (h.lengths k)
  objects := h'.objects.trans h.objects

-- Nothing was counted.
abbrev Silent : Hosted Context → Hosted Context → Prop :=
  Meters 0

theorem silent_of_counters (hcounters : t.platform.counters = s.platform.counters)
    (hlengths : ∀ h, t.platform.registry.byteLength h = s.platform.registry.byteLength h)
    (hobjects : t.part.objects = s.part.objects) : Silent s t :=
  ⟨hcounters.trans (Counters.plus_zero _).symm, hlengths, hobjects⟩

theorem silent_lasting : Action.Lasting Silent where
  refl _ := silent_of_counters rfl (fun _ => rfl) rfl
  trans h h' := by
    have hboth := h.trans h'
    rwa [add_zero] at hboth

theorem silent_onPlatform (act : Action Channel α) (place : Nat) :
    (Hosted.onPlatform (Platform.onChannel place act) : On α).Keeps Silent :=
  fun _ => silent_of_counters rfl (fun _ => rfl) rfl

theorem silent_onDevice (act : Action Channel α) (device : Nat) : (onDevice device act).Keeps Silent :=
  have hR := silent_lasting
  .bind hR (.get hR) fun _ => .bind hR (.lift hR _) fun _ => silent_onPlatform act _

theorem silent_modifyContext {f : Context → Context} (hobjects : ∀ c, (f c).objects = c.objects) :
    (modifyContext f).Keeps Silent :=
  .modify fun s => silent_of_counters rfl (fun _ => rfl) (hobjects s.part)

theorem silent_readBack (place : Nat) (id : BufferId) (h : Handle) (offset length : Nat) (wait : List EventId)
    (blocking : Bool) :
    (Hosted.onPlatform (Platform.readBack place id h offset length wait blocking) : On EventId).Keeps Silent := by
  intro s
  rw [Action.Ends, Hosted.onPlatform]
  rcases hread : Channel.read id (s.platform.registry.byteLength h) offset length wait blocking
    (s.platform.channel place) with ⟨e | ⟨e, data⟩, c⟩
  case error =>
    rw [Platform.readBack_of_error hread]
    exact silent_of_counters rfl (fun _ => rfl) rfl
  case ok =>
    cases data with
    | none =>
      rw [Platform.readBack_of_none hread]
      exact silent_of_counters rfl (fun _ => rfl) rfl
    | some data =>
      have hfits : offset + data.length ≤ s.platform.registry.byteLength h :=
        Device.read_gives id _ offset length wait blocking _ (e, some data) (congrArg Prod.fst hread) data rfl
      rw [Platform.readBack_of_ok hread]
      exact silent_of_counters rfl (fun k => Registry.byteLength_deliver hfits k) rfl

theorem silent_giveUpAll (c : Context) (bs : List Binding) (p : Platform) :
    (bs.foldl c.giveUp p).counters = p.counters ∧
      ∀ h, (bs.foldl c.giveUp p).registry.byteLength h = p.registry.byteLength h := by
  induction bs generalizing p with
  | nil => exact ⟨rfl, fun _ => rfl⟩
  | cons b bs ih =>
    obtain ⟨registry, hlengths, hgives⟩ := giveUp_eq c p b
    have hcounters : (c.giveUp p b).counters = p.counters := by
      rw [hgives]
      split <;> rfl
    obtain ⟨hlater, hlengths'⟩ := ih (c.giveUp p b)
    refine ⟨hlater.trans hcounters, fun h => (hlengths' h).trans ?_⟩
    rw [hgives]
    exact hlengths h

theorem silent_invalidate : invalidate.Keeps Silent :=
  .modify fun s =>
    have hgives := silent_giveUpAll s.part s.part.bindings s.platform
    silent_of_counters hgives.1 hgives.2 (objects_detachAll s.part)

theorem silent_activate (device : Nat) : (activate device).Keeps Silent :=
  activate_keeps silent_lasting silent_invalidate (silent_modifyContext fun _ => rfl)

theorem silent_kernel (device task : Nat) : (kernel device task).Keeps Silent :=
  kernel_keeps silent_lasting (fun _ => silent_onDevice _ device) fun _ => silent_modifyContext fun _ => rfl

theorem silent_modifyState (index : Nat) (f : ObjectState → ObjectState) :
    (modifyContext (·.modifyState index f)).Keeps Silent :=
  silent_modifyContext fun c => objects_modifyState c index f

theorem silent_ensureBuffer (device index size : Nat) : (ensureBuffer device index size).Keeps Silent :=
  ensureBuffer_keeps silent_lasting (silent_modifyState index) (silent_onDevice _ device)
    fun _ => silent_onDevice _ device

-- What an action adds where it does well.
def Adds (n : Tally) (x : On α) (s : Hosted Context) : Prop :=
  ∀ a t, x s = (.ok a, t) → Meters n s t

namespace Adds

theorem pure (a : α) : Adds 0 (pure a) s := by
  intro a t h
  cases h
  exact silent_lasting.refl s

theorem throw (e : Error) : Adds n (throw e : On α) s :=
  nofun

theorem bind {x : On α} {f : α → On β} (hx : Adds n x s) (hf : ∀ a t, x s = (.ok a, t) → Adds n' (f a) t) :
    Adds (n + n') (x >>= f) s := by
  intro b u h
  obtain ⟨a, t, hfirst, hrest⟩ := Action.bind_ok.mp h
  exact (hx a t hfirst).trans (hf a t hfirst b u hrest)

theorem then_silent {x : On α} {f : α → On β} (hx : Adds n x s) (hf : ∀ a t, Adds 0 (f a) t) :
    Adds n (x >>= f) s := by
  have hboth := hx.bind fun a t _ => hf a t
  rwa [add_zero] at hboth

theorem bind_get {f : Hosted Context → On β} (h : Adds n (f s) s) : Adds n (get >>= f) s := by
  intro b u hrun
  rw [Action.bind_of_ok (Action.get_apply s)] at hrun
  exact h b u hrun

theorem bind_lift {x : Except Error α} {f : α → On β} (h : ∀ a, x = .ok a → Adds n (f a) s) :
    Adds n (liftM x >>= f) s := by
  intro b u hrun
  obtain ⟨a, t, hfirst, hrest⟩ := Action.bind_ok.mp hrun
  obtain ⟨hx, rfl⟩ := Action.lift_eq_ok.mp hfirst
  exact h a hx b u hrest

theorem bind_silent {x : On α} {f : α → On β} (hx : x.Keeps Silent)
    (hf : ∀ a t, Silent s t → Adds n (f a) t) : Adds n (x >>= f) s := by
  intro b u h
  obtain ⟨a, t, hfirst, hrest⟩ := Action.bind_ok.mp h
  have hboth := (hx.of_eq hfirst).trans (hf a t (hx.of_eq hfirst) b u hrest)
  rwa [zero_add] at hboth

end Adds

-- The lengths of the bound objects.
def sizes (s : Hosted Context) (index : Nat) : Nat :=
  (s.part.objects[index]?.map fun o => s.platform.registry.byteLength o.handle).getD 0

theorem Meters.sizes (h : Meters n s t) : sizes t = sizes s := by
  funext index
  simp only [Context.sizes, h.objects, h.lengths]

theorem sizes_eq (hb : s.part.binding index = .ok b) :
    sizes s index = s.platform.registry.byteLength b.object.handle := by
  rw [sizes, getElem?_objects (binding_ok.mp hb)]
  rfl

end Context

namespace Machine

open Context

variable {m : Machine} {r : Run} {s t : Hosted Context} {n : Tally} {k index : Nat} {wait : List EventId}

theorem adds_count (hcounted : m.counted) {f : Counters → Counters} (hf : ∀ c, f c = c.plus n) :
    Adds n (m.count f) s := by
  intro _ t h
  rw [count, if_pos hcounted] at h
  cases h
  exact ⟨hf _, fun _ => rfl, rfl⟩

theorem adds_record (hcounted : m.counted) (event : Option EventId) :
    Adds { instructions := 1 } (m.record r k event) s :=
  (adds_count hcounted Counters.countInstruction_eq).then_silent fun _ _ => .pure _

theorem silent_checkLaunch (device : Nat) (task : Task) (event : EventId) :
    (checkLaunch device task event).Keeps Silent :=
  checkLaunch_keeps silent_lasting (silent_onDevice _ device) (silent_onDevice _ device) task

theorem adds_streamIn (hcounted : m.counted) (harrays : ∀ o ∈ s.part.objects, o.isScalar = false)
    (object offset length : Nat) :
    Adds { bytesIn := portion length (sizes s object) } (m.streamIn r object offset length wait) s := by
  refine .bind_lift fun tgt _ => .bind_get (.bind_lift fun b hb => ?_)
  have hsize : transferSize s.platform.registry b.object length = portion length (sizes s object) := by
    rw [sizes_eq hb]
    rfl
  have harray := harrays b.object (List.mem_map_of_mem (List.mem_of_getElem? (binding_ok.mp hb)))
  refine .bind_silent (silent_ensureBuffer _ _ _) fun buffer u _ => .bind_get (.bind_lift fun b' _ => ?_)
  dsimp only
  rw [hsize, if_neg (by simp [harray])]
  refine .bind_lift fun data _ => .bind_silent (silent_onPlatform _ _) fun event v _ =>
    .bind_silent (silent_modifyState _ _) fun _ w _ => ?_
  exact (adds_count hcounted (Counters.countIn_eq · _)).then_silent fun _ _ => .pure _

theorem adds_launch (hcounted : m.counted) (task device offset threads : Nat) :
    Adds { kernels := 1 } (m.launch task device offset threads wait) s := by
  have hR := silent_lasting
  refine .bind_silent (silent_kernel _ _) fun kernel u _ => .bind_get (.bind_lift fun place _ =>
    .bind_get (.bind_lift fun t _ => ?_))
  refine .bind_silent (.mapM hR (argumentBuffer_keeps hR (silent_ensureBuffer device) threads) _)
    fun ids v _ => .bind_get (.bind_lift fun geometry _ => ?_)
  refine .bind_silent (silent_onDevice _ _) fun event w _ => ?_
  refine (adds_count hcounted Counters.countLaunch_eq).then_silent fun _ x => ?_
  have hmark (y : Hosted Context) :
      Adds 0 (do modifyContext (·.markWritten t offset); return event : Context.On EventId) y :=
    .bind_silent (silent_modifyContext fun c => objects_markArguments c offset t.arguments) fun _ _ _ => .pure _
  dsimp only
  split
  case isTrue => exact .bind_silent (silent_checkLaunch _ _ _) fun _ _ _ => hmark _
  case isFalse => exact hmark _

theorem adds_streamOut (hcounted : m.counted) (object offset length : Nat) (blocking : Bool) :
    Adds { bytesOut := portion length (sizes s object) } (m.streamOut r object offset length wait blocking) s := by
  refine .bind_lift fun tgt _ => .bind_get (.bind_lift fun b hb => ?_)
  have hsize : transferSize s.platform.registry b.object length = portion length (sizes s object) := by
    rw [sizes_eq hb]
    rfl
  dsimp only
  split
  case h_2 => exact .throw _
  case h_1 =>
    split
    case isTrue => exact .throw _
    case isFalse =>
      refine .bind_silent (silent_readBack _ _ _ _ _ _ _) fun event u _ => ?_
      rw [hsize]
      refine (adds_count hcounted (Counters.countOut_eq · _)).then_silent fun _ v => ?_
      split
      case isFalse => exact .pure _
      case isTrue =>
        refine .bind_silent (.modify fun s => ?_) fun _ _ _ => .pure _
        exact silent_of_counters rfl (fun k => congrArg List.length (Registry.bytes_setOwner ..)) rfl

theorem adds_synchronize (hcounted : m.counted) (call : List EventId → Action Channel EventId) (list : Option Nat) :
    Adds { instructions := 1, barriers := 1 } (m.synchronize r index call list) s := by
  refine .bind_lift fun tgt _ => .bind_silent (silent_onPlatform _ _) fun event u _ => ?_
  exact .bind (adds_count hcounted Counters.countBarrier_eq)
    fun _ _ _ => adds_record hcounted _

-- What an instruction adds.
theorem adds_step (hcounted : m.counted) (harrays : ∀ o ∈ s.part.objects, o.isScalar = false) (i : Instruction) :
    Adds (i.tally (sizes s)) (m.step k i r) s := by
  cases i with
  | begin =>
    refine .bind_get ?_
    dsimp only
    split
    case isTrue => exact .throw _
    case isFalse => exact adds_record hcounted _
  | context device =>
    exact .bind_silent (silent_activate _) fun _ _ _ => .bind_get (.bind_lift fun _ _ => adds_record hcounted _)
  | streamIn object offset length list =>
    exact .bind (adds_streamIn hcounted harrays object offset length) fun _ _ _ => adds_record hcounted _
  | launch task device list offset threads =>
    exact .bind (adds_launch hcounted task device offset threads) fun _ _ _ => adds_record hcounted _
  | streamOut object offset length list =>
    exact .bind (adds_streamOut hcounted object offset length false) fun _ _ _ => adds_record hcounted _
  | streamOutBlocking object offset length list =>
    exact .bind (adds_streamOut hcounted object offset length true) fun _ _ _ => adds_record hcounted _
  | addDep list =>
    unfold step
    dsimp only
    split
    case isTrue => exact .pure _
    case isFalse => exact .throw _
  | barrier => exact adds_synchronize hcounted _ _
  | marker => exact adds_synchronize hcounted _ _
  | finish => exact adds_record hcounted _

-- What instructions add that are issued one after the other.
theorem Reaches.meters {is : List Instruction} {r' : Run} (h : Reaches m k is r s r' t) (hcounted : m.counted)
    (harrays : ∀ o ∈ s.part.objects, o.isScalar = false) :
    Meters (is.map (Instruction.tally (sizes s))).sum s t := by
  induction h with
  | done => exact silent_lasting.refl _
  | @step k i is r r' r'' s s' s'' hstep hrest ih =>
    have hfirst := adds_step hcounted harrays i r' s' hstep
    -- no instruction changes the sizes that the later ones are told from
    have hlater := ih (hfirst.objects ▸ harrays)
    rw [hfirst.sizes] at hlater
    rw [List.map_cons, List.sum_cons]
    exact hfirst.trans hlater

-- What an execution adds that comes to its end.
theorem execute_meters (hcounted : m.counted) (harrays : ∀ o ∈ s.part.objects, o.isScalar = false) {e : Execution}
    (h : m.execute s = (.ok e, t)) :
    Meters ((m.instructions.map (Instruction.tally (sizes s))).sum + { executions := 1 }) s t := by
  have hadds : Adds ((m.instructions.map (Instruction.tally (sizes s))).sum + { executions := 1 }) m.execute s := by
    refine .bind (fun r' u hsteps => (steps_ok.mp hsteps).meters hcounted harrays) fun r' u _ => .bind_lift fun _ _ => ?_
    exact (adds_count hcounted Counters.countExecution_eq).then_silent fun _ _ => .pure _
  exact hadds e t h

end Machine
end Offload
