import Offload.Kernel.Named
import Offload.Proofs.Custody
import Offload.Proofs.Shape

/-!
Yards: contexts side by side on one platform, asked from outside to run any programs that a machine takes.
In whatever order they are asked, no call on a device names a buffer that is not there.
-/

namespace Offload

-- What is asked of a context. A program may be any that a machine takes, compiled or put together by hand.
inductive Errand
  | bind (object : HostObject)
  | addTask (task : Task)
  | execute (program : Program) (config : Config)
  | sync (objects : List HostObject)
  | invalidate

-- The launches of a program are for the device of its latest CONTEXT.
def Errand.Grounded : Errand → Prop
  | .execute program _ =>
    match program.decode with
    | .ok instructions => Offload.Grounded none instructions
    | .error _ => True
  | _ => True

instance : DecidablePred Errand.Grounded := fun errand =>
  match errand with
  | .execute program _ =>
    match h : program.decode with
    | .ok instructions => decidable_of_iff (Offload.Grounded none instructions) (by simp [Errand.Grounded, h])
    | .error _ => isTrue (by simp [Errand.Grounded, h])
  | .bind _ | .addTask _ | .sync _ | .invalidate => isTrue trivial

def Errand.Steady : Errand → Prop
  | .addTask task => task.Steady
  | _ => True

instance : DecidablePred Errand.Steady := fun errand =>
  match errand with
  | .addTask task => inferInstanceAs (Decidable task.Steady)
  | .bind _ | .execute .. | .sync _ | .invalidate => isTrue trivial

def Context.perform : Errand → On Unit
  | .bind object => modifyContext fun c => (c.bind object).2
  | .addTask task => modifyContext fun c => (c.addTask task).2
  | .execute program config => do
    let m ← Machine.create program config
    discard m.execute
  | .sync objects => sync objects
  | .invalidate => invalidate

structure Yard where
  platform : Platform
  contexts : List Context := []

namespace Yard

inductive Move
  | enter (name : String) (places : List Nat)
  | act (context : Nat) (errand : Errand)
  | leave (context : Nat)

-- Whoever leaves gives back all buffers first.
def step (y : Yard) : Move → Yard
  | .enter name devices =>
    if ∀ place ∈ devices, place < y.platform.channels.length then
      { y with contexts := y.contexts ++ [{ name, devices }] }
    else y
  | .act k errand =>
    match y.contexts[k]? with
    | none => y
    | some c =>
      let s := (Context.perform errand ⟨y.platform, c⟩).2
      { platform := s.platform, contexts := y.contexts.set k s.part }
  | .leave k =>
    match y.contexts[k]? with
    | none => y
    | some c =>
      let s := (Context.perform .invalidate ⟨y.platform, c⟩).2
      { platform := s.platform, contexts := y.contexts.eraseIdx k }

def run (y : Yard) (moves : List Move) : Yard :=
  moves.foldl step y

def Move.Meets (Q : Errand → Prop) : Move → Prop
  | .act _ errand => Q errand
  | _ => True

instance {Q : Errand → Prop} [DecidablePred Q] : DecidablePred (Move.Meets Q) := fun move =>
  match move with
  | .act _ errand => inferInstanceAs (Decidable (Q errand))
  | .enter .. | .leave _ => isTrue trivial

-- Nobody was here yet.
structure Fresh (y : Yard) : Prop where
  contexts : y.contexts = []
  unused   : ∀ channel ∈ y.platform.channels, channel.device.memory.buffers = [] ∧
    channel.device.memory.allocated = 0 ∧ channel.journal = []

end Yard

namespace Context

variable {P : Prop} {rest : Nat → List (BufferId × Nat)} {s t : Hosted Context} {c : Context}

-- The books are kept, and with `P` the journals too.
structure Keeper (P : Prop) (rest : Nat → List (BufferId × Nat)) (s : Hosted Context) : Prop where
  books  : Books rest s
  steady : P → ∀ task ∈ s.part.tasks, task.Steady
  kept   : P → ∀ place, (s.platform.channel place).Kept

-- What others rely on as well.
def Holds (P : Prop) (rest : Nat → List (BufferId × Nat)) (s t : Hosted Context) : Prop :=
  Keeper P rest t ∧ t.platform.channels.length = s.platform.channels.length

theorem Keeper.holds (h : Keeper P rest s) : Holds P rest s s :=
  ⟨h, rfl⟩

theorem Keeper.deals {A : Hosted Context → Deal → Prop} (h : Keeper P rest s) (hdeals : Deals A s t) :
    Holds P rest s t :=
  have hsustains := hdeals.sustains h.books
  ⟨⟨hsustains.books, hsustains.stable.tasks ▸ h.steady,
    fun hP => hdeals.kept h.books (h.steady hP) (h.kept hP)⟩, hsustains.stable.channels⟩

theorem Keeper.grown (h : Keeper P rest s) (hc : Grown s.part c)
    (hsteady : P → ∀ task ∈ c.tasks, task.Steady) : Holds P rest s { s with part := c } :=
  ⟨⟨hc.books h.books, hsteady, h.kept⟩, rfl⟩

theorem perform_holds (h : Keeper P rest s) {errand : Errand} (hgrounded : errand.Grounded)
    (hsteady : P → errand.Steady) : (perform errand).Ends s fun _ t => Holds P rest s t := by
  cases errand with
  | bind o => exact h.grown (s.part.grown_bind o) ((Bound.bindOne s.part o).tasks ▸ h.steady)
  | addTask task =>
    refine h.grown (s.part.grown_addTask task) fun hP task' htask' => ?_
    rcases List.mem_append.mp htask' with hold | hnew
    case inl => exact h.steady hP task' ((Bound.bindEach s.part _).tasks ▸ hold)
    case inr => exact List.mem_singleton.mp hnew ▸ hsteady hP
  | execute program config =>
    refine Action.Ends.bind_lift (fun m hm => ?_) fun _ _ => h.holds
    have hground : Grounded none m.instructions := by
      have hdecode : program.decode = .ok m.instructions := (Compile.create_ok hm).2.2
      rwa [Errand.Grounded, hdecode] at hgrounded
    have hdeals := Machine.execute_deals (A := fun _ _ => True) h.books hground
      (fun _ _ _ _ _ _ _ => trivial) fun _ => trivial
    exact hdeals.bind (fun _ _ ht => h.deals ht) fun _ _ ht => h.deals ht
  | sync objects => exact (sync_deals h.books objects).mono fun _ _ ht => h.deals ht
  | invalidate => exact h.deals (A := fun _ _ => True) (Deals.of_does .clear trivial)

end Context

namespace Yard

open Context

variable {P : Prop} {p p' : Platform} {c c' : Context} {cs cs' : List Context} {y : Yard}

-- The buffers of all contexts on a device.
def heldBy (cs : List Context) (place : Nat) : List (BufferId × Nat) :=
  cs.flatMap (·.heldAt place)

-- To each of the contexts, the others are all there is besides.
structure Sound (P : Prop) (p : Platform) (cs : List Context) : Prop where
  orderly  : ∀ place, (p.channel place).device.memory.Orderly
  balanced : ∀ place, (p.channel place).device.memory.live.Perm (heldBy cs place)
  attached : ∀ c ∈ cs, ∀ place ∈ c.devices, place < p.channels.length
  housed   : ∀ c ∈ cs, c.activePlace? = none → c.held = []
  tidy     : ∀ c ∈ cs, ∀ b ∈ c.bindings, b.state.Tidy
  steady   : P → ∀ c ∈ cs, ∀ task ∈ c.tasks, task.Steady
  kept     : P → ∀ place, (p.channel place).Kept

theorem Sound.perm (hperm : cs.Perm cs') (h : Sound P p cs) : Sound P p cs' where
  orderly := h.orderly
  balanced place := (h.balanced place).trans (hperm.flatMap_right _)
  attached c hc := h.attached c (hperm.mem_iff.mpr hc)
  housed c hc := h.housed c (hperm.mem_iff.mpr hc)
  tidy c hc := h.tidy c (hperm.mem_iff.mpr hc)
  steady hP c hc := h.steady hP c (hperm.mem_iff.mpr hc)
  kept := h.kept

theorem Sound.keeper (h : Sound P p (c :: cs)) : Keeper P (heldBy cs) ⟨p, c⟩ where
  books := ⟨h.attached c List.mem_cons_self, h.orderly, h.balanced, h.housed c List.mem_cons_self,
    h.tidy c List.mem_cons_self⟩
  steady hP := h.steady hP c List.mem_cons_self
  kept := h.kept

theorem Sound.holds (h : Sound P p (c :: cs)) (hholds : Holds P (heldBy cs) ⟨p, c⟩ ⟨p', c'⟩) :
    Sound P p' (c' :: cs) := by
  obtain ⟨⟨hbooks, hsteady, hkept⟩, hchannels⟩ := hholds
  have hchannels : p'.channels.length = p.channels.length := hchannels
  refine ⟨hbooks.orderly, hbooks.balanced, ?_, ?_, ?_, fun hP => ?_, hkept⟩ <;> rw [List.forall_mem_cons]
  case refine_1 =>
    exact ⟨hbooks.attached, fun x hx => hchannels ▸ h.attached x (List.mem_cons_of_mem c hx)⟩
  case refine_2 => exact ⟨hbooks.housed, fun x hx => h.housed x (List.mem_cons_of_mem c hx)⟩
  case refine_3 => exact ⟨hbooks.tidy, fun x hx => h.tidy x (List.mem_cons_of_mem c hx)⟩
  case refine_4 => exact ⟨hsteady hP, fun x hx => h.steady hP x (List.mem_cons_of_mem c hx)⟩

theorem Sound.of_held (h : Sound P p (c :: cs)) (hheld : c.held = []) : Sound P p cs where
  orderly := h.orderly
  balanced place := by
    have hbalanced := h.balanced place
    rwa [heldBy, List.flatMap_cons, heldAt_of_held hheld] at hbalanced
  attached x hx := h.attached x (List.mem_cons_of_mem c hx)
  housed x hx := h.housed x (List.mem_cons_of_mem c hx)
  tidy x hx := h.tidy x (List.mem_cons_of_mem c hx)
  steady hP x hx := h.steady hP x (List.mem_cons_of_mem c hx)
  kept := h.kept

theorem step_sound (hsound : Sound P y.platform y.contexts) {move : Move}
    (hgrounded : move.Meets Errand.Grounded) (hsteady : P → move.Meets Errand.Steady) :
    Sound P (y.step move).platform (y.step move).contexts := by
  cases move with
  | enter name devices =>
    simp only [step]
    split
    case isFalse => exact hsound
    case isTrue hplaces =>
      refine Sound.perm (List.perm_append_singleton _ _).symm ?_
      refine ⟨hsound.orderly, hsound.balanced, ?_, ?_, ?_, fun hP => ?_, hsound.kept⟩ <;>
        rw [List.forall_mem_cons]
      case refine_1 => exact ⟨hplaces, hsound.attached⟩
      case refine_2 => exact ⟨fun _ => rfl, hsound.housed⟩
      case refine_3 => exact ⟨nofun, hsound.tidy⟩
      case refine_4 => exact ⟨nofun, hsound.steady hP⟩
  | act k errand =>
    simp only [step]
    split
    case h_1 => exact hsound
    case h_2 c hc =>
      have hfirst := hsound.perm (perm_cons_eraseIdx hc)
      have hnext := hfirst.holds (perform_holds hfirst.keeper hgrounded hsteady)
      exact hnext.perm (set_perm_cons hc _).symm
  | leave k =>
    simp only [step]
    split
    case h_1 => exact hsound
    case h_2 c hc =>
      have hfirst := hsound.perm (perm_cons_eraseIdx hc)
      have hinvalidate : (perform .invalidate).Ends ⟨y.platform, c⟩ fun _ t =>
          Holds P (heldBy (y.contexts.eraseIdx k)) ⟨y.platform, c⟩ t :=
        perform_holds hfirst.keeper trivial fun _ => trivial
      exact (hfirst.holds hinvalidate).of_held (held_detachAll c)

theorem run_sound (hsound : Sound P y.platform y.contexts) {moves : List Move}
    (hgrounded : ∀ move ∈ moves, move.Meets Errand.Grounded)
    (hsteady : P → ∀ move ∈ moves, move.Meets Errand.Steady) :
    Sound P (y.run moves).platform (y.run moves).contexts := by
  unfold run
  induction moves generalizing y with
  | nil => exact hsound
  | cons move moves ih =>
    obtain ⟨hmove, hmoves⟩ := List.forall_mem_cons.mp hgrounded
    exact ih (step_sound hsound hmove fun hP => hsteady hP _ List.mem_cons_self) hmoves fun hP x hx =>
      hsteady hP x (List.mem_cons_of_mem move hx)

theorem Fresh.sound (hfresh : y.Fresh) : Sound P y.platform y.contexts := by
  rw [hfresh.contexts]
  have hunused := Platform.forall_channel (Q := fun c => c.device.memory.buffers = [] ∧
    c.device.memory.allocated = 0 ∧ c.journal = []) ⟨rfl, rfl, rfl⟩ hfresh.unused
  refine ⟨fun place => ?_, fun place => ?_, nofun, nofun, nofun, fun _ => nofun, fun _ place => ?_⟩
  case refine_1 => exact Memory.orderly_of_nil (hunused place).1 (hunused place).2.1
  case refine_2 =>
    rw [Memory.live, (hunused place).1]
    exact List.Perm.nil
  case refine_3 => exact Channel.kept_of_empty (hunused place).1 (hunused place).2.2

-- Every buffer that a call names was allocated on the same device before, and not released since.
theorem run_backed (hfresh : y.Fresh) {moves : List Move}
    (hgrounded : ∀ move ∈ moves, move.Meets Errand.Grounded)
    (hsteady : ∀ move ∈ moves, move.Meets Errand.Steady) {place : Nat} {before after : List Call} {call : Call}
    (hjournal : ((y.run moves).platform.channel place).journal = before ++ call :: after) :
    call.Backed before :=
  ((run_sound (P := True) hfresh.sound hgrounded fun _ => hsteady).kept trivial place).backed before call
    after hjournal

-- Two devices that can count up, and an object of two bytes.
def dock : Yard where
  platform :=
    let device : Device := {
      limits := { computeUnits := 1 }
      threadName := "queue"
      kernels := [("increment", Kernel.increment)] }
    { registry := (({} : Registry).register (.array .byte) [1, 2]).2
      channels := [{ device }, { device }] }

def cargo : HostObject :=
  ⟨⟨1⟩, .array .byte⟩

-- One byte of the object is brought in, and then two are counted up, so that its buffer is replaced.
def hauling (device target : Nat) : Program where
  code := [.begin 3 1 0, .context device, .streamIn 0 0 1 none, .launch 0 target none 0 2,
    .streamOut 0 0 0 none, .finish].flatMap Instruction.encoding
  lists := []

def counting (accesses : List Access) : Task where
  id := "count"
  kernel := "increment"
  domain := [2]
  arguments := accesses.map (⟨cargo, ·⟩)

def shift (accesses : List Access) (programs : List Program) : List Move :=
  [.enter "crew" [0, 1], .act 0 (.addTask (counting accesses))] ++
    programs.map (fun program => .act 0 (.execute program {})) ++ [.act 0 (.sync [cargo]), .leave 0]

theorem dock_backed : dock.Fresh ∧
    (∀ move ∈ shift [.readWrite] [hauling 0 0, hauling 1 1],
      move.Meets Errand.Grounded ∧ move.Meets Errand.Steady) ∧
      ((dock.run (shift [.readWrite] [hauling 0 0, hauling 1 1])).platform.channel 1).journal.flatMap
          Call.named = [⟨1⟩, ⟨1⟩, ⟨2⟩, ⟨2⟩, ⟨2⟩, ⟨2⟩] ∧
        ∀ before call after,
          ((dock.run (shift [.readWrite] [hauling 0 0, hauling 1 1])).platform.channel 1).journal =
            before ++ call :: after → call.Backed before := by
  have hfresh : dock.Fresh := ⟨rfl, by simp [dock]⟩
  have hmoves : ∀ move ∈ shift [.readWrite] [hauling 0 0, hauling 1 1],
      move.Meets Errand.Grounded ∧ move.Meets Errand.Steady := by decide +kernel
  exact ⟨hfresh, hmoves, by decide +kernel, fun _ _ _ hjournal =>
    run_backed hfresh (fun move h => (hmoves move h).1) (fun move h => (hmoves move h).2) hjournal⟩

-- A task that reads the object before it writes it launches with the buffer that made room for the other. A
-- launch on a device apart from CONTEXT's takes a buffer there that is another device's.
theorem dock_unbacked : dock.Fresh ∧
    (∃ m, Machine.create (hauling 0 0) {} = .ok m) ∧ (∃ m, Machine.create (hauling 0 1) {} = .ok m) ∧
      (∃ before call after,
        ((dock.run (shift [.read, .write] [hauling 0 0])).platform.channel 0).journal =
          before ++ call :: after ∧ ⟨1⟩ ∈ call.named ∧ ⟨1⟩ ∈ before.filterMap Call.released? ∧
            ¬call.Backed before) ∧
      ∃ before call after, ((dock.run (shift [.read] [hauling 0 1])).platform.channel 1).journal =
        before ++ call :: after ∧ ⟨1⟩ ∈ call.named ∧ before.filterMap Call.made? = [] ∧
          ¬call.Backed before := by
  have haccepted (program : Program) (h : (Machine.create program {}).toOption.isSome) :
      ∃ m, Machine.create program {} = .ok m := by
    cases hcreate : Machine.create program {} with
    | error => rw [hcreate] at h; cases h
    | ok m => exact ⟨m, rfl⟩
  have hsplit (journal : List Call) (k : Nat) {ids : List BufferId}
      (h : (journal[k]?.map Call.named) = some ids) :
      ∃ call, journal = journal.take k ++ call :: journal.drop (k + 1) ∧ call.named = ids := by
    obtain ⟨call, hcall, hids⟩ := Option.map_eq_some_iff.mp h
    obtain ⟨hlt, rfl⟩ := List.getElem?_eq_some_iff.mp hcall
    exact ⟨_, by rw [← List.drop_eq_getElem_cons hlt, List.take_append_drop], hids⟩
  refine ⟨⟨rfl, by simp [dock]⟩, haccepted _ (by decide +kernel), haccepted _ (by decide +kernel), ?_, ?_⟩
  case refine_1 =>
    have hcall : (((dock.run (shift [.read, .write] [hauling 0 0])).platform.channel 0).journal[5]?.map
        Call.named) = some [⟨1⟩, ⟨2⟩] := by decide +kernel
    obtain ⟨call, hjournal, hids⟩ := hsplit _ 5 hcall
    have hreleased : (⟨1⟩ : BufferId) ∈ (((dock.run (shift [.read, .write] [hauling 0 0])).platform.channel
        0).journal.take 5).filterMap Call.released? := by decide +kernel
    have hnamed : (⟨1⟩ : BufferId) ∈ call.named := by simp [hids]
    exact ⟨_, call, _, hjournal, hnamed, hreleased, fun hbacked => (hbacked _ hnamed).2 hreleased⟩
  case refine_2 =>
    have hcall : (((dock.run (shift [.read] [hauling 0 1])).platform.channel 1).journal[1]?.map
        Call.named) = some [⟨1⟩] := by decide +kernel
    obtain ⟨call, hjournal, hids⟩ := hsplit _ 1 hcall
    have hmade : (((dock.run (shift [.read] [hauling 0 1])).platform.channel 1).journal.take 1).filterMap
        Call.made? = [] := by decide +kernel
    have hnamed : (⟨1⟩ : BufferId) ∈ call.named := by simp [hids]
    refine ⟨_, call, _, hjournal, hnamed, hmade, fun hbacked => ?_⟩
    have hnone := (hbacked _ hnamed).1
    rw [hmade] at hnone
    cases hnone

end Yard
end Offload
