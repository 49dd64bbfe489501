import Offload.Kernel.Stock
import Offload.Proofs.Prepare

/-!
A compiled schedule may be executed again and again, while the host changes its objects in between. All
of it comes out as if the steps were taken directly, in the order in which they were declared.
-/

namespace Offload

-- What is done with a compiled schedule.
inductive Deed
  | copyFrom (o : HostObject) (t : Numeric) (data : Bytes)
  | run

-- The outcomes of the runs, and what there is in the end, if the steps are taken directly.
def World.replay (u : Setup) (steps : List Step) :
    List Deed → World → List (Except Stop Unit) × World
  | [], w => ([], w)
  | .copyFrom o t data :: deeds, w => replay u steps deeds (w.copyFrom o t data)
  | .run :: deeds, w =>
    let (outcome, w) := w.run u steps
    let (outcomes, w) := replay u steps deeds w
    (outcome :: outcomes, w)

namespace Schedule

def copyFrom (o : HostObject) (t : Numeric) (data : Bytes) : On Unit := do
  let s ← get
  let registry ← s.platform.registry.replace o t data
  set { s with platform := { s.platform with registry } }

def replay : List Deed → Hosted Schedule → List (Except Error Unit) × Hosted Schedule
  | [], s => ([], s)
  | .copyFrom o t data :: deeds, s => replay deeds (copyFrom o t data s).2
  | .run :: deeds, s =>
    let (outcome, s) := run s
    let (outcomes, s) := replay deeds s
    (outcome :: outcomes, s)

end Schedule

-- Both end well, or both stop for want of the same data.
def Stop.Agrees : Except Error Unit → Except Stop Unit → Prop
  | .ok _, .ok _ => True
  | .error e, .error (.nothingToRead h) => e.root = .config (.nothingToRead h)
  | _, _ => False

namespace Schedule

open Context (Granted granted_ok)

variable {b : Bench} {m : Machine} {s t : Hosted Schedule} {w : World} {u : Setup} {steps : List Step}

theorem copyFrom_stands (h : Stands b m w s) (o : HostObject) (t : Numeric) (data : Bytes) :
    Stands b m (w.copyFrom o t data) (copyFrom o t data s).2 := by
  have hhost : (w.host o.handle).length = s.platform.registry.byteLength o.handle := by
    rw [← h.world]
    rfl
  unfold World.copyFrom
  unfold copyFrom
  rw [Action.bind_of_ok (Action.get_apply s)]
  cases hcheck : Registry.checkElement o t with
  | error e =>
    have hreplace : s.platform.registry.replace o t data = .error e := by
      simp only [Registry.replace, hcheck]
      rfl
    rw [hreplace]
    exact h
  | ok =>
    by_cases hlength : data.length = (w.host o.handle).length
    case neg =>
      have hreplace : s.platform.registry.replace o t data = .error (.config
          (.wrongLength o.handle (s.platform.registry.byteLength o.handle) data.length)) := by
        simp only [Registry.replace, hcheck, ← hhost, if_neg hlength]
        rfl
      simp only [if_neg hlength, hreplace]
      exact h
    case pos =>
      have hreplace : s.platform.registry.replace o t data =
          .ok (s.platform.registry.modifyEntry o.handle fun e => { e with bytes := data }) := by
        simp only [Registry.replace, hcheck, ← hhost, if_pos hlength]
        rfl
      simp only [if_pos hlength, hreplace]
      refine ⟨h.machine, h.intact.registry _, ?_⟩
      rw [← h.world]
      refine World.ext ?_ rfl
      refine Registry.bytes_modifyEntry_eq (g := fun _ => data) (fun _ => rfl) fun hnone => ?_
      refine List.eq_nil_of_length_eq_zero ?_
      rw [hlength, hhost, Registry.byteLength, hnone]
      rfl

-- A run amounts to taking the steps, and leaves the copies whole for the next one.
theorem run_agrees (hm : m.Carries b u [.whole] steps) (h : Stands b m w s) (hwhole : w.Whole)
    (hfail : (w.run u steps).1 ≠ .error .failed) :
    run.Ends s fun result t => Granted result →
      Stop.Agrees result (w.run u steps).1 ∧ Stands b m (w.run u steps).2 t := by
  have hwork : Pass.work [.whole] steps = steps.map (Pass.whole, ·) := List.append_nil _
  refine (run_ends hm h.machine h.intact).mono fun result t hran hgranted => ?_
  have hran := hran hgranted
  rw [h.world, hwork, (World.windows_whole hwhole u steps).1] at hran
  generalize w.run u steps = outcome at hfail hran ⊢
  match outcome, hran with
  | (.error .failed, _), _ => exact absurd rfl hfail
  | (.ok _, _), ⟨hstands, hok⟩ =>
    rw [hok]
    exact ⟨trivial, hstands⟩
  | (.error (.nothingToRead _), _), ⟨hstands, e, he, hroot⟩ =>
    rw [he]
    exact ⟨hroot, hstands⟩

theorem replay_stands (hm : m.Carries b u [.whole] steps) (h : Stands b m w s) (hwhole : w.Whole)
    {deeds : List Deed} (hfail : ∀ outcome ∈ (World.replay u steps deeds w).1, outcome ≠ .error .failed)
    (hgranted : ∀ result ∈ (replay deeds s).1, Granted result) :
    List.Forall₂ Stop.Agrees (replay deeds s).1 (World.replay u steps deeds w).1 ∧
      Stands b m (World.replay u steps deeds w).2 (replay deeds s).2 := by
  induction deeds generalizing s w with
  | nil => exact ⟨.nil, h⟩
  | cons deed deeds ih =>
    cases deed with
    | copyFrom o t data => exact ih (copyFrom_stands h o t data) (hwhole.copyFrom o t data) hfail hgranted
    | run =>
      have ⟨hfirst, hrest⟩ := List.forall_mem_cons.mp hfail
      have ⟨hgranted, hgrantedrest⟩ := List.forall_mem_cons.mp hgranted
      have ⟨hagrees, hstands⟩ := run_agrees hm h hwhole hfirst hgranted
      have ⟨hall, hend⟩ := ih hstands (World.windows_whole hwhole u steps).2 hrest hgrantedrest
      exact ⟨.cons hagrees hall, hend⟩

-- Two bytes that are counted up on the device, and filled anew by the host between two runs.
def tally : HostObject :=
  ⟨⟨1⟩, .array .byte⟩

def tallyTask : Task where
  id := "count"
  kernel := "increment"
  domain := [2]
  arguments := [⟨tally, .readWrite⟩]

def tallySteps : List Step :=
  [.streamIn tally, .task tallyTask, .task tallyTask, .streamOut tally]

def tallyPlatform : Platform where
  registry := (({} : Registry).register (.array .byte) [1, 2]).2
  channels := [{ device := {
    limits := { computeUnits := 1 }
    threadName := "queue"
    kernels := [("increment", Kernel.increment)] } }]

def tallyDeeds : List Deed :=
  [.run, .copyFrom tally .u8 [7, 9], .run]

end Schedule
end Offload
