import Offload.Proofs.Confined
import Offload.Proofs.Prepare

/-!
Executions in a context that was in use before. Once CONTEXT has turned to the device, the books of the context agree
with it, and so the execution amounts to the steps on the windows of the passes, from whatever copies there are.
-/

namespace Offload

open Compile (Made Laid sites)

-- A context and its device as they are while programs run.
def Hosted.bench (s : Hosted Context) (index place : Nat) (hdistinct : s.part.Distinct) : Bench where
  place
  index
  kernels := (s.device place).kernels
  limits := (s.device place).limits
  objects := s.part.objects
  tasks := s.part.tasks
  distinct := hdistinct

namespace Context

variable {rest : Nat → List (BufferId × Nat)} {s : Hosted Context} {index place : Nat}

-- A context that is on its device agrees with it, and so does what it has found out there.
theorem Books.intact (hbooks : Books rest s) (hlearned : Learned s) (hdistinct : s.part.Distinct)
    (hactive : s.part.active = some index) (hdevice : s.part.devices[index]? = some place) :
    Intact (s.bench index place hdistinct) s where
  devices := hdevice
  attached := hbooks.attached place (List.mem_of_getElem? hdevice)
  kernels := rfl
  limits := rfl
  objects := rfl
  tasks := rfl
  active device h := (Option.some.inj (hactive.symm.trans h)).symm
  found {task kernel} h := by
    have h : s.part.kernels.lookup (index, task) = some kernel := h
    obtain ⟨known, later, hkernels, -⟩ := List.lookup_eq_some_iff.mp h
    obtain ⟨place', t, hplace', ht, hlookup⟩ := hlearned ((index, task), kernel) (by simp [hkernels])
    cases hdevice.symm.trans hplace'
    exact ⟨t, ht, hlookup⟩
  sound := (hbooks.orderly place).sound
  sized {h st id} hst hid := by
    obtain ⟨other, b, hb, rfl, rfl⟩ := exists_binding hst
    exact (hbooks.orderly place).contents?_of_mem
      (hbooks.mem_live (activePlace?_eq hactive hdevice) (List.mem_of_getElem? hb) hid)
  apart := hbooks.apart

end Context

namespace Machine

open Context

variable {rest : Nat → List (BufferId × Nat)} {s t : Hosted Context} {m : Machine} {steps : List Step} {g : Graph}
  {l : Compile.Layout} {passes : List Pass} {q : Registry} {place : Nat}

namespace Regular

-- The nodes stand for steps that the device can be asked to take, if there are no scalars among the objects.
theorem hosts (h : m.Regular q steps g l passes s) (hscalars : ∀ o ∈ s.part.objects, o.isScalar = false) :
    (s.bench l.device place h.distinct).Hosts g l passes m where
  device := rfl
  steps := (Wiring.steps_of_nodes h.follows rfl rfl).1
  tasks t ht := ⟨h.binds t ht, (h.steps _ (h.tasks t ht)).apart t rfl⟩
  scalars _ _ o ho hscalar := by
    rw [hscalars o ho] at hscalar
    cases hscalar

end Regular

-- How an execution that was not refused and of which nothing failed came about: by the steps on the windows.
structure Walked (m : Machine) (passes : List Pass) (steps : List Step) (b : Bench) (s t : Hosted Context) : Prop where
  intact  : Intact b t
  windows : ∃ w : World, (∀ h, (w.host h).length = s.platform.registry.byteLength h) ∧
    w.windows (b.setup m.config.tuning) (Pass.work passes steps) = (.ok ⟨⟩, t.world b.place)

namespace Regular

theorem execute_walks (h : m.Regular q steps g l passes s) (hbooks : Books rest s) (htrust : Trusted s)
    (hlearned : Learned s) (hsuits : m.Suits s.platform.registry s.part)
    (hscalars : ∀ o ∈ s.part.objects, o.isScalar = false) :
    ∃ b : Bench, s.part.devices[b.index]? = some b.place ∧ b.kernels = (s.device b.place).kernels ∧
      m.execute.Ends s fun result t => ∀ e, result = .ok e →
        e.target = { index := b.index, place := b.place } ∧ b.place < t.platform.channels.length ∧
          ((∀ x ∈ e.events, ∀ fault, (t.queue b.place).status? x.2 ≠ some (.failed fault)) →
            m.Walked passes steps b s t) := by
  obtain ⟨batch, place, d, hmade⟩ := h.made
  obtain ⟨nodes, blocks, his, hlaid⟩ := hmade.instructions
  obtain ⟨_, _, _, _, is, his', hall⟩ := hsuits
  cases his.symm.trans his'
  obtain ⟨r, t, hreach, hopens, -⟩ := exists_opens (m := m) nodes l.lists.lists.length
    hbooks htrust hmade.place (Nat.le_refl _) hall
  have hstable := hopens.sustains.stable
  have ht := h.of_stable hstable
  obtain ⟨hactive, hdevice⟩ := hopens.fit.placed _ hopens.target
  have hintact := hopens.sustains.books.intact (hopens.schooled.learned hlearned) ht.distinct hactive hdevice
  have hplace := place_ok.mp hmade.place
  have hattached := hbooks.attached place (List.mem_of_getElem? hplace)
  have hsame : (t.device place).make = (s.device place).make := hopens.schooled.same place
  have hhosts : (t.bench l.device place ht.distinct).Hosts g l passes m :=
    ht.hosts fun o ho => hscalars o (hstable.objects ▸ ho)
  have hperforms := performs_of_header hmade hhosts his hlaid hmade.place hattached hreach hintact
  rw [Bench.work_eq, World.windows_of_alike
    (Pass.work_alike (Wiring.steps_of_nodes ht.follows rfl rfl).2 passes)] at hperforms
  refine ⟨t.bench l.device place ht.distinct, hplace, congrArg Make.kernels hsame,
    hperforms.mono fun result v hv e he => ?_⟩
  subst he
  have hperformed := hv (granted_ok e)
  unfold Performed at hperformed
  split at hperformed
  case h_1 w hwindows =>
    obtain ⟨hintact', hworld, _, he, htarget, _⟩ := hperformed
    cases he
    refine ⟨htarget, hintact'.attached, fun _ => ⟨hintact', t.world place, hstable.lengths, ?_⟩⟩
    rw [hworld]
    exact hwindows
  case h_2 =>
    obtain ⟨_, _, _, he, _⟩ := hperformed
    cases he
  case h_3 =>
    obtain ⟨htarget, x, hx, fault, hfault⟩ := hperformed e rfl
    exact ⟨htarget, Schedule.attached_of_status? hfault, fun hnone => absurd hfault (hnone x hx fault)⟩

end Regular

end Machine
end Offload
