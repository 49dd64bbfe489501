import Offload.Kernel.Stock
import Offload.Proofs.Columns
import Offload.Proofs.Prepare

/-!
Work in batches: the passes that objects are cut into cover each element once, so that arrays on which
all kernels work column by column come out the same, whether they are cut or not.
-/

namespace Offload

namespace Pass

-- The passes cover `count` elements from the first one on, one window after the other.
inductive Tiles (size total : Nat) : Nat → List Pass → Nat → Prop
  | nil (first : Nat) : Tiles size total first [] 0
  | cons {first count rest : Nat} {p : Pass} {passes : List Pass} (hp : p.Covers size total first count)
    (hrest : Tiles size total (first + count) passes rest) :
    Tiles size total first (p :: passes) (count + rest)

variable {size total first count count' : Nat} {p : Pass} {passes passes' : List Pass} {e : Element}

namespace Tiles

theorem append (h : Tiles size total first passes count)
    (h' : Tiles size total (first + count) passes' count') :
    Tiles size total first (passes ++ passes') (count + count') := by
  induction h with
  | nil first => rwa [Nat.zero_add]
  | @cons first count rest p passes hp hrest ih =>
    rw [← Nat.add_assoc] at h'
    rw [Nat.add_assoc]
    exact .cons hp (ih h')

theorem single (hp : p.Covers size total first count) : Tiles size total first [p] count :=
  .cons hp (.nil _)

theorem whole (hsize : size ∣ total) : Tiles size total 0 [.whole] (total / size) := by
  have htotal := Nat.div_mul_cancel hsize
  exact .single ⟨(Nat.zero_mul size).symm, htotal.symm, htotal.symm, by rw [Nat.zero_add, htotal]⟩

end Tiles

theorem covers_window {n : Nat} (hfits : first + count ≤ n) (hcount : 0 < count) :
    (window e (first * e.size) (count * e.size)).Covers e.size (n * e.size) first count where
  offset := rfl
  length := if_pos (Nat.mul_pos hcount e.size_pos)
  threads := by
    have hthreads : (window e (first * e.size) (count * e.size)).threads = count :=
      Nat.mul_div_cancel count e.size_pos
    rw [hthreads, if_pos hcount]
  within := Nat.mul_le_mul_right e.size hfits

-- Full batches, one after the other.
theorem tiles_full {n batch chunks : Nat} (hbatch : 0 < batch) (hfits : chunks * batch ≤ n) :
    Tiles e.size (n * e.size) 0
      ((List.range chunks).map fun i => window e (i * (batch * e.size)) (batch * e.size))
      (chunks * batch) := by
  induction chunks with
  | zero =>
    rw [Nat.zero_mul]
    exact .nil 0
  | succ chunks ih =>
    rw [Nat.succ_mul] at hfits ⊢
    rw [List.range_succ, List.map_append, List.map_singleton]
    refine (ih (by omega)).append (.single ?_)
    rw [Nat.zero_add, ← Nat.mul_assoc]
    exact covers_window hfits hbatch

theorem tiles_cut {batch : Nat} (hbatch : 0 < batch) (htotal : e.size ∣ total) (hsize : e.size ∣ batch) :
    Tiles e.size total 0 (cut ⟨e, total⟩ batch) (total / e.size) := by
  obtain ⟨n, rfl⟩ := htotal
  obtain ⟨b, rfl⟩ := hsize
  rw [Nat.mul_comm e.size n, Nat.mul_comm e.size b] at *
  have hb : 0 < b := Nat.pos_of_mul_pos_right hbatch
  unfold cut
  simp only [Nat.mul_div_cancel n e.size_pos, Nat.mul_div_mul_right n b e.size_pos,
    Nat.mul_mod_mul_right]
  have hdiv : n / b * b + n % b = n := by rw [Nat.mul_comm, Nat.div_add_mod]
  have hfull := tiles_full (e := e) hb (Nat.div_mul_le_self n b)
  split
  case isTrue =>
    refine .single ⟨(Nat.zero_mul _).symm, rfl, ?_, by rw [Nat.zero_add]⟩
    split <;> rfl
  case isFalse =>
    split
    case isFalse hzero =>
      have hremainder : n % b = 0 :=
        Nat.eq_zero_of_not_pos fun hpos => hzero (Nat.mul_pos hpos e.size_pos)
      rw [hremainder, Nat.add_zero] at hdiv
      rwa [hdiv] at hfull
    case isTrue hpos =>
      have hlast : (window e (n / b * b * e.size) (n % b * e.size)).Covers e.size (n * e.size)
          (n / b * b) (n % b) := covers_window (Nat.le_of_eq hdiv) (Nat.pos_of_mul_pos_right hpos)
      rw [← Nat.zero_add (n / b * b)] at hlast
      have hall := hfull.append (.single hlast)
      rwa [hdiv, Nat.zero_add, Nat.mul_assoc] at hall

theorem wrapped_eq (hp : p.Covers size total first count) (hsize : 0 < size) (htotal : total < wordLimit) :
    p.wrapped = p := by
  have hwithin := hp.within
  rw [Nat.add_mul] at hwithin
  have hoffset : p.offset ≤ total := by
    rw [hp.offset]
    omega
  have hlength : p.length ≤ total := by
    have hlength := hp.length
    split at hlength <;> omega
  have hthreads : p.threads ≤ total := by
    have hthreads := hp.threads
    split at hthreads
    case isFalse => omega
    case isTrue =>
      have hle := Nat.le_mul_of_pos_right p.threads hsize
      omega
  unfold wrapped
  rw [Nat.mod_eq_of_lt (by omega), Nat.mod_eq_of_lt (by omega), Nat.mod_eq_of_lt (by omega)]

theorem work_of_tiles (h : Tiles size total first passes count) (hsize : 0 < size)
    (htotal : total < wordLimit) (steps : List Step) :
    work passes steps = passes.flatMap fun p => steps.map (p, ·) := by
  induction h with
  | nil => rfl
  | cons hp _ ih =>
    rw [work, List.flatMap_cons, List.flatMap_cons, wrapped_eq hp hsize htotal, ← ih]
    rfl

-- Arrays of one element and one length have that shape in common.
theorem commonShape_ok {r : Registry} {bindings : List Binding} {shape : Option BatchShape}
    (hbindings : ∀ x ∈ bindings, x.object.kind = .array e ∧ r.byteLength x.object.handle = total)
    (hshape : ∀ s, shape = some s → s = ⟨e, total⟩) {s : BatchShape}
    (h : commonShape r bindings shape = .ok (some s)) : s = ⟨e, total⟩ := by
  induction bindings generalizing shape with
  | nil =>
    cases h
    exact hshape s rfl
  | cons x bindings ih =>
    have ⟨⟨hkind, hlength⟩, hrest⟩ := List.forall_mem_cons.mp hbindings
    unfold commonShape at h
    simp only [hkind, hlength, ObjectKind.element?] at h
    split at h
    case isFalse => cases h
    case isTrue => exact ih hrest (fun s hs => (Option.some.inj hs).symm) h

theorem tiles_plan {r : Registry} {c : Context} {batch : Nat}
    (hobjects : ∀ o ∈ c.objects, o.kind = .array e ∧ r.byteLength o.handle = total)
    (htotal : e.size ∣ total) (h : plan r c (some batch) = .ok passes) :
    Tiles e.size total 0 passes (total / e.size) := by
  simp only [plan] at h
  by_cases hzero : batch = 0
  case pos =>
    rw [if_pos hzero] at h
    cases h
  rw [if_neg hzero] at h
  obtain ⟨shape, hshape, h⟩ := bind_eq_ok.mp h
  cases shape with
  | none => cases h
  | some shape =>
    cases commonShape_ok (fun x hx => hobjects _ (List.mem_map_of_mem hx)) (fun _ hs => by cases hs)
      hshape
    by_cases huneven : batch % e.size ≠ 0
    case pos =>
      simp only [if_pos huneven] at h
      cases h
    simp only [if_neg huneven] at h
    cases h
    exact tiles_cut (Nat.pos_of_ne_zero hzero) htotal
      (Nat.dvd_of_mod_eq_zero (Decidable.not_not.mp huneven))

-- In batches or not, the passes cover all elements.
theorem tiles_of_plan {r : Registry} {c : Context} {batch : Option Nat}
    (hobjects : ∀ o ∈ c.objects, o.kind = .array e ∧ r.byteLength o.handle = total)
    (htotal : e.size ∣ total) (h : plan r c batch = .ok passes) :
    Tiles e.size total 0 passes (total / e.size) := by
  cases batch with
  | none =>
    cases h
    exact .whole htotal
  | some batch => exact tiles_plan hobjects htotal h

end Pass

namespace World

variable {e : Element} {total first count index : Nat} {p : Pass} {passes : List Pass} {u : Setup}
  {w w' : World} {c : Column} {ready : List Handle} {f : Task → Nat → List Bytes → Bytes}
  {steps : List Step}

theorem windows_cons_ok {x : Pass × Step} {work : List (Pass × Step)}
    (h : w.windows u (x :: work) = (.ok ⟨⟩, w')) :
    ∃ w₁, w.windowStep u x.1 x.2 = .ok w₁ ∧ w₁.windows u work = (.ok ⟨⟩, w') := by
  rw [windows] at h
  split at h
  case h_1 w₁ hstep => exact ⟨w₁, hstep, h⟩
  case h_2 => cases h

theorem windows_append_ok {work more : List (Pass × Step)}
    (h : w.windows u (work ++ more) = (.ok ⟨⟩, w')) :
    ∃ w₁, w.windows u work = (.ok ⟨⟩, w₁) ∧ w₁.windows u more = (.ok ⟨⟩, w') := by
  rw [windows_append] at h
  split at h
  case h_1 w₁ hwork => exact ⟨w₁, hwork, h⟩
  case h_2 => cases h

theorem within_pass (hp : p.Covers e.size total first count)
    (harrays : ∀ s ∈ steps, s.Arrays e total w.host)
    (h : w.windows u (steps.map (p, ·)) = (.ok ⟨⟩, w')) : Within e.size first count steps w w' := by
  induction steps generalizing w with
  | nil =>
    cases h
    exact .refl _
  | cons s steps ih =>
    obtain ⟨w₁, hstep, hrest⟩ := windows_cons_ok h
    have ⟨hs, harrays⟩ := List.forall_mem_cons.mp harrays
    have hfirst := within_windowStep hp hs hstep
    have hlater := ih (fun s' hs' => hfirst.arrays (harrays s' hs')) hrest
    exact (hfirst.mono (Nat.le_refl _) (Nat.le_refl _) (by simp)).trans
      (hlater.mono (Nat.le_refl _) (Nat.le_refl _) (List.subset_cons_self s steps))

-- A pass does to each column of its window what the steps say.
theorem shows_pass (hp : p.Covers e.size total first count)
    (harrays : ∀ s ∈ steps, s.Arrays e total w.host)
    (hcolumnwise : ∀ s ∈ steps, s.Columnwise e total u.kernels f) (hsourced : Step.Sourced ready steps)
    (hindex : index < count) (hshows : w.Shows e.size first count index ready c)
    (h : w.windows u (steps.map (p, ·)) = (.ok ⟨⟩, w')) (k : Handle) :
    Bytes.element e.size (first + index) (w'.host k) = (c.run f steps).host k := by
  induction steps generalizing w c ready with
  | nil =>
    cases h
    exact hshows.host k
  | cons s steps ih =>
    obtain ⟨w₁, hstep, hrest⟩ := windows_cons_ok h
    have ⟨hs, harrays⟩ := List.forall_mem_cons.mp harrays
    have ⟨htakes, hcolumnwise⟩ := List.forall_mem_cons.mp hcolumnwise
    have hfirst := within_windowStep hp hs hstep
    exact ih (fun s' hs' => hfirst.arrays (harrays s' hs')) hcolumnwise hsourced.2
      (shows_windowStep hp hs htakes hindex hsourced.1 hshows hstep) hrest

-- Pass by pass, each column comes to what the steps make of it, and stays so from then on.
theorem windows_columns (htiles : Pass.Tiles e.size total first passes count)
    (harrays : ∀ s ∈ steps, s.Arrays e total w.host)
    (hcolumnwise : ∀ s ∈ steps, s.Columnwise e total u.kernels f) (hsourced : Step.Sourced [] steps)
    (h : w.windows u (passes.flatMap fun p => steps.map (p, ·)) = (.ok ⟨⟩, w')) :
    Within e.size first count steps w w' ∧ ∀ index, first ≤ index → index < first + count →
      ∀ copy k, Bytes.element e.size index (w'.host k) =
        (Column.run f ⟨fun k => Bytes.element e.size index (w.host k), copy⟩ steps).host k := by
  induction htiles generalizing w with
  | nil =>
    cases h
    exact ⟨.refl _, fun index hle hlt => by omega⟩
  | @cons first count rest p passes hp htiles ih =>
    obtain ⟨w₁, hpass, hrest⟩ := windows_append_ok h
    have hfirst := within_pass hp harrays hpass
    obtain ⟨hlater, hcolumns⟩ := ih (fun s hs => hfirst.arrays (harrays s hs)) hrest
    refine ⟨(hfirst.mono (Nat.le_refl _) (by omega) (List.Subset.refl _)).trans
      (hlater.mono (by omega) (by omega) (List.Subset.refl _)), fun index hle hlt copy k => ?_⟩
    by_cases hhere : index < first + count
    case pos =>
      obtain ⟨place, rfl⟩ := Nat.exists_eq_add_of_le hle
      rw [hlater.outside k _ (.inl hhere)]
      exact shows_pass hp harrays hcolumnwise hsourced (by omega) ⟨fun _ => rfl, nofun⟩ hpass k
    case neg =>
      rw [hcolumns index (by omega) (by omega) copy k]
      congr 3
      funext k
      exact hfirst.outside k index (.inr (by omega))

end World

namespace Schedule

variable {p p' : Platform} {place place' : Nat} {name name' : String} {config config' : Config}
  {steps : List Step} {batch : Option Nat} {program program' : Program} {s s' t t' : Hosted Schedule}
  {e : Element} {total : Nat} {f : Task → Nat → List Bytes → Bytes}

-- In batches or not, a run that ends well does to each column what the steps say.
theorem run_columns (hplace : place < p.channels.length)
    (hmemory : (p.channel place).device.memory.Reached) (hsize : e.size ∣ total)
    (htotal : total < wordLimit) (harrays : ∀ step ∈ steps, step.Arrays e total p.registry.bytes)
    (hcolumnwise : ∀ step ∈ steps, step.Columnwise e total (p.channel place).device.kernels f)
    (hsourced : Step.Sourced [] steps)
    (hprepare : prepare config steps batch { platform := p, part := create p name place } =
      (.ok program, s))
    (hrun : run s = (.ok ⟨⟩, t)) :
    ∃ w, t.platform.registry.bytes = w.host ∧
      World.Within e.size 0 (total / e.size) steps (.fresh p) w ∧
      ∀ index < total / e.size, ∀ k, Bytes.element e.size index (w.host k) =
        (Column.run f ⟨fun k => Bytes.element e.size index (p.registry.bytes k), fun _ => []⟩
          steps).host k := by
  have hscalars : ∀ step ∈ steps, ∀ o ∈ step.objects, o.isScalar →
      config.benchmarkingMode ∧ batch = none := by
    intro step hstep o ho hscalar
    have hkind := (harrays step hstep o ho).1
    simp [HostObject.isScalar, hkind] at hscalar
  have happart (task : Task) (htask : .task task ∈ steps) : task.Apart :=
    Task.Columnwise.apart (hcolumnwise (.task task) htask)
  obtain ⟨b, m, passes, hmachine, hintact, hworld, horigin, hplan, hcarries⟩ :=
    prepare_carries hplace hmemory happart hscalars hprepare
  have htiles : Pass.Tiles e.size total 0 passes (total / e.size) := by
    refine Pass.tiles_of_plan (fun o ho => ?_) hsize hplan
    obtain ⟨step, hstep, ho⟩ := horigin o ho
    exact harrays step hstep o ho
  have hran := (run_ends hcarries hmachine hintact).of_eq hrun (Context.granted_ok _)
  rw [hworld, Pass.work_of_tiles htiles e.size_pos htotal] at hran
  rcases hwindows : (World.fresh p).windows (p.setup place config)
    (passes.flatMap fun p => steps.map (p, ·)) with ⟨outcome, w⟩
  rw [hwindows] at hran
  match outcome, hran with
  | .error (.nothingToRead _), ⟨_, _, herror, _⟩ => cases herror
  | .error .failed, ⟨_, herror⟩ => cases herror
  | .ok _, ⟨hstands, _⟩ =>
    obtain ⟨hwithin, hcolumns⟩ := World.windows_columns htiles harrays hcolumnwise hsourced hwindows
    exact ⟨w, congrArg World.host hstands.world, hwithin, fun index hindex =>
      hcolumns index (Nat.zero_le index) (by omega) _⟩

-- Three elements of two bytes that the device copies, at once or two elements at a time.
def master : HostObject :=
  ⟨⟨1⟩, .array .short⟩

def duplicate : HostObject :=
  ⟨⟨2⟩, .array .short⟩

def copying : Task where
  id := "copy"
  kernel := "copy"
  domain := [3]
  arguments := [⟨master, .read⟩, ⟨duplicate, .write⟩]

def copySteps : List Step :=
  [.streamIn master, .task copying, .streamOut duplicate]

def copyPlatform : Platform where
  registry := ((({} : Registry).register (.array .short) [1, 2, 3, 4, 5, 6]).2.register
    (.array .short) [0, 0, 0, 0, 0, 0]).2
  channels := [{ device := {
    limits := { computeUnits := 1 }
    threadName := "queue"
    kernels := [("copy", Kernel.copy)] } }]

theorem copy_elementwise (size : Nat) : Kernel.copy.Elementwise size [.read, .write] fun _ xs => xs.getD 0 [] := by
  intro geometry contents results count _ hlength hlengths hrun place access haccess
  match contents, hlength with
  | [source, target], _ =>
    have hsame : source.length = target.length := by
      rw [hlengths source (by simp), hlengths target (by simp)]
    have hoverlay : Bytes.overlay source target = source := by simp [Bytes.overlay, hsame]
    have hwrite : Script.write [source, target] 1 source = .ok [source, source] := by
      simp only [Script.write, List.getElem?_cons_succ, List.getElem?_cons_zero, hsame, Nat.lt_irrefl,
        if_false, hoverlay]
      rfl
    change Script.perform [(1, source)] none [source, target] = _ at hrun
    rw [Script.perform, hwrite] at hrun
    cases hrun
    rcases place with _ | _ | place
    case zero => cases haccess; exact rfl
    case succ.zero => cases haccess; exact fun _ _ => rfl
    case succ.succ => cases haccess

end Schedule
end Offload
