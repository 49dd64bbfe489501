import Offload.Proofs.Nameless
import Offload.Proofs.Renders

/-!
What the passes of a plan are to objects that are worked on in batches: windows that adjoin one another from
the first byte to the last. A window has a thread for each whole element, so that one of less than an element
has none, and is taken for the whole of the objects.
-/

namespace Offload

-- The bound objects are arrays, all of one element and one length.
structure Context.Uniform (r : Registry) (c : Context) (shape : BatchShape) : Prop where
  bound : c.bindings ≠ []
  alike : ∀ b ∈ c.bindings,
    b.object.kind = .array shape.element ∧ r.byteLength b.object.handle = shape.total

-- Nothing is bound, or a scalar, or objects that are not alike.
inductive Context.Mixed (r : Registry) (c : Context) : Prop
  | nothing (h : c.bindings = [])
  | scalar {b : Binding} (hb : b ∈ c.bindings) (h : b.object.isScalar)
  | kinds {b b' : Binding} (hb : b ∈ c.bindings) (hb' : b' ∈ c.bindings)
    (h : b.object.kind ≠ b'.object.kind)
  | lengths {b b' : Binding} (hb : b ∈ c.bindings) (hb' : b' ∈ c.bindings)
    (h : r.byteLength b.object.handle ≠ r.byteLength b'.object.handle)

namespace Context

variable {r : Registry} {c : Context} {shape shape' : BatchShape}

theorem Uniform.eq (h : c.Uniform r shape) (h' : c.Uniform r shape') : shape = shape' := by
  obtain ⟨b, hb⟩ := List.exists_mem_of_ne_nil _ h.bound
  obtain ⟨hkind, htotal⟩ := h.alike b hb
  obtain ⟨hkind', htotal'⟩ := h'.alike b hb
  cases shape
  cases shape'
  cases hkind.symm.trans hkind'
  cases htotal.symm.trans htotal'
  rfl

theorem Mixed.not_uniform (h : c.Mixed r) : ¬c.Uniform r shape := by
  intro hshape
  cases h with
  | nothing hnil => exact hshape.bound hnil
  | scalar hb hscalar => simp [HostObject.isScalar, (hshape.alike _ hb).1] at hscalar
  | kinds hb hb' hne => exact hne ((hshape.alike _ hb).1.trans (hshape.alike _ hb').1.symm)
  | lengths hb hb' hne => exact hne ((hshape.alike _ hb).2.trans (hshape.alike _ hb').2.symm)

end Context

namespace Pass

variable {r : Registry} {c : Context} {shape : BatchShape} {p : Pass} {passes passes' : List Pass}
  {batch first last last' n : Nat}

-- The first byte behind the window.
def stop (p : Pass) : Nat :=
  p.offset + p.length

-- The windows adjoin one another from byte `first` on, up to byte `last`.
inductive Adjoin : Nat → List Pass → Nat → Prop
  | nil (first : Nat) : Adjoin first [] first
  | cons {p : Pass} {passes : List Pass} {last : Nat} (hlength : 0 < p.length)
    (hrest : Adjoin p.stop passes last) : Adjoin p.offset (p :: passes) last

namespace Adjoin

theorem single (hlength : 0 < p.length) : Adjoin p.offset [p] p.stop :=
  .cons hlength (.nil _)

theorem append (h : Adjoin first passes last) (h' : Adjoin last passes' last') :
    Adjoin first (passes ++ passes') last' := by
  induction h with
  | nil => exact h'
  | cons hlength _ ih => exact .cons hlength (ih h')

theorem length_pos (h : Adjoin first passes last) : ∀ p ∈ passes, 0 < p.length := by
  induction h with
  | nil => exact nofun
  | cons hlength _ ih => exact List.forall_mem_cons.mpr ⟨hlength, ih⟩

theorem offset_ge (h : Adjoin first passes last) : ∀ p ∈ passes, first ≤ p.offset := by
  induction h with
  | nil => exact nofun
  | cons _ _ ih =>
    refine List.forall_mem_cons.mpr ⟨Nat.le_refl _, fun q hq => ?_⟩
    exact Nat.le_trans (Nat.le_add_right _ _) (ih q hq)

theorem apart (h : Adjoin first passes last) : passes.Pairwise fun p q => p.stop ≤ q.offset := by
  induction h with
  | nil => exact .nil
  | cons _ hrest ih => exact .cons hrest.offset_ge ih

end Adjoin

-- The full batches of a plan.
def batches (element : Element) (batch n : Nat) : List Pass :=
  (List.range n).map fun i => window element (i * batch) batch

theorem adjoin_batches (element : Element) (hbatch : 0 < batch) (n : Nat) :
    Adjoin 0 (batches element batch n) (n * batch) := by
  induction n with
  | zero =>
    rw [Nat.zero_mul]
    exact .nil 0
  | succ n ih =>
    have hlast : Adjoin (n * batch) [window element (n * batch) batch] (n * batch + batch) :=
      .single (p := window element (n * batch) batch) hbatch
    rw [batches, List.range_succ, List.map_append, List.map_singleton, Nat.succ_mul]
    exact ih.append hlast

theorem mem_batches {element : Element} (hp : p ∈ batches element batch n) :
    p.length = batch ∧ p.threads = batch / element.size := by
  obtain ⟨_, _, rfl⟩ := List.mem_map.mp hp
  exact ⟨rfl, rfl⟩

-- What is left of the objects behind the full batches, if anything is.
def remnant (shape : BatchShape) (batch : Nat) : List Pass :=
  if 0 < shape.total % batch then
    [window shape.element (shape.total / batch * batch) (shape.total % batch)]
  else []

theorem mem_remnant (hp : p ∈ remnant shape batch) : 0 < shape.total % batch ∧
    p.length = shape.total % batch ∧ p.threads = shape.total % batch / shape.element.size := by
  unfold remnant at hp
  split at hp
  case isFalse => cases hp
  case isTrue hrest =>
    cases List.mem_singleton.mp hp
    exact ⟨hrest, rfl, rfl⟩

theorem adjoin_remnant (shape : BatchShape) (batch : Nat) :
    Adjoin (shape.total / batch * batch) (remnant shape batch) shape.total := by
  have hdiv := Nat.div_add_mod' shape.total batch
  unfold remnant
  split
  case isTrue hrest =>
    have hlast : Adjoin (shape.total / batch * batch) _ (shape.total / batch * batch + shape.total % batch) :=
      .single (p := window shape.element (shape.total / batch * batch) (shape.total % batch)) hrest
    rwa [hdiv] at hlast
  case isFalse hnone =>
    rw [Nat.eq_zero_of_not_pos hnone, Nat.add_zero] at hdiv
    rw [hdiv]
    exact .nil _

-- A batch that is larger than the objects is one pass over all of them.
theorem cut_large (h : shape.total < batch) :
    cut shape batch = [{ threads := shape.total / shape.element.size }] := by
  simp [cut, Nat.div_eq_of_lt h]

theorem cut_fitting (hbatch : 0 < batch) (hle : batch ≤ shape.total) :
    cut shape batch = batches shape.element batch (shape.total / batch) ++ remnant shape batch := by
  have hchunks : shape.total / batch ≠ 0 := Nat.ne_of_gt (Nat.div_pos hle hbatch)
  unfold cut remnant
  dsimp only
  rw [if_neg hchunks]
  split
  case isTrue => rfl
  case isFalse => rw [List.append_nil, batches]

theorem adjoin_cut (hbatch : 0 < batch) (hle : batch ≤ shape.total) :
    Adjoin 0 (cut shape batch) shape.total := by
  rw [cut_fitting hbatch hle]
  exact (adjoin_batches _ hbatch _).append (adjoin_remnant shape batch)

-- Every window is as long as a batch, but for what is left in the end.
theorem mem_cut (hbatch : 0 < batch) (hle : batch ≤ shape.total) (hp : p ∈ cut shape batch) :
    (p.length = batch ∨ p.length = shape.total % batch) ∧ p.threads = p.length / shape.element.size := by
  rw [cut_fitting hbatch hle] at hp
  rcases List.mem_append.mp hp with hp | hp
  case inl =>
    obtain ⟨hlength, hthreads⟩ := mem_batches hp
    exact ⟨.inl hlength, hlength ▸ hthreads⟩
  case inr =>
    obtain ⟨_, hlength, hthreads⟩ := mem_remnant hp
    exact ⟨.inr hlength, hlength ▸ hthreads⟩

theorem dropLast_cut (hbatch : 0 < batch) (hle : batch ≤ shape.total) :
    ∀ p ∈ (cut shape batch).dropLast, p.length = batch := by
  intro p hp
  rw [cut_fitting hbatch hle] at hp
  suffices hp : p ∈ batches shape.element batch (shape.total / batch) from (mem_batches hp).1
  unfold remnant at hp
  split at hp
  case isTrue => rwa [List.dropLast_concat] at hp
  case isFalse =>
    rw [List.append_nil] at hp
    exact (List.dropLast_sublist _).subset hp

theorem commonShape_uniform {bindings : List Binding} {start : Option BatchShape}
    (halike : ∀ b ∈ bindings, b.object.kind = .array shape.element ∧ r.byteLength b.object.handle = shape.total)
    (hstart : start.all (· = shape)) (hsome : bindings ≠ [] ∨ start = some shape) :
    commonShape r bindings start = .ok (some shape) := by
  induction bindings generalizing start with
  | nil =>
    cases hsome.resolve_left fun h => h rfl
    rfl
  | cons b bindings ih =>
    obtain ⟨⟨hkind, htotal⟩, hrest⟩ := List.forall_mem_cons.mp halike
    unfold commonShape
    simp only [hkind, ObjectKind.element?, htotal]
    rw [if_pos hstart]
    exact ih hrest (by simp) (.inr rfl)

-- A plan for a batch size is made if and only if all objects are arrays that can be cut into batches.
theorem plan_ok_iff : plan r c (some batch) = .ok passes ↔ ∃ shape, c.Uniform r shape ∧ 0 < batch ∧
    shape.element.size ∣ batch ∧ passes = cut shape batch := by
  simp only [plan]
  by_cases hzero : batch = 0
  case pos =>
    rw [if_pos hzero]
    constructor
    case mp =>
      intro h
      cases h
    case mpr =>
      rintro ⟨_, _, hpos, _⟩
      exact absurd hzero (Nat.ne_of_gt hpos)
  rw [if_neg hzero]
  constructor
  case mp =>
    intro h
    obtain ⟨shape, hshape, h⟩ := bind_eq_ok.mp h
    cases shape with
    | none => cases h
    | some shape =>
      have hbound : c.bindings ≠ [] := fun hnil => by
        rw [hnil] at hshape
        cases hshape
      by_cases huneven : batch % shape.element.size ≠ 0
      case pos =>
        simp only [if_pos huneven] at h
        cases h
      simp only [if_neg huneven] at h
      cases h
      exact ⟨shape, ⟨hbound, (commonShape_agrees hshape).2⟩, Nat.pos_of_ne_zero hzero,
        Nat.dvd_of_mod_eq_zero (Decidable.not_not.mp huneven), rfl⟩
  case mpr =>
    rintro ⟨shape, hshape, _, hdvd, rfl⟩
    have heven : ¬batch % shape.element.size ≠ 0 := fun h => h (Nat.mod_eq_zero_of_dvd hdvd)
    refine bind_eq_ok.mpr ⟨some shape, commonShape_uniform hshape.alike rfl (.inl hshape.bound), ?_⟩
    simp only [if_neg heven]
    rfl

-- The windows of a plan divide objects of a shape among them, each in whole elements.
structure Partitions (shape : BatchShape) (batch : Nat) (passes : List Pass) : Prop where
  adjoin  : Adjoin 0 passes shape.total
  apart   : passes.Pairwise fun p q => p.stop ≤ q.offset
  sized   : ∀ p ∈ passes, 0 < p.length ∧ p.length ≤ batch
  full    : ∀ p ∈ passes.dropLast, p.length = batch
  threads : ∀ p ∈ passes, p.threads * shape.element.size = p.length

theorem partitions_cut (hbatch : 0 < batch) (hle : batch ≤ shape.total)
    (htotal : shape.element.size ∣ shape.total) (hdvd : shape.element.size ∣ batch) :
    Partitions shape batch (cut shape batch) := by
  have hadjoin := adjoin_cut hbatch hle
  have hrest : shape.total % batch < batch := Nat.mod_lt _ hbatch
  refine ⟨hadjoin, hadjoin.apart, fun p hp => ⟨hadjoin.length_pos p hp, ?_⟩, dropLast_cut hbatch hle,
    fun p hp => ?_⟩
  case refine_1 => rcases (mem_cut hbatch hle hp).1 with h | h <;> omega
  case refine_2 =>
    obtain ⟨hlength, hthreads⟩ := mem_cut hbatch hle hp
    have hwhole : shape.element.size ∣ p.length := by
      rcases hlength with h | h
      case inl => exact h ▸ hdvd
      case inr => exact h ▸ (Nat.dvd_mod_iff hdvd).mpr htotal
    rw [hthreads, Nat.div_mul_cancel hwhole]

theorem plan_partitions (r : Registry) (c : Context) (batch : Nat) :
    (∀ shape, c.Uniform r shape → shape.element.size ∣ shape.total → 0 < batch →
      shape.element.size ∣ batch →
        (shape.total < batch → plan r c (some batch) =
          .ok [{ offset := 0, length := 0, threads := shape.total / shape.element.size }]) ∧
        (batch ≤ shape.total →
          ∃ passes, plan r c (some batch) = .ok passes ∧ Partitions shape batch passes)) ∧
    (c.Mixed r ∨ batch = 0 ∨ (∃ b ∈ c.bindings, ∃ element, b.object.kind = .array element ∧
        ¬element.size ∣ batch) →
      ∃ cause, plan r c (some batch) = .error (.config cause)) := by
  constructor
  case left =>
    intro shape hshape htotal hbatch hdvd
    have hplan := plan_ok_iff.mpr ⟨shape, hshape, hbatch, hdvd, rfl⟩
    exact ⟨fun hlarge => cut_large hlarge ▸ hplan,
      fun hle => ⟨_, hplan, partitions_cut hbatch hle htotal hdvd⟩⟩
  case right =>
    intro hunfit
    cases hplan : plan r c (some batch) with
    | error e =>
      obtain ⟨cause, rfl, _⟩ := (misused_plan r c (some batch) e hplan).exists_cause
      exact ⟨cause, rfl⟩
    | ok passes =>
      obtain ⟨shape, hshape, hbatch, hdvd, -⟩ := plan_ok_iff.mp hplan
      rcases hunfit with hmixed | hzero | ⟨b, hb, element, hkind, huneven⟩
      case inl => exact absurd hshape hmixed.not_uniform
      case inr.inl => exact absurd hzero (Nat.ne_of_gt hbatch)
      case inr.inr =>
        cases hkind.symm.trans (hshape.alike b hb).1
        exact absurd hdvd huneven

-- Two arrays of three numbers each, cut after the second one.
def pairRegistry : Registry :=
  (((({} : Registry).register (.array .int) (Bytes.zeros 12)).2).register (.array .int) (Bytes.zeros 12)).2

def pairContext : Context where
  name := "pair"
  bindings := [{ object := ⟨⟨1⟩, .array .int⟩ }, { object := ⟨⟨2⟩, .array .int⟩ }]

theorem pair_partitions : pairContext.Uniform pairRegistry ⟨.int, 12⟩ ∧
    plan pairRegistry pairContext (some 8) = .ok [⟨0, 8, 2⟩, ⟨8, 4, 1⟩] ∧
    Partitions ⟨.int, 12⟩ 8 [⟨0, 8, 2⟩, ⟨8, 4, 1⟩] ∧
    plan pairRegistry pairContext (some 16) = .ok [⟨0, 0, 3⟩] ∧
    ∃ cause, plan pairRegistry pairContext (some 6) = .error (.config cause) := by
  have hshape : pairContext.Uniform pairRegistry ⟨.int, 12⟩ := ⟨by decide, by decide⟩
  have htotal : Element.int.size ∣ 12 := by decide
  obtain ⟨passes, hplan, hpartitions⟩ :=
    ((plan_partitions pairRegistry pairContext 8).1 _ hshape htotal (by decide) (by decide)).2 (by decide)
  have hpasses : plan pairRegistry pairContext (some 8) = .ok [⟨0, 8, 2⟩, ⟨8, 4, 1⟩] := by decide
  cases hplan.symm.trans hpasses
  refine ⟨hshape, hpasses, hpartitions, ?_, ?_⟩
  case refine_1 =>
    exact ((plan_partitions pairRegistry pairContext 16).1 _ hshape htotal (by decide) (by decide)).1 (by decide)
  case refine_2 =>
    exact (plan_partitions pairRegistry pairContext 6).2
      (.inr (.inr ⟨_, List.mem_cons_self, .int, rfl, by decide⟩))

end Pass

-- The last window of the objects holds but a part of an element.
def BatchShape.Torn (shape : BatchShape) (batch : Nat) : Prop :=
  batch ≤ shape.total ∧ 0 < shape.total % batch ∧ shape.total % batch < shape.element.size

theorem BatchShape.not_torn_of_dvd {shape : BatchShape} {batch : Nat} (htotal : shape.element.size ∣ shape.total)
    (hdvd : shape.element.size ∣ batch) : ¬shape.Torn batch := by
  intro ⟨_, hrest, hless⟩
  exact Nat.not_le_of_lt hless (Nat.le_of_dvd hrest ((Nat.dvd_mod_iff hdvd).mpr htotal))

-- A launch with a number of threads is over them, whatever domain its task has.
theorem Geometry.launch_threads {threads : Nat} (h : 0 < threads) (domain : List Nat) (limits : Limits)
    (t : Tuning) : launch domain threads limits t = launch (domain.map fun _ => threads) 0 limits t := by
  simp [launch, h]

namespace Pass

open Compile

variable {r : Registry} {c : Context} {shape : BatchShape} {p : Pass} {passes : List Pass} {batch : Nat}

-- A launch in the pass keeps to its window: it runs over a thread for each whole element of it, and the
-- buffers that it makes hold these elements.
structure Apportioned (r : Registry) (c : Context) (shape : BatchShape) (p : Pass) : Prop where
  threads  : 0 < p.threads
  elements : p.threads = p.length / shape.element.size
  geometry : ∀ domain limits tuning, Geometry.launch domain p.threads limits tuning =
    Geometry.launch (domain.map fun _ => p.threads) 0 limits tuning
  buffers  : ∀ o ∈ c.objects, Machine.argumentSize r o p.threads = p.threads * shape.element.size

theorem apportioned_of_threads (hshape : c.Uniform r shape) (hpos : 0 < p.threads)
    (hthreads : p.threads = p.length / shape.element.size) : Apportioned r c shape p where
  threads := hpos
  elements := hthreads
  geometry := Geometry.launch_threads hpos
  buffers o ho := by
    obtain ⟨b, hb, rfl⟩ := List.mem_map.mp ho
    rw [Machine.argumentSize, (hshape.alike b hb).1]
    exact if_pos hpos

-- A window has a thread at least, unless it holds but a part of an element.
theorem threads_pos_iff (hbatch : 0 < batch) (hle : batch ≤ shape.total) (hdvd : shape.element.size ∣ batch) :
    (∀ p ∈ cut shape batch, 0 < p.threads) ↔ ¬shape.Torn batch := by
  constructor
  case mp =>
    intro hall ⟨_, hrest, hless⟩
    have hlast : window shape.element (shape.total / batch * batch) (shape.total % batch) ∈
        cut shape batch := by
      rw [cut_fitting hbatch hle, remnant, if_pos hrest]
      exact List.mem_append_right _ (List.mem_singleton_self _)
    have hpos : 0 < shape.total % batch / shape.element.size := hall _ hlast
    rw [Nat.div_eq_of_lt hless] at hpos
    exact Nat.lt_irrefl 0 hpos
  case mpr =>
    intro hwhole p hp
    have hpos := (adjoin_cut hbatch hle).length_pos p hp
    obtain ⟨hlength, hthreads⟩ := mem_cut hbatch hle hp
    rw [hthreads]
    refine Nat.div_pos ?_ shape.element.size_pos
    rcases hlength with h | h
    case inl => exact h ▸ Nat.le_of_dvd hbatch hdvd
    case inr => exact h ▸ Nat.not_lt.mp fun hless => hwhole ⟨hle, h ▸ hpos, h ▸ hless⟩

-- The launches of a machine are those of the passes.
theorem exists_pass_of_launch {g : Graph} {place : Nat} {d : Graph.Dependencies} {l : Layout} {m : Machine}
    (hmade : Made r c g (some batch) place d l passes m) (hwords : ∀ p ∈ passes, p.InWords)
    {task device offset threads : Nat} {wait : Option Nat}
    (hmem : .launch task device wait offset threads ∈ m.instructions) :
    ∃ p ∈ passes, offset = p.offset ∧ threads = p.threads := by
  obtain ⟨nodes, blocks, hinstructions, hlaid⟩ := hmade.instructions
  have hblock : .launch task device wait offset threads ∈ blocks := by
    rw [hinstructions] at hmem
    cases hending : l.ending <;> simpa [hending, Ending.instructions] using hmem
  rcases hlaid.origin hblock with ⟨_, hadd⟩ | ⟨site, _, p, hp, hissued⟩
  case inl => cases hadd
  case inr =>
    have hpass := List.mem_of_getElem? hp
    refine ⟨p, hpass, ?_⟩
    rcases hissued.cases with ⟨_, _, hi⟩ | ⟨_, _, hi⟩ | ⟨_, _, hi | hi⟩ <;> cases hi
    exact ⟨Nat.mod_eq_of_lt (hwords p hpass).offset, Nat.mod_eq_of_lt (hwords p hpass).threads⟩

theorem windows_apportioned (hshape : c.Uniform r shape) (hplan : plan r c (some batch) = .ok passes) :
    ((∀ p ∈ passes, 0 < p.length → Apportioned r c shape p) ↔ ¬shape.Torn batch) ∧
      (shape.element.size ∣ shape.total → ¬shape.Torn batch) ∧
      ∀ g config config' program m, compile r c g (some batch) config = .ok program →
        Machine.create program config' = .ok m → shape.total < wordLimit → batch ≤ shape.total →
        ¬shape.Torn batch → ∀ task device wait offset threads,
          .launch task device wait offset threads ∈ m.instructions →
            ∃ p ∈ passes, offset = p.offset ∧ threads = p.threads ∧ 0 < p.length ∧ Apportioned r c shape p := by
  obtain ⟨shape', hshape', hbatch, hdvd, rfl⟩ := plan_ok_iff.mp hplan
  cases hshape.eq hshape'
  have hall (hle : batch ≤ shape.total) (hwhole : ¬shape.Torn batch) :
      ∀ p ∈ cut shape batch, Apportioned r c shape p := fun p hp =>
    apportioned_of_threads hshape ((threads_pos_iff hbatch hle hdvd).mpr hwhole p hp) (mem_cut hbatch hle hp).2
  refine ⟨⟨fun hwindows htorn => ?_, fun hwhole p hp hpos => ?_⟩,
    fun htotal => BatchShape.not_torn_of_dvd htotal hdvd, ?_⟩
  case refine_1 =>
    have hle := htorn.1
    refine (threads_pos_iff hbatch hle hdvd).mp (fun p hp => ?_) htorn
    exact (hwindows p hp ((adjoin_cut hbatch hle).length_pos p hp)).threads
  case refine_2 =>
    rcases Nat.lt_or_ge shape.total batch with hlarge | hle
    case inl =>
      rw [cut_large hlarge] at hp
      cases List.mem_singleton.mp hp
      cases hpos
    case inr => exact hall hle hwhole p hp
  case refine_3 =>
    intro g config config' program m hcompile hcreate hwords hle hwhole task device wait offset threads hmem
    obtain ⟨_, _, _, passes, hmade⟩ := made_of_compile hcompile hcreate
    cases hmade.plan.symm.trans hplan
    have hinWords : ∀ p ∈ cut shape batch, p.InWords :=
      plan_inWords hplan fun b hb => (hshape.alike b hb).2 ▸ hwords
    obtain ⟨p, hp, hoffset, hthreads⟩ := exists_pass_of_launch hmade hinWords hmem
    exact ⟨p, hp, hoffset, hthreads, (adjoin_cut hbatch hle).length_pos p hp, hall hle hwhole p hp⟩

-- An array that is copied to a device four bytes at a time, each batch of them worked on in place.
def scrapGraph : Graph where
  nodes := [⟨0, [], .context 0⟩, ⟨1, [0], .streamIn 0⟩, ⟨2, [0, 1], .task 0⟩]

def scrap (element : Element) : HostObject :=
  { handle := ⟨1⟩, kind := .array element }

def scrapRegistry (element : Element) (length : Nat) : Registry :=
  (({} : Registry).register (.array element) (Bytes.zeros length)).2

def scrapContext (element : Element) : Context where
  name := "scrap"
  devices := [0]
  bindings := [{ object := scrap element }]
  tasks := [{ id := "raise", kernel := "raise", arguments := [⟨scrap element, .readWrite⟩], domain := [2] }]

def scrapInstructions (element : Element) (length : Nat) : Except Error (List Instruction) := do
  let program ← compile (scrapRegistry element length) (scrapContext element) scrapGraph (some 4) {}
  program.decode

-- In seven bytes there is a whole element behind the first batch.
theorem scrap_apportioned : (scrapContext .short).Uniform (scrapRegistry .short 7) ⟨.short, 7⟩ ∧
    plan (scrapRegistry .short 7) (scrapContext .short) (some 4) = .ok [⟨0, 4, 2⟩, ⟨4, 3, 1⟩] ∧
    scrapInstructions .short 7 = .ok [.begin 2 1 2, .context 0,
      .streamIn 0 0 4 none, .addDep 0, .launch 0 0 (some 0) 0 2, .addDep 1,
      .streamIn 0 4 3 none, .addDep 0, .launch 0 0 (some 0) 4 1, .addDep 1, .barrier (some 1), .finish] ∧
    ∀ p ∈ [(⟨0, 4, 2⟩ : Pass), ⟨4, 3, 1⟩],
      0 < p.length → Apportioned (scrapRegistry .short 7) (scrapContext .short) ⟨.short, 7⟩ p := by
  have hshape : (scrapContext .short).Uniform (scrapRegistry .short 7) ⟨.short, 7⟩ := ⟨by decide, by decide⟩
  have hplan : plan (scrapRegistry .short 7) (scrapContext .short) (some 4) = .ok [⟨0, 4, 2⟩, ⟨4, 3, 1⟩] := by
    decide
  have hwhole : ¬BatchShape.Torn ⟨.short, 7⟩ 4 := by
    unfold BatchShape.Torn
    decide
  exact ⟨hshape, hplan, by decide +kernel, (windows_apportioned hshape hplan).1.mpr hwhole⟩

-- In five bytes there is none. The launch of the last byte has no threads, so that it is over the two items of its
-- task, and its buffer is to hold all five bytes.
theorem scrap_unthreaded :
    plan (scrapRegistry .int 5) (scrapContext .int) (some 4) = .ok [⟨0, 4, 1⟩, ⟨4, 1, 0⟩] ∧
    (¬∀ p ∈ [(⟨0, 4, 1⟩ : Pass), ⟨4, 1, 0⟩], 0 < p.length → 0 < p.threads) ∧
    scrapInstructions .int 5 = .ok [.begin 2 1 2, .context 0,
      .streamIn 0 0 4 none, .addDep 0, .launch 0 0 (some 0) 0 1, .addDep 1,
      .streamIn 0 4 1 none, .addDep 0, .launch 0 0 (some 0) 4 0, .addDep 1, .barrier (some 1), .finish] ∧
    (Geometry.launch [2] 0 { computeUnits := 8 } ({} : Config).tuning).map Geometry.global = .ok [2] ∧
    Machine.argumentSize (scrapRegistry .int 5) (scrap .int) 0 = 5 := by
  refine ⟨by decide, by decide, by decide +kernel, by decide +kernel, rfl⟩

end Pass
end Offload
