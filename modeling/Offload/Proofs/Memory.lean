import Mathlib.Data.List.Forall2
import Mathlib.Data.List.Nodup
import Offload.Device.Memory

/-!
What the buffers of a device hold, and what each operation on them changes of it.
-/

namespace Offload.Memory

variable {m m' : Memory} {id other : BufferId} {size : Nat}

-- The bytes of a buffer, if there is such a buffer.
def contents? (m : Memory) (id : BufferId) : Option Bytes :=
  (m.buffer? id).map Buffer.bytes

-- The key of every buffer was given out before, so that the next one is new.
def Sound (m : Memory) : Prop :=
  ∀ b ∈ m.buffers, b.id.number < m.next

theorem sound_of_nil (h : m.buffers = []) : m.Sound := by
  simp [Sound, h]

theorem allocate_ok (h : m.Sound) (hm : m.allocate size = .ok (id, m')) :
    m'.Sound ∧ m.contents? id = none ∧ m'.contents? id = some (Bytes.zeros size) ∧
      ∀ other ≠ id, m'.contents? other = m.contents? other := by
  unfold allocate at hm
  split at hm <;> cases hm
  have hfresh : m.buffer? ⟨m.next⟩ = none := by
    refine List.find?_eq_none.mpr fun b hb heq => ?_
    have hlt := h b hb
    rw [of_decide_eq_true heq] at hlt
    exact Nat.lt_irrefl _ hlt
  refine ⟨?_, ?_, ?_, ?_⟩
  case refine_1 =>
    intro b hb
    rcases List.mem_append.mp hb with hold | hnew
    case inl => exact Nat.lt_succ_of_lt (h b hold)
    case inr =>
      cases List.mem_singleton.mp hnew
      exact Nat.lt_succ_self _
  case refine_2 => rw [contents?, hfresh, Option.map_none]
  case refine_3 =>
    unfold buffer? at hfresh
    simp [contents?, buffer?, List.find?_append, hfresh]
  case refine_4 =>
    intro other hne
    simp [contents?, buffer?, List.find?_append, Ne.symm hne]

theorem release_frame (m : Memory) (id : BufferId) :
    (m.Sound → (m.release id).Sound) ∧
      ∀ other ≠ id, (m.release id).contents? other = m.contents? other := by
  unfold release
  split
  case h_1 => exact ⟨fun h => h, fun _ _ => rfl⟩
  case h_2 =>
    refine ⟨fun h b hb => h b (List.mem_of_mem_filter hb), fun other hne => ?_⟩
    have hfilter : (m.buffers.filter (·.id ≠ id)).find? (·.id = other) =
        m.buffers.find? (·.id = other) := by
      rw [List.find?_filter]
      congr 1
      funext b
      by_cases hb : b.id = other <;> simp [hb, hne]
    simp only [contents?, buffer?, hfilter]

theorem sound_mapBytes (f : Buffer → Bytes) (h : m.Sound) : (m.mapBytes f).Sound := by
  intro b hb
  obtain ⟨b', hb', rfl⟩ := List.mem_map.mp hb
  exact h b' hb'

theorem contents?_mapBytes (f : Buffer → Bytes) (id : BufferId) :
    (m.mapBytes f).contents? id = (m.buffer? id).map f := by
  rw [contents?, buffer?_mapBytes, Option.map_map]
  rfl

theorem id_of_buffer? {b : Buffer} (h : m.buffer? id = some b) : b.id = id := by
  simpa using List.find?_some h

theorem write_ok {data old : Bytes} (h : m.contents? id = some old) (hfit : data.length ≤ old.length) :
    ∃ m', m.write id data = .ok m' ∧ m'.contents? id = some (Bytes.overlay data old) ∧
      (∀ other ≠ id, m'.contents? other = m.contents? other) ∧ (m.Sound → m'.Sound) := by
  obtain ⟨b, hb, rfl⟩ := Option.map_eq_some_iff.mp h
  refine ⟨_, ?_, ?_, ?_, sound_mapBytes fun b =>
    if b.id = id then Bytes.overlay data b.bytes else b.bytes⟩
  case refine_1 =>
    simp only [write, hb, if_neg (Nat.not_lt_of_le hfit)]
    rfl
  case refine_2 => rw [contents?_mapBytes, hb, Option.map_some, if_pos (id_of_buffer? hb)]
  case refine_3 =>
    intro other hne
    rw [contents?_mapBytes, contents?]
    cases hother : m.buffer? other with
    | none => rfl
    | some b' => rw [Option.map_some, if_neg (id_of_buffer? hother ▸ hne), Option.map_some]

theorem read_eq {bytes : Bytes} {hostSize offset length : Nat} (h : m.contents? id = some bytes)
    (hlength : length ≤ bytes.length) :
    m.read id hostSize offset length =
      if hostSize < offset + length then
        .error (.readOutsideHost offset (offset + length) hostSize)
      else .ok (bytes.take length) := by
  obtain ⟨b, hb, rfl⟩ := Option.map_eq_some_iff.mp h
  simp only [read, hb, if_neg (Nat.not_lt_of_le hlength)]
  rfl

-- Buffers, one after the other, and what they hold.
abbrev Holds (m : Memory) : List BufferId → List Bytes → Prop :=
  List.Forall₂ fun id bytes => m.contents? id = some bytes

section

variable {arguments : List BufferId} {contents : List Bytes}

theorem gather_of_holds (h : m.Holds arguments contents) : m.gather arguments = .ok contents := by
  have hmap : arguments.map (fun id => ((m.buffer? id).map Buffer.bytes).getD []) = contents := by
    induction h with
    | nil => rfl
    | cons hid _ ih =>
      rw [List.map_cons, ih, show (m.buffer? _).map Buffer.bytes = _ from hid]
      rfl
  have hsome : ∀ id ∈ arguments, (m.buffer? id).isNone = false := by
    intro id hid
    obtain ⟨place, hplace, rfl⟩ := List.getElem_of_mem hid
    have hget := h.get hplace (h.length_eq ▸ hplace)
    rw [contents?, Option.map_eq_some_iff] at hget
    obtain ⟨b, hb, _⟩ := hget
    simp only [List.get_eq_getElem] at hb
    simp [hb]
  have hnone : arguments.findIdx? (fun id => (m.buffer? id).isNone) = none :=
    List.findIdx?_eq_none_iff.mpr hsome
  simp only [gather, hnone, hmap]
  rfl

theorem holds_scatter {results : List Bytes} (h : m.Holds arguments contents)
    (hnodup : arguments.Nodup) (hlength : results.length = contents.length) :
    (m.scatter arguments results).Holds arguments results := by
  refine List.forall₂_iff_get.mpr ⟨h.length_eq.trans hlength.symm, fun place hplace hplace' => ?_⟩
  have hget := h.get hplace (h.length_eq ▸ hplace)
  rw [contents?, Option.map_eq_some_iff] at hget
  obtain ⟨b, hb, _⟩ := hget
  have hidx : arguments.idxOf? b.id = some place := by
    rw [id_of_buffer? hb, List.idxOf?_eq_some_iff]
    refine ⟨hplace, List.get_eq_getElem .., fun before hbefore heq => ?_⟩
    have hsame := (List.Nodup.getElem_inj_iff hnodup).mp heq
    omega
  rw [scatter, contents?_mapBytes, hb, Option.map_some]
  simp [hidx, hplace']

theorem contents?_scatter_of_not_mem {results : List Bytes} (h : other ∉ arguments) :
    (m.scatter arguments results).contents? other = m.contents? other := by
  rw [scatter, contents?_mapBytes, contents?]
  cases hother : m.buffer? other with
  | none => rfl
  | some b =>
    have hidx : arguments.idxOf? b.id = none := by
      rw [id_of_buffer? hother]
      exact List.idxOf?_eq_none_iff.mpr h
    simp [hidx]

-- A kernel that is run on buffers of their own takes each from what it held to what it was left with.
theorem run_of_holds (h : m.Holds arguments contents) (hnodup : arguments.Nodup) (kernel : Kernel)
    (geometry : Geometry) {results : List Bytes} {fault : Option KernelFault}
    (hrun : (kernel { geometry, arguments := contents }).run contents = (results, fault)) :
    ∃ m', m.run kernel arguments geometry = (fault.map .kernel, m') ∧ m'.Holds arguments results ∧
      (∀ other ∉ arguments, m'.contents? other = m.contents? other) ∧ (m.Sound → m'.Sound) := by
  have hlengths := Script.run_lengths (kernel { geometry, arguments := contents }) contents
  rw [hrun] at hlengths
  have hlength : results.length = contents.length := by
    simpa using congrArg List.length hlengths
  refine ⟨m.scatter arguments results, ?_, holds_scatter h hnodup hlength,
    fun _ => contents?_scatter_of_not_mem, sound_mapBytes _⟩
  simp only [run, gather_of_holds h, hrun]

end

-- What the commands of a device can make of a memory that was empty.
inductive Reached : Memory → Prop
  | fresh (capacity : Nat) : Reached { capacity }
  | allocate {m m' : Memory} {size : Nat} {id : BufferId} (h : Reached m)
    (ha : m.allocate size = .ok (id, m')) : Reached m'
  | release {m : Memory} (id : BufferId) (h : Reached m) : Reached (m.release id)
  | write {m m' : Memory} {id : BufferId} {data : Bytes} (h : Reached m)
    (hw : m.write id data = .ok m') : Reached m'
  | run {m : Memory} (kernel : Kernel) (arguments : List BufferId) (geometry : Geometry) (h : Reached m) :
    Reached (m.run kernel arguments geometry).2

theorem Reached.sound (h : Reached m) : m.Sound := by
  induction h with
  | fresh => exact sound_of_nil rfl
  | allocate _ ha ih => exact (allocate_ok ih ha).1
  | release id _ ih => exact (release_frame _ id).1 ih
  | write _ hw ih =>
    unfold Memory.write at hw
    split at hw
    case h_1 => cases hw
    case h_2 =>
      split at hw <;> cases hw
      exact sound_mapBytes _ ih
  | run kernel arguments geometry _ ih =>
    unfold Memory.run
    split
    case h_1 => exact ih
    case h_2 => exact sound_mapBytes _ ih

end Offload.Memory
