import Mathlib.Algebra.BigOperators.Group.List.Basic
import Mathlib.Algebra.GroupWithZero.Nat
import Offload.Proofs.Memory

/-!
What a device memory accounts for: the keys and sizes of its buffers. Allocating adds one, releasing
takes one away, and nothing else changes them.
-/

namespace Offload.Memory

variable {m m' : Memory} {id : BufferId} {size : Nat} {rest : List (BufferId × Nat)}

-- The buffers there are, each with the bytes it was allocated with.
def live (m : Memory) : List (BufferId × Nat) :=
  m.buffers.map fun b => (b.id, b.size)

-- The keys are apart, the next one is new, and all bytes are accounted for.
structure Orderly (m : Memory) : Prop where
  nodup     : (m.buffers.map Buffer.id).Nodup
  sound     : m.Sound
  allocated : m.allocated = (m.live.map Prod.snd).sum
  bytes     : ∀ b ∈ m.buffers, b.bytes.length = b.size

-- The same buffers are there, whatever they hold by now.
structure Alike (m m' : Memory) : Prop where
  live    : m'.live = m.live
  orderly : m.Orderly → m'.Orderly

theorem Alike.refl (m : Memory) : Alike m m :=
  ⟨rfl, id⟩

theorem Alike.trans {m'' : Memory} (h : Alike m m') (h' : Alike m' m'') : Alike m m'' :=
  ⟨h'.live.trans h.live, h'.orderly ∘ h.orderly⟩

theorem map_fst_live (m : Memory) : m.live.map Prod.fst = m.buffers.map Buffer.id := by
  simp [live, Function.comp_def]

theorem orderly_of_nil (h : m.buffers = []) (hallocated : m.allocated = 0) : m.Orderly where
  nodup := by simp [h]
  sound := sound_of_nil h
  allocated := by simp [live, h, hallocated]
  bytes := by simp [h]

theorem Orderly.allocated_eq_zero (h : m.Orderly) (hlive : m.live = []) :
    m.buffers = [] ∧ m.allocated = 0 := by
  refine ⟨by simpa [live] using hlive, ?_⟩
  rw [h.allocated, hlive]
  rfl

-- A buffer that is accounted for is there, and as long as it is said to be.
theorem Orderly.buffer?_of_mem (h : m.Orderly) (hmem : (id, size) ∈ m.live) :
    ∃ b, m.buffer? id = some b ∧ b.bytes.length = size := by
  obtain ⟨b, hb, heq⟩ := List.mem_map.mp hmem
  obtain ⟨rfl, rfl⟩ := Prod.mk.inj heq
  obtain ⟨b', hb'⟩ : ∃ b', m.buffer? b.id = some b' :=
    Option.isSome_iff_exists.mp (List.find?_isSome.mpr ⟨b, hb, by simp⟩)
  have hsame : b' = b :=
    List.inj_on_of_nodup_map h.nodup (List.mem_of_find?_eq_some hb') hb (id_of_buffer? hb')
  exact ⟨b, hsame ▸ hb', h.bytes b hb⟩

theorem allocate_live (h : m.Orderly) (hm : m.allocate size = .ok (id, m')) :
    m'.live = m.live ++ [(id, size)] ∧ m'.Orderly := by
  have hsound := (allocate_ok h.sound hm).1
  unfold allocate at hm
  split at hm <;> cases hm
  have hlive : live { m with
      buffers := m.buffers ++ [{ id := ⟨m.next⟩, size, bytes := Bytes.zeros size }]
      allocated := m.allocated + size
      next := m.next + 1 } = m.live ++ [(⟨m.next⟩, size)] := by simp [live]
  refine ⟨hlive, ?_, hsound, ?_, ?_⟩
  case refine_1 =>
    have hnew : ∀ b ∈ m.buffers, b.id ≠ ⟨m.next⟩ := fun b hb heq => by
      have hlt := h.sound b hb
      rw [heq] at hlt
      exact Nat.lt_irrefl _ hlt
    simpa [List.nodup_append, h.nodup] using hnew
  case refine_2 =>
    rw [hlive]
    simp [h.allocated]
  case refine_3 =>
    intro b hb
    rcases List.mem_append.mp hb with hb | hb
    case inl => exact h.bytes b hb
    case inr =>
      rw [List.mem_singleton.mp hb]
      exact Bytes.zeros_length size

theorem release_live (h : m.Orderly) (hm : m.live.Perm ((id, size) :: rest)) :
    (m.release id).live.Perm rest ∧ (m.release id).Orderly := by
  obtain ⟨b, hb, _⟩ := h.buffer?_of_mem (hm.mem_iff.mpr List.mem_cons_self)
  have hnodup : (((id, size) :: rest).map Prod.fst).Nodup :=
    (hm.map Prod.fst).nodup_iff.mp (map_fst_live m ▸ h.nodup)
  have hne : ∀ x ∈ rest, x.1 ≠ id := fun x hx heq =>
    (List.nodup_cons.mp hnodup).1 (heq ▸ (List.mem_map_of_mem hx : x.1 ∈ rest.map Prod.fst))
  have hsize : b.size = size := by
    have hmem : (b.id, b.size) ∈ m.live := List.mem_map.mpr ⟨b, List.mem_of_find?_eq_some hb, rfl⟩
    rw [id_of_buffer? hb] at hmem
    rcases List.mem_cons.mp (hm.mem_iff.mp hmem) with heq | hmem
    case inl => exact (Prod.mk.inj heq).2
    case inr => exact (hne _ hmem rfl).elim
  have hrelease : m.release id =
      { m with buffers := m.buffers.filter (·.id ≠ id), allocated := m.allocated - b.size } := by
    simp only [release, hb]
  have hlive : (m.release id).live = m.live.filter (·.1 ≠ id) := by
    rw [hrelease, live, live, List.filter_map]
    rfl
  have hperm : (m.release id).live.Perm rest := by
    have hfilter := hm.filter fun x => decide (x.1 ≠ id)
    rw [List.filter_cons_of_neg (by simp),
      List.filter_eq_self.mpr fun x hx => decide_eq_true (hne x hx)] at hfilter
    exact hlive ▸ hfilter
  refine ⟨hperm, ?_, (release_frame m id).1 h.sound, ?_, ?_⟩
  case refine_1 =>
    rw [hrelease]
    exact h.nodup.sublist (List.filter_sublist.map _)
  case refine_2 =>
    have hsum := (hm.map Prod.snd).sum_eq
    have hrest := (hperm.map Prod.snd).sum_eq
    have hallocated : (m.release id).allocated = m.allocated - b.size := by rw [hrelease]
    rw [hallocated, h.allocated, hsum, hsize, hrest]
    simp
  case refine_3 =>
    rw [hrelease]
    exact fun b hb => h.bytes b (List.mem_of_mem_filter hb)

theorem mapBytes_alike {f : Buffer → Bytes}
    (hf : m.Orderly → ∀ b ∈ m.buffers, (f b).length = b.bytes.length) : Alike m (m.mapBytes f) := by
  have hlive : (m.mapBytes f).live = m.live := by simp [live, mapBytes]
  refine ⟨hlive, fun h => ⟨?_, sound_mapBytes f h.sound, ?_, ?_⟩⟩
  case refine_1 => rw [ids_mapBytes]; exact h.nodup
  case refine_2 => rw [hlive]; exact h.allocated
  case refine_3 =>
    intro b hb
    obtain ⟨b', hb', rfl⟩ := List.mem_map.mp hb
    exact (hf h b' hb').trans (h.bytes b' hb')

theorem write_alike {data : Bytes} (h : m.write id data = .ok m') : Alike m m' := by
  unfold write at h
  split at h
  case h_1 => cases h
  case h_2 b hb =>
    split at h
    case isTrue => cases h
    case isFalse hfit =>
      cases h
      refine mapBytes_alike fun ho x hx => ?_
      split
      case isFalse => rfl
      case isTrue hid =>
        have hsame : x = b := List.inj_on_of_nodup_map ho.nodup hx (List.mem_of_find?_eq_some hb)
          (hid.trans (id_of_buffer? hb).symm)
        exact Bytes.overlay_length (hsame ▸ Nat.le_of_not_lt hfit)

-- A write fails only if the buffer is not there, or shorter than what is written.
theorem write_live (h : m.Orderly) {data : Bytes} (hmem : (id, data.length) ∈ m.live) :
    ∃ m', m.write id data = .ok m' := by
  obtain ⟨b, hb, hlength⟩ := h.buffer?_of_mem hmem
  have hcontents : m.contents? id = some b.bytes := by rw [contents?, hb, Option.map_some]
  obtain ⟨m', hm', _⟩ := write_ok hcontents (Nat.le_of_eq hlength.symm)
  exact ⟨m', hm'⟩

theorem read_live (h : m.Orderly) {hostSize offset length : Nat} (hmem : (id, size) ∈ m.live)
    (hlength : length ≤ size) (hhost : offset + length ≤ hostSize) :
    ∃ data, m.read id hostSize offset length = .ok data := by
  obtain ⟨b, hb, hsize⟩ := h.buffer?_of_mem hmem
  refine ⟨b.bytes.take length, ?_⟩
  rw [read_eq (by rw [contents?, hb, Option.map_some]) (hsize ▸ hlength),
    if_neg (Nat.not_lt_of_le hhost)]

-- What is read fits where it is to go.
theorem read_fits {hostSize offset length : Nat} {data : Bytes}
    (h : m.read id hostSize offset length = .ok data) : offset + data.length ≤ hostSize := by
  unfold read at h
  split at h
  case h_1 => cases h
  case h_2 =>
    split at h
    case isTrue => cases h
    case isFalse =>
      split at h <;> cases h
      rw [List.length_take]
      omega

theorem run_alike (m : Memory) (kernel : Kernel) (arguments : List BufferId) (geometry : Geometry) :
    Alike m (m.run kernel arguments geometry).2 := by
  unfold run
  split
  case h_1 => exact .refl m
  case h_2 contents hgather =>
    dsimp only
    refine mapBytes_alike fun ho b hb => ?_
    split
    case h_2 => rfl
    case h_1 place hplace =>
      obtain ⟨hlt, heq, _⟩ := List.idxOf?_eq_some_iff.mp hplace
      have hlengths := Script.run_lengths (kernel { geometry, arguments := contents }) contents
      have hcontents : contents = arguments.map fun id => ((m.buffer? id).map Buffer.bytes).getD [] := by
        unfold gather at hgather
        split at hgather <;> cases hgather
        rfl
      have hbuffer : m.buffer? b.id = some b := by
        have hmem : (b.id, b.size) ∈ m.live := List.mem_map.mpr ⟨b, hb, rfl⟩
        obtain ⟨b', hb', _⟩ := ho.buffer?_of_mem hmem
        have hsame := List.inj_on_of_nodup_map ho.nodup (List.mem_of_find?_eq_some hb') hb
          (id_of_buffer? hb')
        exact hsame ▸ hb'
      -- the argument held what the buffer holds, and its length is kept
      have hplace : (contents.map List.length)[place]? = some b.bytes.length := by
        simp [hcontents, hlt, heq, hbuffer]
      rw [← hlengths, List.getElem?_map] at hplace
      obtain ⟨result, hresult, hlength⟩ := Option.map_eq_some_iff.mp hplace
      rw [List.getD_eq_getElem?_getD, hresult, Option.getD_some, hlength]

end Offload.Memory
