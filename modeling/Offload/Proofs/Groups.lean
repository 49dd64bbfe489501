import Mathlib.Data.List.Forall2
import Mathlib.Order.Bounds.Basic
import Offload.Geometry
import Offload.Proofs.Action

/-!
How a launch is cut into groups: the search for a group size finds the greatest divisor that it may and climbs
with its cap, work items are rounded up to the least multiple, and every launch is refused or shaped as the
class of its device has it.
-/

namespace Offload

variable {n k cap multiple global : Nat}

-- The search passes every number on its way down, and one divides whatever it comes to.
theorem divisorDownFrom_isGreatest (hk : 0 < k) : IsGreatest {d | d ∣ n ∧ d ≤ k} (divisorDownFrom n k) := by
  induction k with
  | zero => cases hk
  | succ k ih =>
    unfold divisorDownFrom
    split
    case isTrue hdvd => exact ⟨⟨Nat.dvd_of_mod_eq_zero hdvd, Nat.le_refl _⟩, fun d hd => hd.2⟩
    case isFalse hdvd =>
      have hpos : 0 < k := by
        refine Nat.pos_of_ne_zero fun hzero => hdvd ?_
        rw [hzero, Nat.zero_add, Nat.mod_one]
      obtain ⟨⟨hdivides, hle⟩, hgreatest⟩ := ih hpos
      refine ⟨⟨hdivides, Nat.le_succ_of_le hle⟩, fun d ⟨hd, hdle⟩ => ?_⟩
      cases Nat.le_succ_iff.mp hdle with
      | inl hless => exact hgreatest ⟨hd, hless⟩
      | inr heq =>
        subst heq
        exact absurd (Nat.mod_eq_zero_of_dvd hd) hdvd

-- A search for divisors up to its start, by another name of what it may find.
theorem largestDivisor_isGreatest {P : Nat → Prop}
    (h : ∀ d, d ∣ global → (d ≤ max (min (if cap = global then cap / 2 else cap) global) 1 ↔ P d)) :
    IsGreatest {d | d ∣ global ∧ P d} (largestDivisor global cap) := by
  have hset : {d | d ∣ global ∧ P d} =
      {d | d ∣ global ∧ d ≤ max (min (if cap = global then cap / 2 else cap) global) 1} :=
    Set.ext fun d => and_congr_right fun hd => (h d hd).symm
  rw [hset]
  exact divisorDownFrom_isGreatest (Nat.lt_of_lt_of_le Nat.one_pos (Nat.le_max_right _ _))

-- What divides a number and is less goes into it twice at least.
theorem two_mul_le_of_dvd {d : Nat} (hdvd : d ∣ n) (hless : d < n) : d * 2 ≤ n := by
  obtain ⟨times, rfl⟩ := hdvd
  refine Nat.mul_le_mul_left d ?_
  by_contra hfew
  have hone : d * times ≤ d * 1 := Nat.mul_le_mul_left d (by omega)
  omega

-- No group is larger than its cap, and no size that the cap lets it have is passed over. A cap of the whole
-- range stands for less than that, and a cap of nothing for a single item.
def GroupSize (global cap group : Nat) : Prop :=
  if cap = 0 then group = 1
  else if cap = global ∧ 1 < global then IsGreatest {d | d ∣ global ∧ d < global} group
  else IsGreatest {d | d ∣ global ∧ d ≤ cap} group

theorem largestDivisor_groupSize (hglobal : 0 < global) (cap : Nat) :
    GroupSize global cap (largestDivisor global cap) := by
  have hle {d : Nat} (hd : d ∣ global) : d ≤ global := Nat.le_of_dvd hglobal hd
  unfold GroupSize
  split
  case isTrue hnone =>
    have hsearch : IsGreatest {d | d ∣ global ∧ d ≤ 1} (largestDivisor global cap) := by
      refine largestDivisor_isGreatest fun d _ => ?_
      rw [if_neg (by omega)]
      omega
    have hpos := Nat.pos_of_dvd_of_pos hsearch.1.1 hglobal
    exact Nat.le_antisymm hsearch.1.2 hpos
  case isFalse hsome =>
    split
    case isTrue hwhole =>
      refine largestDivisor_isGreatest fun d hd => ?_
      have hhalf := two_mul_le_of_dvd hd
      rw [if_pos hwhole.1]
      omega
    case isFalse hpart =>
      refine largestDivisor_isGreatest fun d hd => ?_
      have hwithin := hle hd
      split <;> omega

example : largestDivisor 12 5 = 4 ∧ largestDivisor 256 256 = 128 := by
  decide

theorem GroupSize.dvd {group : Nat} (h : GroupSize global cap group) : group ∣ global := by
  unfold GroupSize at h
  split at h
  case isTrue => exact h ▸ Nat.one_dvd global
  case isFalse =>
    split at h
    case isTrue => exact h.1.1
    case isFalse => exact h.1.1

-- What may divide a range into groups: single items, and what the cap lets in. It lets in the range itself only
-- if it lies beyond it.
def Candidate (global cap d : Nat) : Prop :=
  d ∣ global ∧ (d = 1 ∨ d ≤ cap ∧ (d < global ∨ global < cap))

theorem Candidate.mono {cap' d : Nat} (hcaps : cap ≤ cap') (h : Candidate global cap d) :
    Candidate global cap' d := by
  have hcap := h.2
  exact ⟨h.1, by omega⟩

theorem largestDivisor_greatest (hglobal : 0 < global) (cap : Nat) :
    IsGreatest {d | Candidate global cap d} (largestDivisor global cap) := by
  refine largestDivisor_isGreatest fun d hd => ?_
  have hpos := Nat.pos_of_dvd_of_pos hd hglobal
  have hle := Nat.le_of_dvd hglobal hd
  have hhalf := two_mul_le_of_dvd hd
  split <;> omega

-- A larger cap never leads to a smaller group. What a cap of the whole range steps back over is no loss: nothing
-- but the range itself divides it and is more than half of it.
theorem largestDivisor_climbs (hglobal : 0 < global) :
    (∀ cap cap', cap ≤ cap' → largestDivisor global cap ≤ largestDivisor global cap') ∧
    largestDivisor global (global - 1) = largestDivisor global global ∧
    (1 < global → largestDivisor global global * 2 ≤ global) ∧
    ∀ cap, global < cap → largestDivisor global cap = global := by
  have hgreatest := largestDivisor_greatest hglobal
  refine ⟨fun cap cap' hcaps => ?_, ?_, fun hmany => ?_, fun cap hbeyond => ?_⟩
  case refine_1 => exact (hgreatest cap).mono (hgreatest cap') fun _ => Candidate.mono hcaps
  case refine_2 =>
    have hsame : {d | Candidate global (global - 1) d} = {d | Candidate global global d} :=
      Set.ext fun d => and_congr_right fun _ => by omega
    exact (hsame ▸ hgreatest (global - 1)).unique (hgreatest global)
  case refine_3 =>
    obtain ⟨⟨hdvd, hone | hproper⟩, _⟩ := hgreatest global
    case inl => omega
    case inr => exact two_mul_le_of_dvd hdvd (by omega)
  case refine_4 =>
    have hwhole : Candidate global cap global := ⟨Nat.dvd_refl global, by omega⟩
    exact (hgreatest cap).unique ⟨hwhole, fun d hd => Nat.le_of_dvd hglobal hd.1⟩

-- Twelve items are cut into groups of four, of six, of six again and of all twelve.
theorem dozen_climbs : (0 < 12 ∧ 5 ≤ 11 ∧ 1 < 12 ∧ 12 < 13) ∧
    largestDivisor 12 5 ≤ largestDivisor 12 11 ∧ largestDivisor 12 11 = largestDivisor 12 12 ∧
    largestDivisor 12 12 * 2 ≤ 12 ∧ largestDivisor 12 13 = 12 := by
  refine ⟨by decide, ?_, ?_, ?_, ?_⟩
  case refine_1 => exact (largestDivisor_climbs (by decide)).1 5 11 (by decide)
  case refine_2 => exact (largestDivisor_climbs (by decide)).2.1
  case refine_3 => exact (largestDivisor_climbs (by decide)).2.2.1 (by decide)
  case refine_4 => exact (largestDivisor_climbs (by decide)).2.2.2 13 (by decide)

theorem roundUp_isLeast (h : 0 < multiple) (n : Nat) :
    IsLeast {m | multiple ∣ m ∧ n ≤ m} (roundUp n multiple) := by
  unfold roundUp
  split
  case isTrue hdvd => exact ⟨⟨Nat.dvd_of_mod_eq_zero hdvd, Nat.le_refl n⟩, fun m hm => hm.2⟩
  case isFalse hdvd =>
    have hbelow : n < (n / multiple + 1) * multiple := (Nat.div_lt_iff_lt_mul h).mp (Nat.lt_succ_self _)
    refine ⟨⟨Nat.dvd_mul_left _ _, Nat.le_of_lt hbelow⟩, fun m ⟨hm, hle⟩ => ?_⟩
    have hless : n < m := Nat.lt_of_le_of_ne hle fun heq => hdvd (Nat.mod_eq_zero_of_dvd (heq ▸ hm))
    obtain ⟨times, rfl⟩ := hm
    rw [Nat.mul_comm multiple] at hless ⊢
    exact Nat.mul_le_mul_right multiple ((Nat.div_lt_iff_lt_mul h).mpr hless)

theorem Tuning.validate_ok {t : Tuning} (h : t.validate = .ok ⟨⟩) :
    0 < t.gpuWarp ∧ 0 < t.fpgaWarp ∧ 0 < t.fpgaLocalWork := by
  unfold Tuning.validate at h
  dsimp only at h
  split at h
  case h_1 => cases h
  case h_2 hnone =>
    have hall := List.find?_eq_none.mp hnone
    simp only [List.forall_mem_cons, beq_iff_eq] at hall
    exact ⟨Nat.pos_of_ne_zero hall.1, Nat.pos_of_ne_zero hall.2.1, Nat.pos_of_ne_zero hall.2.2.1⟩

-- The most work items that a group may have along a dimension.
def Limits.items (limits : Limits) (dimension : Nat) : Nat :=
  limits.maxItems.toList.getD dimension 0

namespace Geometry

variable {domain sizes : List Nat} {threads : Nat} {limits : Limits} {t : Tuning} {g : Geometry}

-- The sizes that a launch starts from.
def base (domain : List Nat) (threads : Nat) : List Nat :=
  domain.map fun n => if 0 < threads then threads else n

-- The work items of a launch along a dimension that starts from a size.
def GlobalSize (limits : Limits) (t : Tuning) (n global : Nat) : Prop :=
  match limits.deviceClass with
  | .gpu => if t.adjustIrregular then IsLeast {m | t.gpuWarp ∣ m ∧ n ≤ m} global else global = n
  | .cpu => global = n
  | .constrained => IsLeast {m | t.fpgaWarp ∣ m ∧ n ≤ m} global

theorem GlobalSize.le (h : GlobalSize limits t n global) : n ≤ global := by
  unfold GlobalSize at h
  split at h
  case h_1 =>
    split at h
    case isTrue => exact h.1.2
    case isFalse => exact Nat.le_of_eq h.symm
  case h_2 => exact Nat.le_of_eq h.symm
  case h_3 => exact h.1.2

-- The work items of a group along a dimension of a launch.
def LocalSize (limits : Limits) (t : Tuning) (rank dimension global group : Nat) : Prop :=
  match limits.deviceClass with
  | .gpu => GroupSize global (min (limits.items dimension) (gpuBlock t rank dimension)) group
  | .cpu => GroupSize global (min (limits.items dimension) t.cpuBlock) group
  | .constrained => group = t.fpgaLocalWork

-- A launch that starts from these sizes, as the class of the device has it.
structure Shaped (limits : Limits) (t : Tuning) (sizes : List Nat) (g : Geometry) : Prop where
  global : List.Forall₂ (GlobalSize limits t) sizes g.global
  rank   : g.group.length = g.rank
  group  : ∀ dimension global group, g.global[dimension]? = some global →
    g.group[dimension]? = some group → LocalSize limits t g.rank dimension global group
  whole  : List.zipWith (· * ·) g.groups g.group = g.global

-- Groups that divide their dimensions leave no work item over.
theorem zipWith_groups (hrank : g.group.length = g.rank) (h : ∀ dimension global group : Nat,
      g.global[dimension]? = some global → g.group[dimension]? = some group → group ∣ global) :
    List.zipWith (· * ·) g.groups g.group = g.global := by
  refine List.ext_getElem? fun dimension => ?_
  rw [List.getElem?_zipWith, groups, List.getElem?_zipWith]
  cases hglobal : g.global[dimension]? with
  | none => rfl
  | some global =>
    have hlt : dimension < g.group.length := hrank ▸ (List.getElem?_eq_some_iff.mp hglobal).1
    have hgroup := List.getElem?_eq_getElem hlt
    rw [hgroup]
    exact congrArg some (Nat.div_mul_cancel (h _ _ _ hglobal hgroup))

theorem getElem?_divide (globals : List Nat) (limits : Limits) (block : Nat → Nat) (dimension : Nat) :
    (divide globals limits block).group[dimension]? = globals[dimension]?.map fun global =>
      largestDivisor global (min (limits.items dimension) (block dimension)) :=
  List.getElem?_mapIdx

theorem divide_shaped {globals : List Nat} {block : Nat → Nat} (hpos : ∀ global ∈ globals, 0 < global)
    (hglobal : List.Forall₂ (GlobalSize limits t) sizes globals)
    (hlocal : ∀ dimension global group, GroupSize global (min (limits.items dimension) (block dimension)) group →
      LocalSize limits t globals.length dimension global group) :
    Shaped limits t sizes (divide globals limits block) := by
  have hsearch {dimension global group : Nat} (hglobal : globals[dimension]? = some global)
      (hgroup : (divide globals limits block).group[dimension]? = some group) :
      GroupSize global (min (limits.items dimension) (block dimension)) group := by
    rw [getElem?_divide, hglobal] at hgroup
    cases hgroup
    exact largestDivisor_groupSize (hpos global (List.mem_of_getElem? hglobal)) _
  have hrank : (divide globals limits block).group.length = globals.length := List.length_mapIdx
  constructor
  case global => exact hglobal
  case rank => exact hrank
  case group => exact fun _ _ _ hglobal hgroup => hlocal _ _ _ (hsearch hglobal hgroup)
  case whole => exact zipWith_groups hrank fun _ _ _ hglobal hgroup => (hsearch hglobal hgroup).dvd

theorem pos_of_not_mem (h : 0 ∉ sizes) : ∀ n ∈ sizes, 0 < n :=
  fun _ hn => Nat.pos_of_ne_zero fun hzero => h (hzero ▸ hn)

theorem pos_of_roundUp (h : 0 < multiple) (hpos : ∀ n ∈ sizes, 0 < n) :
    ∀ global ∈ sizes.map (roundUp · multiple), 0 < global := by
  simp only [List.forall_mem_map]
  exact fun n hn => Nat.lt_of_lt_of_le (hpos n hn) (roundUp_isLeast h n).1.2

theorem gpu_shaped (hclass : limits.deviceClass = .gpu) (hwarp : 0 < t.gpuWarp) (hpos : ∀ n ∈ sizes, 0 < n) :
    Shaped limits t sizes (gpu sizes limits t) := by
  have hlocal (rank dimension global group : Nat)
      (h : GroupSize global (min (limits.items dimension) (gpuBlock t rank dimension)) group) :
      LocalSize limits t rank dimension global group := by
    rwa [LocalSize, hclass]
  unfold gpu
  cases hadjust : t.adjustIrregular with
  | false =>
    refine divide_shaped hpos ?_ (hlocal _)
    simp [GlobalSize, hclass, hadjust]
  | true =>
    refine divide_shaped (pos_of_roundUp hwarp hpos) ?_ (hlocal _)
    simp [GlobalSize, hclass, hadjust, List.forall₂_map_right_iff, List.forall₂_same, roundUp_isLeast hwarp]

theorem cpu_shaped (hclass : limits.deviceClass = .cpu) (hpos : ∀ n ∈ sizes, 0 < n) :
    Shaped limits t sizes (cpu sizes limits t) := by
  refine divide_shaped hpos ?_ fun dimension global group h => ?_
  case refine_1 => simp [GlobalSize, hclass]
  case refine_2 => rwa [LocalSize, hclass]

theorem constrainedGroup_eq (hlocal : 0 < t.fpgaLocalWork) (hglobal : 0 < global) :
    constrainedGroup t global =
      if t.fpgaLocalWork ∣ global then .ok t.fpgaLocalWork
      else .error (.config (.belowLocalWork t.fpgaLocalWork global)) := by
  have hstart : 0 < min t.fpgaLocalWork global := Nat.lt_min.mpr ⟨hlocal, hglobal⟩
  obtain ⟨⟨hdvd, hle⟩, hgreatest⟩ := divisorDownFrom_isGreatest (n := global) hstart
  have hlimit : divisorDownFrom global (min t.fpgaLocalWork global) ≤ t.fpgaLocalWork :=
    Nat.le_trans hle (Nat.min_le_left _ _)
  unfold constrainedGroup
  dsimp only
  split
  case isTrue hless =>
    have hunfit : ¬t.fpgaLocalWork ∣ global := fun hfits => by
      have hfound := hgreatest ⟨hfits, Nat.le_min.mpr ⟨Nat.le_refl _, Nat.le_of_dvd hglobal hfits⟩⟩
      omega
    rw [if_neg hunfit]
    rfl
  case isFalse hfound =>
    have heq : divisorDownFrom global (min t.fpgaLocalWork global) = t.fpgaLocalWork := by omega
    rw [heq] at hdvd ⊢
    rw [if_pos hdvd]
    rfl

theorem mapM_constrainedGroup {globals : List Nat} (hlocal : 0 < t.fpgaLocalWork)
    (hpos : ∀ global ∈ globals, 0 < global) :
    globals.mapM (constrainedGroup t) =
      match globals.find? (¬t.fpgaLocalWork ∣ ·) with
      | some global => .error (.config (.belowLocalWork t.fpgaLocalWork global))
      | none => .ok (globals.map fun _ => t.fpgaLocalWork) := by
  induction globals with
  | nil => rfl
  | cons global globals ih =>
    have ⟨hfirst, hrest⟩ := List.forall_mem_cons.mp hpos
    rw [List.mapM_cons, constrainedGroup_eq hlocal hfirst]
    by_cases hdvd : t.fpgaLocalWork ∣ global
    case neg =>
      rw [if_neg hdvd, List.find?_cons_of_pos (by simpa using hdvd)]
      rfl
    case pos =>
      rw [if_pos hdvd, List.find?_cons_of_neg (by simpa using hdvd)]
      simp only [bind, Except.bind]
      rw [ih hrest]
      cases globals.find? (¬t.fpgaLocalWork ∣ ·) <;> rfl

-- The first dimension that the group does not divide is what a launch is refused for.
theorem constrained_eq (hlocal : 0 < t.fpgaLocalWork) (hwarp : 0 < t.fpgaWarp) (hpos : ∀ n ∈ sizes, 0 < n) :
    constrained sizes t =
      match (sizes.map (roundUp · t.fpgaWarp)).find? (¬t.fpgaLocalWork ∣ ·) with
      | some global => .error (.config (.belowLocalWork t.fpgaLocalWork global))
      | none => .ok {
          global := sizes.map (roundUp · t.fpgaWarp)
          group := sizes.map fun _ => t.fpgaLocalWork } := by
  unfold constrained
  dsimp only
  rw [mapM_constrainedGroup hlocal (pos_of_roundUp hwarp hpos), List.map_map]
  cases (sizes.map (roundUp · t.fpgaWarp)).find? (¬t.fpgaLocalWork ∣ ·) <;> rfl

theorem constrained_ok (hlocal : 0 < t.fpgaLocalWork) (hwarp : 0 < t.fpgaWarp) (hpos : ∀ n ∈ sizes, 0 < n) :
    constrained sizes t = .ok g ↔ (∀ n ∈ sizes, t.fpgaLocalWork ∣ roundUp n t.fpgaWarp) ∧
      g = { global := sizes.map (roundUp · t.fpgaWarp), group := sizes.map fun _ => t.fpgaLocalWork } := by
  have hall : (sizes.map (roundUp · t.fpgaWarp)).find? (¬t.fpgaLocalWork ∣ ·) = none ↔
      ∀ n ∈ sizes, t.fpgaLocalWork ∣ roundUp n t.fpgaWarp := by
    simp
  rw [constrained_eq hlocal hwarp hpos, ← hall]
  cases (sizes.map (roundUp · t.fpgaWarp)).find? (¬t.fpgaLocalWork ∣ ·) with
  | some global => simp
  | none => simp [eq_comm]

theorem constrained_shaped (hclass : limits.deviceClass = .constrained) (hlocal : 0 < t.fpgaLocalWork)
    (hwarp : 0 < t.fpgaWarp) (hpos : ∀ n ∈ sizes, 0 < n) (h : constrained sizes t = .ok g) :
    Shaped limits t sizes g := by
  obtain ⟨hdvd, rfl⟩ := (constrained_ok hlocal hwarp hpos).mp h
  have hgroup {dimension group : Nat} (h : (sizes.map fun _ => t.fpgaLocalWork)[dimension]? = some group) :
      group = t.fpgaLocalWork := by
    obtain ⟨_, _, rfl⟩ := List.mem_map.mp (List.mem_of_getElem? h)
    rfl
  have hrank : (sizes.map fun _ => t.fpgaLocalWork).length = (sizes.map (roundUp · t.fpgaWarp)).length := by
    simp
  constructor
  case global =>
    simp [GlobalSize, hclass, List.forall₂_map_right_iff, List.forall₂_same, roundUp_isLeast hwarp]
  case rank => exact hrank
  case group =>
    intro dimension global group _ h
    rw [LocalSize, hclass]
    exact hgroup h
  case whole =>
    refine zipWith_groups hrank fun dimension global group hglobal h => ?_
    obtain ⟨n, hn, rfl⟩ := List.mem_map.mp (List.mem_of_getElem? hglobal)
    exact hgroup h ▸ hdvd n hn

-- Whatever is wrong with a launch, it is the fault of whoever asks for it, and not of the kernels.
theorem config_launch (domain : List Nat) (threads : Nat) (limits : Limits) (t : Tuning) :
    Erring (fun e => ∃ cause, e = .config cause ∧ ∀ kernel device, cause ≠ .missingKernel kernel device)
      (launch domain threads limits t) := by
  have hvalidate : Erring (fun e => ∃ cause, e = .config cause ∧
      ∀ kernel device, cause ≠ .missingKernel kernel device) t.validate := by
    unfold Tuning.validate
    dsimp only
    split
    case h_1 => exact .throw ⟨_, rfl, nofun⟩
    case h_2 => exact .pure _
  have hgroup (n : Nat) : Erring (fun e => ∃ cause, e = .config cause ∧
      ∀ kernel device, cause ≠ .missingKernel kernel device) (constrainedGroup t n) := by
    unfold constrainedGroup
    dsimp only
    split
    case isTrue => exact .throw ⟨_, rfl, nofun⟩
    case isFalse => exact .pure _
  unfold launch
  refine .bind hvalidate fun _ => ?_
  dsimp only
  split
  case isTrue => exact .throw ⟨_, rfl, nofun⟩
  case isFalse =>
    split
    case h_1 => exact .throw ⟨_, rfl, nofun⟩
    case h_2 =>
      split
      case h_1 => exact .pure _
      case h_2 => exact .pure _
      case h_3 => exact .bind (.mapM hgroup _) fun _ => .pure _

theorem launch_ok (h : launch domain threads limits t = .ok g) :
    t.validate = .ok ⟨⟩ ∧ 0 < domain.length ∧ domain.length ≤ 3 ∧ 0 ∉ base domain threads := by
  unfold launch at h
  obtain ⟨⟨⟩, ht, h⟩ := bind_eq_ok.mp h
  dsimp only at h
  split at h
  case isTrue => cases h
  case isFalse hrank =>
    cases hfind : (base domain threads).findIdx? (· == 0) with
    | none =>
      have hsizes : 0 ∉ base domain threads := fun hzero => nomatch List.findIdx?_eq_none_iff.mp hfind 0 hzero
      exact ⟨ht, by omega, by omega, hsizes⟩
    | some dimension =>
      rw [base] at hfind
      rw [hfind] at h
      cases h

theorem launch_refused (h : domain.length = 0 ∨ 3 < domain.length ∨ 0 ∈ base domain threads) :
    ∃ cause, launch domain threads limits t = .error (.config cause) := by
  cases hlaunch : launch domain threads limits t with
  | error e =>
    obtain ⟨cause, rfl, -⟩ := config_launch domain threads limits t e hlaunch
    exact ⟨cause, rfl⟩
  | ok g =>
    obtain ⟨_, hfirst, hlast, hsizes⟩ := launch_ok hlaunch
    rcases h with hnone | hmany | hzero
    case inl => omega
    case inr.inl => omega
    case inr.inr => exact absurd hzero hsizes

theorem launch_eq (ht : t.validate = .ok ⟨⟩) (hfirst : 0 < domain.length) (hlast : domain.length ≤ 3)
    (hsizes : 0 ∉ base domain threads) : launch domain threads limits t =
      match limits.deviceClass with
      | .gpu => .ok (gpu (base domain threads) limits t)
      | .cpu => .ok (cpu (base domain threads) limits t)
      | .constrained => constrained (base domain threads) t := by
  have hfind : (base domain threads).findIdx? (· == 0) = none := by
    refine List.findIdx?_eq_none_iff.mpr fun n hn => ?_
    simpa using fun hzero : n = 0 => hsizes (hzero ▸ hn)
  rw [base] at hfind ⊢
  unfold launch
  rw [ht]
  simp only [bind, Except.bind]
  rw [if_neg (by omega), hfind]
  cases limits.deviceClass <;> rfl

theorem launch_shaped (h : launch domain threads limits t = .ok g) :
    Shaped limits t (base domain threads) g := by
  obtain ⟨ht, hfirst, hlast, hsizes⟩ := launch_ok h
  obtain ⟨hgpuWarp, hfpgaWarp, hlocal⟩ := Tuning.validate_ok ht
  have hpos := pos_of_not_mem hsizes
  rw [launch_eq ht hfirst hlast hsizes] at h
  cases hclass : limits.deviceClass <;> rw [hclass] at h
  case gpu =>
    cases h
    exact gpu_shaped hclass hgpuWarp hpos
  case cpu =>
    cases h
    exact cpu_shaped hclass hpos
  case constrained => exact constrained_shaped hclass hlocal hfpgaWarp hpos h

-- A launch over at most three dimensions, none of them empty, is shaped as the class of the device has it, if
-- a group of the fixed shape divides it where groups have one. Every other launch is refused.
theorem launch_shapes (ht : t.validate = .ok ⟨⟩) (limits : Limits) (domain : List Nat) (threads : Nat) :
    (domain.length = 0 ∨ 3 < domain.length ∨ 0 ∈ base domain threads →
      ∃ cause, launch domain threads limits t = .error (.config cause)) ∧
    (0 < domain.length → domain.length ≤ 3 → 0 ∉ base domain threads →
      (limits.deviceClass ≠ .constrained → ∃ g, launch domain threads limits t = .ok g) ∧
      (limits.deviceClass = .constrained → ((∃ g, launch domain threads limits t = .ok g) ↔
        ∀ n ∈ base domain threads, ∀ m, IsLeast {m | t.fpgaWarp ∣ m ∧ n ≤ m} m → t.fpgaLocalWork ∣ m)) ∧
      ∀ g, launch domain threads limits t = .ok g → Shaped limits t (base domain threads) g) := by
  refine ⟨launch_refused, fun hfirst hlast hsizes =>
    ⟨fun hclass => ?_, fun hclass => ?_, fun g => launch_shaped⟩⟩
  case refine_1 =>
    rw [launch_eq ht hfirst hlast hsizes]
    cases hclass' : limits.deviceClass with
    | gpu | cpu => exact ⟨_, rfl⟩
    | constrained => exact absurd hclass' hclass
  case refine_2 =>
    obtain ⟨_, hwarp, hlocal⟩ := Tuning.validate_ok ht
    have hpos := pos_of_not_mem hsizes
    have hround (n : Nat) := roundUp_isLeast hwarp n
    rw [launch_eq ht hfirst hlast hsizes, hclass]
    simp only [constrained_ok hlocal hwarp hpos, exists_and_left, exists_eq, and_true]
    exact forall₂_congr fun n _ =>
      ⟨fun h m hm => hm.unique (hround n) ▸ h, fun h => h _ (hround n)⟩

def volume : Tuning :=
  { ({} : Config).tuning with gpuBlock2dY := 32, adjustIrregular := true }

-- Along the second dimension the cap is just the range, so that there are two groups and not one.
theorem volume_shapes : volume.validate = .ok ⟨⟩ ∧
    Shaped { computeUnits := 8 } volume [1000, 7, 64] { global := [1024, 32, 64], group := [4, 16, 32] } ∧
    Shaped { deviceClass := .constrained, computeUnits := 8 } volume [100] { global := [128], group := [64] } ∧
    ∃ cause, launch [1000, 0, 64] 0 { computeUnits := 8 } volume = .error (.config cause) := by
  have hvalid : volume.validate = .ok ⟨⟩ := by decide
  have hgpu : launch [1000, 7, 64] 0 { computeUnits := 8 } volume =
      .ok { global := [1024, 32, 64], group := [4, 16, 32] } := by decide +kernel
  have hconstrained : launch [100] 0 { deviceClass := .constrained, computeUnits := 8 } volume =
      .ok { global := [128], group := [64] } := by decide +kernel
  refine ⟨hvalid, ?_, ?_, ?_⟩
  case refine_1 =>
    exact ((launch_shapes hvalid _ _ _).2 (by decide) (by decide) (by decide)).2.2 _ hgpu
  case refine_2 =>
    exact ((launch_shapes hvalid _ _ _).2 (by decide) (by decide) (by decide)).2.2 _ hconstrained
  case refine_3 => exact (launch_shapes hvalid _ _ _).1 (by decide)

end Geometry
end Offload
