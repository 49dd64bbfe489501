import Offload.Compile.Passes
import Offload.Proofs.Action

/-!
What the passes of a plan cover: each of them a window of every bound object, or the whole of it.
-/

namespace Offload

-- The window of a pass lies within objects of `total` bytes; no length stands for all of them.
structure Pass.Inside (total : Nat) (p : Pass) : Prop where
  window  : p.offset + p.length ≤ total
  whole   : p.length = 0 → p.offset = 0
  threads : p.threads ≤ total

-- The numbers of a pass are words.
structure Pass.InWords (p : Pass) : Prop where
  offset  : p.offset < wordLimit
  length  : p.length < wordLimit
  threads : p.threads < wordLimit

namespace Pass

variable {r : Registry} {c : Context} {p : Pass} {passes : List Pass}

theorem Inside.inWords {total : Nat} (h : p.Inside total) (htotal : total < wordLimit) : p.InWords where
  offset := Nat.lt_of_le_of_lt (Nat.le_trans (Nat.le_add_right _ _) h.window) htotal
  length := Nat.lt_of_le_of_lt (Nat.le_trans (Nat.le_add_left _ _) h.window) htotal
  threads := Nat.lt_of_le_of_lt h.threads htotal

theorem inside_whole (total : Nat) : whole.Inside total where
  window := Nat.zero_le _
  whole _ := rfl
  threads := Nat.zero_le _

theorem inside_window {element : Element} {offset length total : Nat} (h : offset + length ≤ total)
    (hlength : 0 < length) : (window element offset length).Inside total where
  window := h
  whole hzero := absurd hzero (Nat.ne_of_gt hlength)
  threads := Nat.le_trans (Nat.div_le_self _ _) (Nat.le_trans (Nat.le_add_left _ _) h)

theorem inside_cut (shape : BatchShape) {batch : Nat} (hbatch : 0 < batch) :
    cut shape batch ≠ [] ∧ ∀ p ∈ cut shape batch, p.Inside shape.total := by
  have hdiv := Nat.div_add_mod' shape.total batch
  unfold cut
  dsimp only
  split
  case isTrue =>
    refine ⟨by simp, fun p hp => ?_⟩
    rw [List.mem_singleton.mp hp]
    exact ⟨Nat.zero_le _, fun _ => rfl, Nat.div_le_self _ _⟩
  case isFalse hchunks =>
    have hfull : ∀ p ∈ (List.range (shape.total / batch)).map
        (fun i => window shape.element (i * batch) batch), p.Inside shape.total := by
      intro p hp
      obtain ⟨i, hi, rfl⟩ := List.mem_map.mp hp
      refine inside_window ?_ hbatch
      calc i * batch + batch = (i + 1) * batch := by rw [Nat.succ_mul]
        _ ≤ shape.total / batch * batch := Nat.mul_le_mul_right batch (List.mem_range.mp hi)
        _ ≤ shape.total := Nat.div_mul_le_self _ _
    split
    case isFalse => exact ⟨by simpa using hchunks, hfull⟩
    case isTrue hrest =>
      refine ⟨by simp, fun p hp => ?_⟩
      rcases List.mem_append.mp hp with hp | hp
      case inl => exact hfull p hp
      case inr =>
        rw [List.mem_singleton.mp hp]
        exact inside_window (Nat.le_of_eq hdiv) hrest

-- Objects with a common shape are arrays, all of one element and one length.
theorem commonShape_agrees {bindings : List Binding} {shape : Option BatchShape} {s : BatchShape}
    (h : commonShape r bindings shape = .ok (some s)) : (∀ t, shape = some t → t = s) ∧
      ∀ b ∈ bindings, b.object.kind = .array s.element ∧ r.byteLength b.object.handle = s.total := by
  induction bindings generalizing shape with
  | nil =>
    cases h
    exact ⟨fun t ht => (Option.some.inj ht).symm, nofun⟩
  | cons b bindings ih =>
    unfold commonShape at h
    cases hkind : b.object.kind with
    | scalar =>
      simp only [hkind, ObjectKind.element?] at h
      cases h
    | array element =>
      simp only [hkind, ObjectKind.element?] at h
      split at h
      case isFalse => cases h
      case isTrue hshape =>
        have ⟨hcurrent, hrest⟩ := ih h
        have hs := hcurrent _ rfl
        subst hs
        refine ⟨fun t ht => ?_, List.forall_mem_cons.mpr ⟨⟨hkind, rfl⟩, hrest⟩⟩
        subst ht
        simpa using hshape

-- A plan has a pass at least. In batches all bound objects are arrays of one length, and every pass is a
-- window of them.
theorem plan_inside {batch : Option Nat} (h : plan r c batch = .ok passes) :
    passes ≠ [] ∧ ∀ p ∈ passes, p = whole ∨ ∀ b ∈ c.bindings, b.object.isScalar = false ∧
      p.Inside (r.byteLength b.object.handle) := by
  cases batch with
  | none =>
    cases h
    exact ⟨by simp, fun p hp => .inl (List.mem_singleton.mp hp)⟩
  | some batch =>
    simp only [plan] at h
    by_cases hzero : batch = 0
    case pos =>
      rw [if_pos hzero] at h
      cases h
    rw [if_neg hzero] at h
    obtain ⟨shape, hshape, h⟩ := bind_eq_ok.mp h
    cases shape with
    | none => cases h
    | some shape =>
      by_cases huneven : batch % shape.element.size ≠ 0
      case pos =>
        simp only [if_pos huneven] at h
        cases h
      simp only [if_neg huneven] at h
      cases h
      have ⟨hne, hinside⟩ := inside_cut shape (Nat.pos_of_ne_zero hzero)
      have ⟨_, hagree⟩ := commonShape_agrees hshape
      refine ⟨hne, fun p hp => .inr fun b hb => ?_⟩
      have ⟨hkind, htotal⟩ := hagree b hb
      exact ⟨by simp [HostObject.isScalar, hkind], htotal ▸ hinside p hp⟩

theorem plan_bound {batch : Option Nat} (h : plan r c batch = .ok passes) :
    batch = none ∨ c.bindings ≠ [] := by
  cases batch with
  | none => exact .inl rfl
  | some batch =>
    refine .inr fun hnil => ?_
    simp only [plan, hnil, commonShape] at h
    by_cases hzero : batch = 0
    case pos =>
      rw [if_pos hzero] at h
      cases h
    case neg =>
      rw [if_neg hzero] at h
      cases h

-- Where the lengths of objects are words, so are the numbers of all passes.
theorem plan_inWords {batch : Option Nat} (h : plan r c batch = .ok passes)
    (hobjects : ∀ b ∈ c.bindings, r.byteLength b.object.handle < wordLimit) :
    ∀ p ∈ passes, p.InWords := by
  intro p hp
  rcases (plan_inside h).2 p hp with rfl | hinside
  case inl => exact (inside_whole 0).inWords (by decide)
  case inr =>
    rcases plan_bound h with rfl | hne
    case inl =>
      cases h
      rw [List.mem_singleton.mp hp]
      exact (inside_whole 0).inWords (by decide)
    case inr =>
      obtain ⟨b, hb⟩ := List.exists_mem_of_ne_nil _ hne
      exact (hinside b hb).2.inWords (hobjects b hb)

end Pass
end Offload
