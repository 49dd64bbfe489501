import Offload.Compile.WaitLists
import Offload.Proofs.Dependencies

/-!
The table of dependency lists after the dependencies of all nodes were entered: which list a node waits
for, what is in it, and that there is no list that no node waits for.
-/

namespace Offload.WaitLists

variable {instructions nodes : List Nat} {w : WaitLists} {d : Graph.Dependencies}

theorem exists_slot {id : Nat} (h : id ∈ instructions) : ∃ slot, instructions.idxOf? id = some slot :=
  Option.isSome_iff_exists.mp (List.isSome_idxOf?.mpr h)

theorem mem_slots_iff {id slot : Nat} (hid : instructions.idxOf? id = some slot) :
    slot ∈ slots instructions nodes ↔ id ∈ nodes := by
  simp only [slots, List.mem_filterMap]
  constructor
  case mp =>
    intro ⟨k, hk, hslot⟩
    have ⟨_, hk', _⟩ := List.idxOf?_eq_some_iff.mp hslot
    have ⟨_, hid', _⟩ := List.idxOf?_eq_some_iff.mp hid
    exact hid' ▸ hk' ▸ hk
  case mpr => exact fun h => ⟨id, h, hid⟩

theorem slots_eq_nil_iff (h : nodes ⊆ instructions) : slots instructions nodes = [] ↔ nodes = [] := by
  constructor
  case mp =>
    intro hnil
    by_contra hne
    obtain ⟨id, hid⟩ := List.exists_mem_of_ne_nil nodes hne
    obtain ⟨slot, hslot⟩ := exists_slot (h hid)
    have hmem := (mem_slots_iff hslot).mpr hid
    rw [hnil] at hmem
    cases hmem
  case mpr =>
    rintro rfl
    rfl

theorem nodup_intern (h : w.lists.Nodup) (slots : List Nat) : (w.intern slots).2.lists.Nodup := by
  unfold intern
  split
  case h_1 => exact h
  case h_2 hnew =>
    have hslots : slots ∉ w.lists := by simpa [List.idxOf?_eq_none_iff] using hnew
    have hdisjoint : ∀ list ∈ w.lists, list ≠ slots := fun list hlist heq => hslots (heq ▸ hlist)
    simpa [List.nodup_append, h] using hdisjoint

theorem prefix_intern (w : WaitLists) (slots : List Nat) : w.lists <+: (w.intern slots).2.lists := by
  unfold intern
  split
  case h_1 => exact List.prefix_rfl
  case h_2 => exact List.prefix_append _ _

theorem getElem?_of_prefix {α : Type} {xs ys : List α} (h : xs <+: ys) {place : Nat} {x : α}
    (hx : xs[place]? = some x) : ys[place]? = some x := by
  obtain ⟨more, rfl⟩ := h
  rw [List.getElem?_append_left (List.getElem?_eq_some_iff.mp hx).1, hx]

-- A list that was not there before is the one that was interned.
theorem place_intern {slots : List Nat} {place : Nat} (hold : w.lists.length ≤ place)
    (h : place < (w.intern slots).2.lists.length) : (w.intern slots).1 = place := by
  unfold intern at *
  split
  case h_1 heq =>
    simp only [heq] at h
    omega
  case h_2 heq =>
    simp only [heq, List.length_append, List.length_singleton] at h
    dsimp only
    omega

-- What is interned anew takes the place behind all others.
theorem intern_new {slots : List Nat} (h : slots ∉ w.lists) :
    w.intern slots = (w.lists.length, { lists := w.lists ++ [slots] }) := by
  have hnone : w.lists.idxOf? slots = none := by simpa [List.idxOf?_eq_none_iff] using h
  rw [intern, hnone]

-- What comes of entering the dependencies of `nodes` into the table `w`.
structure Interned (d : Graph.Dependencies) (instructions nodes : List Nat) (w : WaitLists)
    (waits : List (Nat × Nat)) (w' : WaitLists) : Prop where
  kept     : w.lists <+: w'.lists
  nodup    : w'.lists.Nodup
  none     : ∀ {id}, waits.lookup id = none → id ∈ nodes → slots instructions (d.of id) = []
  some     : ∀ {id place}, waits.lookup id = some place →
    id ∈ nodes ∧ slots instructions (d.of id) ≠ [] ∧
      w'.lists[place]? = some (slots instructions (d.of id))
  consumer : ∀ {place}, w.lists.length ≤ place → place < w'.lists.length →
    ∃ id, waits.lookup id = Option.some place

theorem interned_internAll (hnodes : nodes.Nodup) (hw : w.lists.Nodup) :
    Interned d instructions nodes w (internAll d instructions nodes w).1
      (internAll d instructions nodes w).2 := by
  induction nodes generalizing w with
  | nil =>
    constructor
    case kept => exact List.prefix_rfl
    case nodup => exact hw
    case none => exact fun _ h => nomatch h
    case some => exact fun h => nomatch h
    case consumer => exact fun hle hlt => absurd hlt (Nat.not_lt.mpr hle)
  | cons node nodes ih =>
    have ⟨hnode, hrest⟩ := List.nodup_cons.mp hnodes
    unfold internAll
    split
    case h_1 hslots =>
      have hall := ih hrest hw
      constructor
      case kept => exact hall.kept
      case nodup => exact hall.nodup
      case none =>
        intro id hid hmem
        rcases List.mem_cons.mp hmem with rfl | hmem
        case inl => exact hslots
        case inr => exact hall.none hid hmem
      case some =>
        intro id place hid
        have ⟨hmem, hsome⟩ := hall.some hid
        exact ⟨List.mem_cons_of_mem _ hmem, hsome⟩
      case consumer => exact hall.consumer
    case h_2 hslots =>
      have hplace := w.getElem?_intern (slots instructions (d.of node))
      have hentry {place : Nat} : w.lists.length ≤ place →
          place < (w.intern (slots instructions (d.of node))).2.lists.length →
          (w.intern (slots instructions (d.of node))).1 = place := place_intern
      have hkept := w.prefix_intern (slots instructions (d.of node))
      have hall := ih hrest (nodup_intern hw (slots instructions (d.of node)))
      generalize w.intern (slots instructions (d.of node)) = entered at *
      obtain ⟨entry, w₁⟩ := entered
      simp only at hplace hentry hkept hall
      have hlookup (id : Nat) :
          ((node, entry) :: (internAll d instructions nodes w₁).1).lookup id =
            if id = node then .some entry else (internAll d instructions nodes w₁).1.lookup id := by
        by_cases hid : id = node
        case pos => simp [hid]
        case neg => simp [List.lookup_cons, beq_false_of_ne hid, hid]
      constructor
      case kept => exact hkept.trans hall.kept
      case nodup => exact hall.nodup
      case none =>
        intro id hid hmem
        rw [hlookup] at hid
        split at hid
        case isTrue => cases hid
        case isFalse hne => exact hall.none hid (List.mem_of_ne_of_mem hne hmem)
      case some =>
        intro id place hid
        rw [hlookup] at hid
        split at hid
        case isTrue heq =>
          cases hid
          subst heq
          exact ⟨List.mem_cons_self, hslots, getElem?_of_prefix hall.kept hplace⟩
        case isFalse =>
          have ⟨hmem, hsome⟩ := hall.some hid
          exact ⟨List.mem_cons_of_mem _ hmem, hsome⟩
      case consumer =>
        intro place hle hlt
        by_cases hnew : w₁.lists.length ≤ place
        case pos =>
          obtain ⟨id, hid⟩ := hall.consumer hnew hlt
          have hne : id ≠ node := fun heq => hnode (heq ▸ (hall.some hid).1)
          exact ⟨id, by rw [hlookup, if_neg hne, hid]⟩
        case neg =>
          have heq := hentry hle (Nat.lt_of_not_le hnew)
          exact ⟨node, by rw [hlookup, if_pos rfl, heq]⟩

end Offload.WaitLists
