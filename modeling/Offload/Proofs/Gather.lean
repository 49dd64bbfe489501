import Offload.Proofs.Shape

/-!
What the event lists of a run hold. The list of a node holds the events of what the node depends on,
from the same pass: it is read when all of them were appended, and it starts afresh when the first one
of the next pass is. The list of the barrier is never read before the end, and gathers from all passes.
-/

namespace Offload

-- What the next event is appended to.
def EventList.live (L : EventList) : List EventId :=
  if L.consumed then [] else L.events

-- A list after a block of instructions that waits for it, appends to it, or does neither.
def EventList.afterBlock (L : EventList) (consumes appends : Prop) [Decidable consumes]
    [Decidable appends] (event : Option EventId) : EventList :=
  let L := if consumes then { L with consumed := true } else L
  if appends then L.append event else L

namespace EventList

theorem live_of_open {L : EventList} (h : L.consumed = false) : L.live = L.events := by
  simp [live, h]

theorem live_of_consumed {L : EventList} (h : L.consumed = true) : L.live = [] := by
  simp [live, h]

section

variable {consumes appends : Prop} [Decidable consumes] [Decidable appends] (L : EventList)
  (event : Option EventId)

theorem afterBlock_of_consumes (h : consumes) (hnot : ¬appends) :
    L.afterBlock consumes appends event = { L with consumed := true } := by
  simp [afterBlock, h, hnot]

theorem afterBlock_of_appends (hnot : ¬consumes) (h : appends) :
    L.afterBlock consumes appends event = { events := L.live ++ event.toList } := by
  simp [afterBlock, h, hnot, append, live]

theorem afterBlock_of_neither (hc : ¬consumes) (ha : ¬appends) :
    L.afterBlock consumes appends event = L := by
  simp [afterBlock, hc, ha]

end
end EventList

namespace Compile

-- The events that were issued, each with the site that issued it.
abbrev Log := List (Site × EventId)

namespace Log

-- The events of the nodes of one pass that a list is for.
def gathered (log : Log) (l : Layout) (pass list : Nat) : List EventId :=
  (log.filter fun x => x.1.pass = pass ∧ list ∈ l.appends x.1.node).map Prod.snd

-- The events of the nodes that a list is for, from all passes.
def total (log : Log) (l : Layout) (list : Nat) : List EventId :=
  (log.filter fun x => list ∈ l.appends x.1.node).map Prod.snd

-- The log after a site issued an event, or did without.
def enter (log : Log) (site : Site) (event : Option EventId) : Log :=
  log ++ (event.map (site, ·)).toList

theorem gathered_enter (log : Log) (l : Layout) (pass id list : Nat) (event : Option EventId) :
    (log.enter ⟨pass, id⟩ event).gathered l pass list =
      log.gathered l pass list ++ if list ∈ l.appends id then event.toList else [] := by
  cases event with
  | none => simp [enter, gathered]
  | some e => by_cases h : list ∈ l.appends id <;> simp [enter, gathered, h]

theorem total_enter (log : Log) (l : Layout) (site : Site) (list : Nat) (event : Option EventId) :
    (log.enter site event).total l list =
      log.total l list ++ if list ∈ l.appends site.node then event.toList else [] := by
  cases event with
  | none => simp [enter, total]
  | some e => by_cases h : list ∈ l.appends site.node <;> simp [enter, total, h]

theorem gathered_eq_nil {log : Log} {l : Layout} {pass : Nat} (h : ∀ x ∈ log, x.1.pass < pass)
    (list : Nat) : log.gathered l pass list = [] := by
  have hnone : ∀ x ∈ log, ¬(x.1.pass = pass ∧ list ∈ l.appends x.1.node) := by
    intro x hx ⟨heq, _⟩
    have := h x hx
    omega
  simp only [gathered, List.map_eq_nil_iff, List.filter_eq_nil_iff, decide_eq_true_eq]
  exact hnone

end Log

-- What the lists hold in a pass in which the nodes `seen` were issued so far.
structure Gathers (l : Layout) (log : Log) (pass : Nat) (seen : List Nat) (lists : List EventList) :
    Prop where
  length : lists.length = l.lists.lists.length
  read   : ∀ {id list L}, id ∈ seen → l.waits.lookup id = some list → lists[list]? = some L →
    L.consumed = true ∧ L.events = log.gathered l pass list
  unread : ∀ {list L}, l.ending ≠ .barrier list → (∀ id ∈ seen, l.waits.lookup id ≠ some list) →
    lists[list]? = some L →
    L.live = log.gathered l pass list ∧ ((∃ k ∈ seen, list ∈ l.appends k) → L.consumed = false)
  final  : ∀ {list L}, l.ending = .barrier list → lists[list]? = some L →
    L.consumed = false ∧ L.events = log.total l list

namespace Gathers

variable {g : Graph} {d : Graph.Dependencies} {l : Layout} {log : Log} {pass : Nat}
  {seen : List Nat} {lists lists' : List EventList}

theorem start (l : Layout) (lists : List (List Nat)) (h : lists = l.lists.lists) :
    Gathers l [] 0 [] (lists.map fun _ => {}) := by
  have hempty {list : Nat} {L : EventList} (hL : (lists.map fun _ => ({} : EventList))[list]? = some L) :
      L = {} := by
    rw [List.getElem?_map, Option.map_eq_some_iff] at hL
    obtain ⟨_, _, rfl⟩ := hL
    rfl
  constructor
  case length => rw [List.length_map, h]
  case read => exact fun h => nomatch h
  case unread =>
    intro list L _ _ hL
    cases hempty hL
    exact ⟨rfl, fun _ => rfl⟩
  case final =>
    intro list L _ hL
    cases hempty hL
    exact ⟨rfl, rfl⟩

-- When a pass is over every list but the barrier's was read, so that the next pass finds it empty.
theorem next (h : Gathers l log pass l.order lists) (hf : Faithful g d l)
    (hlog : ∀ x ∈ log, x.1.pass ≤ pass) : Gathers l log (pass + 1) [] lists := by
  constructor
  case length => exact h.length
  case read => exact fun h => nomatch h
  case final => exact h.final
  case unread =>
    intro list L hending _ hL
    have hlt : list < l.lists.lists.length := h.length ▸ (List.getElem?_eq_some_iff.mp hL).1
    rcases hf.used hlt with ⟨id, hid⟩ | hbarrier
    case inr => exact absurd hbarrier hending
    case inl =>
      have ⟨hconsumed, _⟩ := h.read (hf.listed hid).1 hid hL
      rw [EventList.live_of_consumed hconsumed,
        Log.gathered_eq_nil fun x hx => Nat.lt_succ_of_le (hlog x hx)]
      exact ⟨rfl, nofun⟩

section

variable {id : Nat} {post : List Nat}

-- All that a node depends on was issued before it, in the same pass.
theorem seen_of_dep (hf : Faithful g d l) (horder : l.order = seen ++ id :: post) {dep : Nat}
    (hdep : dep ∈ d.of id) : dep ∈ seen :=
  hf.ordered.respects seen id post horder dep hdep

-- Nobody has waited for a list that an event is still to be appended to.
theorem unread_of_appends (hf : Faithful g d l) (horder : l.order = seen ++ id :: post) {list : Nat}
    (hlist : list ∈ l.appends id) : ∀ k ∈ seen ++ [id], l.waits.lookup k ≠ some list := by
  intro k hk hwaits
  have hdep : id ∈ d.of k := ((hf.listed hwaits).2.2.2 (by simp [horder])).mp hlist
  exact hf.ordered.not_dep horder hk hdep

-- A node finds in its list exactly what was gathered for it in this pass.
theorem events_of_waits (h : Gathers l log pass seen lists) (hf : Faithful g d l)
    (horder : l.order = seen ++ id :: post) {list : Nat} (hwaits : l.waits.lookup id = some list)
    {L : EventList} (hL : lists[list]? = some L) : L.events = log.gathered l pass list := by
  by_cases hread : ∃ k ∈ seen, l.waits.lookup k = some list
  case pos =>
    obtain ⟨k, hk, hkwaits⟩ := hread
    exact (h.read hk hkwaits hL).2
  case neg =>
    have ⟨_, _, hne, happends⟩ := hf.listed hwaits
    have hending : l.ending ≠ .barrier list := fun he => (hf.final he).2.1 id hwaits
    have ⟨hlive, hopen⟩ := h.unread hending (fun k hk heq => hread ⟨k, hk, heq⟩) hL
    obtain ⟨dep, hdep⟩ := List.exists_mem_of_ne_nil _ hne
    have hseen := seen_of_dep hf horder hdep
    have hmem : dep ∈ l.order := by simp [horder, hseen]
    rw [← EventList.live_of_open (hopen ⟨dep, hseen, (happends hmem).mpr hdep⟩), hlive]

theorem block (h : Gathers l log pass seen lists) (hf : Faithful g d l)
    (horder : l.order = seen ++ id :: post) {event : Option EventId}
    (hlists : ∀ j, lists'[j]? = lists[j]?.map fun L : EventList =>
      L.afterBlock (l.waits.lookup id = some j) (j ∈ l.appends id) event) :
    Gathers l (log.enter ⟨pass, id⟩ event) pass (seen ++ [id]) lists' := by
  have before {j : Nat} {L' : EventList} (hL' : lists'[j]? = some L') : ∃ L, lists[j]? = some L ∧
      L.afterBlock (l.waits.lookup id = some j) (j ∈ l.appends id) event = L' :=
    Option.map_eq_some_iff.mp (hlists j ▸ hL')
  constructor
  case length =>
    rw [← h.length]
    apply Nat.le_antisymm
    · by_contra hlt
      have hget := hlists lists.length
      rw [List.getElem?_eq_none (Nat.le_refl _), Option.map_none, List.getElem?_eq_none_iff] at hget
      exact hlt hget
    · by_contra hlt
      have hget := hlists lists'.length
      rw [List.getElem?_eq_none (Nat.le_refl _)] at hget
      have hnone := List.getElem?_eq_none_iff.mp (Option.map_eq_none_iff.mp hget.symm)
      exact hlt hnone
  case read =>
    intro k j L' hk hwaits hL'
    obtain ⟨L, hL, rfl⟩ := before hL'
    rw [Log.gathered_enter]
    rcases List.mem_append.mp hk with hseen | hid
    case inl =>
      -- whoever waited for the list had everything it was to hold
      have hnot : j ∉ l.appends id := fun happends =>
        unread_of_appends hf horder happends k (List.mem_append_left _ hseen) hwaits
      have ⟨hconsumed, hevents⟩ := h.read hseen hwaits hL
      rw [if_neg hnot, List.append_nil]
      by_cases hid : l.waits.lookup id = some j
      case pos =>
        rw [EventList.afterBlock_of_consumes L event hid hnot]
        exact ⟨rfl, hevents⟩
      case neg =>
        rw [EventList.afterBlock_of_neither L event hid hnot]
        exact ⟨hconsumed, hevents⟩
    case inr =>
      cases List.mem_singleton.mp hid
      have hnot : j ∉ l.appends id := fun happends =>
        unread_of_appends hf horder happends id (by simp) hwaits
      have hevents := h.events_of_waits hf horder hwaits hL
      rw [if_neg hnot, List.append_nil, EventList.afterBlock_of_consumes L event hwaits hnot]
      exact ⟨rfl, hevents⟩
  case unread =>
    intro j L' hending hunread hL'
    obtain ⟨L, hL, rfl⟩ := before hL'
    have hwaits : l.waits.lookup id ≠ some j := hunread id (by simp)
    have ⟨hlive, hopen⟩ := h.unread hending (fun k hk => hunread k (List.mem_append_left _ hk)) hL
    rw [Log.gathered_enter]
    by_cases happends : j ∈ l.appends id
    case pos =>
      rw [if_pos happends, EventList.afterBlock_of_appends L event hwaits happends, ← hlive]
      exact ⟨rfl, fun _ => rfl⟩
    case neg =>
      rw [if_neg happends, List.append_nil, EventList.afterBlock_of_neither L event hwaits happends]
      refine ⟨hlive, fun ⟨k, hk, hkappends⟩ => ?_⟩
      rcases List.mem_append.mp hk with hseen | hid
      case inl => exact hopen ⟨k, hseen, hkappends⟩
      case inr => exact absurd (List.mem_singleton.mp hid ▸ hkappends) happends
  case final =>
    intro j L' hending hL'
    obtain ⟨L, hL, rfl⟩ := before hL'
    have hwaits : l.waits.lookup id ≠ some j := (hf.final hending).2.1 id
    have ⟨hopen, hevents⟩ := h.final hending hL
    rw [Log.total_enter]
    by_cases happends : j ∈ l.appends id
    case pos =>
      rw [if_pos happends, EventList.afterBlock_of_appends L event hwaits happends,
        EventList.live_of_open hopen, hevents]
      exact ⟨rfl, rfl⟩
    case neg =>
      rw [if_neg happends, List.append_nil, EventList.afterBlock_of_neither L event hwaits happends]
      exact ⟨hopen, hevents⟩

end
end Gathers
end Compile
end Offload
