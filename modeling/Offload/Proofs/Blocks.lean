import Offload.Proofs.Gather
import Offload.Proofs.Steps

/-!
Where in a program the nodes are issued, and what a run does between two of them: a node hands its
command over, and its event is appended to every list that it belongs to.
-/

namespace Offload

namespace Compile

variable {g : Graph} {l : Layout} {passes : List Pass} {pass : Pass} {id : Nat} {i : Instruction}
  {ss : List Site} {is js : List Instruction}

namespace Issued

theorem wait?_eq (h : Issued g l pass id i) : i.wait? = l.waits.lookup id := by
  obtain ⟨j, hj, hi⟩ := h
  have hwait : j.wait? = l.waits.lookup id := by
    unfold nodeInstruction? at hj
    split at hj <;> cases hj <;> rfl
  have hwrapped (i : Instruction) : i.wrapped.wait? = i.wait? := by cases i <;> rfl
  have hblocking (i : Instruction) : i.blocking.wait? = i.wait? := by cases i <;> rfl
  rcases hi with rfl | ⟨_, _, rfl⟩
  case inl => rw [hwrapped, hwait]
  case inr => rw [hblocking, hwrapped, hwait]

theorem isNode (h : Issued g l pass id i) : i.opcode.isNode := by
  obtain ⟨j, hj, hi⟩ := h
  unfold nodeInstruction? at hj
  split at hj <;> cases hj
  all_goals
    rcases hi with rfl | ⟨_, _, rfl⟩ <;> rfl

theorem device_eq (h : Issued g l pass id i) {task device offset threads : Nat} {wait : Option Nat}
    (hi : i = .launch task device wait offset threads) : device = l.device := by
  obtain ⟨j, hj, hij⟩ := h
  subst hi
  unfold nodeInstruction? at hj
  split at hj <;> cases hj <;> rcases hij with hij | ⟨_, _, hij⟩ <;> cases hij <;> rfl

end Issued

namespace Laid

theorem countP_block (hi : i.opcode.isNode) (lists : List Nat) :
    (i :: lists.map Instruction.addDep).countP (·.opcode.isNode) = 1 := by
  have happends : (lists.map Instruction.addDep).countP (·.opcode.isNode) = 0 := by
    simp [List.countP_eq_zero, Instruction.opcode, Opcode.isNode]
  rw [List.countP_cons, if_pos hi, happends]

theorem countP_isNode (h : Laid g l passes ss is) : is.countP (·.opcode.isNode) = ss.length := by
  induction h with
  | nil => rfl
  | cons _ hi _ ih => rw [List.countP_append, countP_block hi.isNode, ih, List.length_cons, Nat.add_comm]

-- Where a node is issued, the blocks of all sites before it are complete.
theorem of_isNode (h : Laid g l passes ss is) {before after : List Instruction}
    (his : is = before ++ i :: after) (hi : i.opcode.isNode) :
    ∃ done site rest pass, ss = done ++ site :: rest ∧ Laid g l passes done before ∧
      passes[site.pass]? = some pass ∧ Issued g l pass site.node i := by
  induction h generalizing before with
  | nil => simp at his
  | @cons site pass j ss js hpass hj hrest ih =>
    cases before with
    | nil =>
      cases his
      exact ⟨[], site, ss, pass, rfl, .nil, hpass, hj⟩
    | cons j' before =>
      rw [List.cons_append, List.cons_append] at his
      obtain ⟨rfl, happend⟩ := List.cons.inj his
      have step (mid : List Instruction) (hjs : js = mid ++ i :: after) :
          ∃ done site' rest pass, site :: ss = done ++ site' :: rest ∧
            Laid g l passes done (j :: ((l.appends site.node).map .addDep ++ mid)) ∧
            passes[site'.pass]? = some pass ∧ Issued g l pass site'.node i := by
        obtain ⟨done, site', rest, pass', rfl, hdone, hpass', hi'⟩ := ih hjs
        exact ⟨site :: done, site', rest, pass', rfl, .cons hpass hj hdone, hpass', hi'⟩
      rcases List.append_eq_append_iff.mp happend with ⟨mid, rfl, hjs⟩ | ⟨mid, happends, hjs⟩
      case inl => exact step _ hjs
      case inr =>
        cases mid with
        | nil =>
          rw [List.append_nil] at happends
          rw [← happends]
          simpa using step [] hjs.symm
        | cons i' mid =>
          -- an append is no instruction of a node
          cases hjs
          have hmem : i ∈ (l.appends site.node).map Instruction.addDep := by simp [happends]
          obtain ⟨_, _, rfl⟩ := List.mem_map.mp hmem
          cases hi

-- A part of the sites is laid out in a part of the instructions.
theorem split {ss' : List Site} (h : Laid g l passes (ss ++ ss') is) :
    ∃ is₁ is₂, is = is₁ ++ is₂ ∧ Laid g l passes ss is₁ ∧ Laid g l passes ss' is₂ := by
  induction ss generalizing is with
  | nil => exact ⟨[], is, rfl, .nil, h⟩
  | cons site ss ih =>
    cases h with
    | cons hpass hi hrest =>
      obtain ⟨is₁, is₂, rfl, h₁, h₂⟩ := ih hrest
      exact ⟨_, is₂, by rw [List.append_assoc], .cons hpass hi h₁, h₂⟩

end Laid

theorem length_sites (order : List Nat) (n : Nat) : (sites order n).length = n * order.length := by
  induction n with
  | zero => simp [sites]
  | succ n ih =>
    rw [sites, List.range_succ, List.flatMap_append, List.length_append, ← sites, ih]
    simp [passSites, Nat.succ_mul]

theorem sites_succ (order : List Nat) (n : Nat) :
    sites order (n + 1) = sites order n ++ passSites order n := by
  simp [sites, List.range_succ]

-- What comes before a site: the passes before its own, and what its own pass issued by then.
theorem sites_split {order : List Nat} {n : Nat} {done rest : List Site} {site : Site}
    (h : sites order n = done ++ site :: rest) :
    site.pass < n ∧ ∃ seen post, order = seen ++ site.node :: post ∧
      done = sites order site.pass ++ passSites seen site.pass := by
  induction n generalizing rest with
  | zero => simp [sites] at h
  | succ n ih =>
    have last (mid : List Site) (hlast : passSites order n = mid ++ site :: rest) :
        site.pass < n + 1 ∧ ∃ seen post, order = seen ++ site.node :: post ∧
          sites order n ++ mid = sites order site.pass ++ passSites seen site.pass := by
      obtain ⟨seen, rest', rfl, rfl, hrest⟩ := List.map_eq_append_iff.mp hlast
      obtain ⟨id, post, rfl, rfl, _⟩ := List.map_eq_cons_iff.mp hrest
      exact ⟨Nat.lt_succ_self n, seen, post, rfl, rfl⟩
    rw [sites_succ] at h
    rcases List.append_eq_append_iff.mp h with ⟨mid, rfl, hlast⟩ | ⟨mid, hdone, hlast⟩
    case inl => exact last _ hlast
    case inr =>
      cases mid with
      | nil =>
        rw [List.append_nil] at hdone
        have hhere := last [] hlast.symm
        rwa [List.append_nil, hdone] at hhere
      | cons site' mid =>
        cases hlast
        obtain ⟨hlt, hsplit⟩ := ih hdone
        exact ⟨Nat.lt_succ_of_lt hlt, hsplit⟩

end Compile

namespace Machine

open Context (Quiet Outcome)

variable {m : Machine} {r r' : Run} {s s' : Hosted Context} {k : Nat}

-- What the appends of one event leave of a run.
structure Appended (places : List Nat) (r r' : Run) : Prop where
  last   : r'.last = r.last
  target : r'.target = r.target
  final  : r'.final = r.final
  events : r'.events = r.events
  lists  : ∀ j : Nat, r'.lists[j]? = r.lists[j]?.map fun L : EventList =>
    if j ∈ places then L.append r.last else L

theorem Reaches.appends {places : List Nat} (h : Reaches m k (places.map .addDep) r s r' s')
    (hnodup : places.Nodup) (hlt : ∀ j ∈ places, j < r.lists.length) :
    s' = s ∧ Appended places r r' := by
  induction places generalizing k r with
  | nil =>
    cases h
    exact ⟨rfl, rfl, rfl, rfl, rfl, fun j => by simp⟩
  | cons place places ih =>
    have ⟨hplace, hnodup⟩ := List.nodup_cons.mp hnodup
    cases h with
    | step hi hrest =>
      rw [step_addDep (hlt place (by simp))] at hi
      cases hi
      have ⟨hs, hrest⟩ := ih hrest hnodup fun j hj => by simpa using hlt j (by simp [hj])
      refine ⟨hs, hrest.last, hrest.target, hrest.final, hrest.events, fun j => ?_⟩
      rw [hrest.lists j, List.getElem?_modify, Option.map_eq_map, Option.map_map]
      congr 1
      funext L
      by_cases hj : place = j
      case pos =>
        subst hj
        simp [hplace]
      case neg => simp [hj, Ne.symm hj]

-- What a node and the appends of its event do to a run, where `event` is what the node recorded.
structure Block (m : Machine) (l : Compile.Layout) (place id k : Nat) (i : Instruction) (r r' : Run)
    (s s' : Hosted Context) (event : Option EventId) : Prop where
  issued  : ∃ r₁, m.step k i r s = (.ok r₁, s') ∧ r₁.last = event
  target  : r'.target = r.target
  final   : r'.final = r.final
  events  : r'.events = r.events ++ (event.map (k, ·)).toList
  lists   : ∀ j : Nat, r'.lists[j]? = r.lists[j]?.map fun L : EventList =>
    L.afterBlock (l.waits.lookup id = some j) (j ∈ l.appends id) event
  outcome : Outcome place (r.waiting (l.waits.lookup id)) (i.opcode = .streamOutBlocking) s
    (.ok event) s'

theorem Reaches.block {g : Graph} {l : Compile.Layout} {pass : Pass} {id : Nat} {i : Instruction}
    {t : Target} (h : Reaches m k (i :: (l.appends id).map .addDep) r s r' s')
    (hi : Compile.Issued g l pass id i) (ht : r.target = some t)
    (hplace : t.place < s.platform.channels.length) (hdevice : s.part.place l.device = .ok t.place)
    (hlength : r.lists.length = l.lists.lists.length) :
    ∃ event, Block m l t.place id k i r r' s s' event ∧
      (i.opcode = .launch ∨ i.opcode = .streamOut → event.isSome) := by
  cases h with
  | @step _ _ _ _ r₁ _ _ s₁ _ hstep hrest =>
    have hdevice' : ∀ task device wait offset threads,
        i = .launch task device wait offset threads → s.part.place device = .ok t.place :=
      fun _ _ _ _ _ heq => hi.device_eq heq ▸ hdevice
    have houtcome := (step_issues hi.isNode ht hplace hdevice').of_eq hstep
    have ⟨hrecorded, hanswered⟩ := (step_gives hi.isNode).of_eq hstep
    rw [hi.wait?_eq] at houtcome
    have hlists (j : Nat) : r₁.lists[j]? = r.lists[j]?.map fun L : EventList =>
        if l.waits.lookup id = some j then { L with consumed := true } else L := by
      rw [hrecorded.lists, hi.wait?_eq]
      cases hwaits : l.waits.lookup id with
      | none => simp [Run.consume]
      | some list =>
        rw [Run.consume, List.getElem?_modify, Option.map_eq_map]
        congr 1
        funext L
        simp
    have hlength₁ : r₁.lists.length = r.lists.length := by
      rw [hrecorded.lists]
      cases i.wait? <;> simp [Run.consume]
    obtain ⟨rfl, happended⟩ := hrest.appends (Compile.nodup_appends l id) fun j hj => by
      rw [hlength₁, hlength]
      exact Compile.lt_of_mem_appends hj
    refine ⟨r₁.last, ⟨⟨r₁, hstep, rfl⟩, ?_, ?_, ?_, ?_, houtcome⟩, hanswered⟩
    case refine_1 => rw [happended.target, hrecorded.target]
    case refine_2 => rw [happended.final, hrecorded.final]
    case refine_3 => rw [happended.events, hrecorded.events]
    case refine_4 =>
      intro j
      rw [happended.lists j, hlists j, Option.map_map]
      rfl

end Machine
end Offload
