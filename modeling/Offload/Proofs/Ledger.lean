import Offload.Proofs.Blocks

/-!
The books of a run: after any number of blocks, every event on record is the event of one site, later
events have larger numbers, and the lists hold what was gathered in them. One block keeps the books, and
so does every run over the blocks of a program.
-/

namespace Offload

open Compile (Site Log Layout Laid Issued Faithful Gathers sites passSites)

namespace Machine

-- The site that instruction `k` issues, when the nodes of each pass are issued in the given order.
def site? (m : Machine) (order : List Nat) (k : Nat) : Option Site := do
  let i ← m.instructions[k]?
  if i.opcode.isNode then
    let issued := (m.instructions.take k).countP (·.opcode.isNode)
    return { pass := issued / order.length, node := ← order[issued % order.length]? }
  else none

theorem site?_eq {m : Machine} {order seen post : List Nat} {k pass id : Nat} {i : Instruction}
    (horder : order = seen ++ id :: post) (hi : m.instructions[k]? = some i) (hnode : i.opcode.isNode)
    (hcount : (m.instructions.take k).countP (·.opcode.isNode) = pass * order.length + seen.length) :
    m.site? order k = some ⟨pass, id⟩ := by
  have hlt : seen.length < order.length := by simp [horder]
  have hdiv : (pass * order.length + seen.length) / order.length = pass := by
    rw [Nat.mul_comm, Nat.mul_add_div (Nat.zero_lt_of_lt hlt), Nat.div_eq_of_lt hlt, Nat.add_zero]
  have hmod : (pass * order.length + seen.length) % order.length = seen.length := by
    rw [Nat.mul_comm, Nat.mul_add_mod, Nat.mod_eq_of_lt hlt]
  have hget : order[seen.length]? = some id := by simp [horder]
  simp [site?, hi, hnode, hcount, hdiv, hmod, hget]

end Machine

-- The books after the blocks before instruction `k`, in a pass in which `seen` were issued so far.
structure Ledger (m : Machine) (l : Layout) (place k pass : Nat) (seen : List Nat) (log : Log)
    (r : Run) (s : Hosted Context) : Prop where
  count    : (m.instructions.take k).countP (·.opcode.isNode) = pass * l.order.length + seen.length
  target   : r.target = some { index := l.device, place }
  attached : place < s.platform.channels.length
  device   : s.part.place l.device = .ok place
  gathers  : Gathers l log pass seen r.lists
  events   : List.Forall₂ (fun x y => m.site? l.order x.1 = some y.1 ∧ x.2 = y.2) r.events log
  issued   : (log.map Prod.fst).Sublist (sites l.order pass ++ passSites seen pass)
  rising   : log.Pairwise fun x y => x.2.number < y.2.number
  past     : ∀ x ∈ log, x.2.number < (s.queue place).next

namespace Ledger

open Machine (Reaches Block)

variable {m : Machine} {g : Graph} {d : Graph.Dependencies} {l : Layout} {passes : List Pass}
  {place k pass id : Nat} {seen post : List Nat} {log : Log} {r r' : Run} {s s' : Hosted Context}

theorem site_mem (h : Ledger m l place k pass seen log r s) {x : Site × EventId} (hx : x ∈ log) :
    x.1 ∈ sites l.order pass ++ passSites seen pass :=
  h.issued.subset (List.mem_map_of_mem hx)

theorem mem_sites {order : List Nat} {n : Nat} {site : Site} :
    site ∈ sites order n ↔ site.pass < n ∧ site.node ∈ order := by
  simp only [sites, passSites, List.mem_flatMap, List.mem_range, List.mem_map]
  constructor
  case mp =>
    rintro ⟨p, hp, id, hid, rfl⟩
    exact ⟨hp, hid⟩
  case mpr =>
    rintro ⟨hp, hid⟩
    exact ⟨site.pass, hp, site.node, hid, rfl⟩

theorem pass_le (h : Ledger m l place k pass seen log r s) {x : Site × EventId} (hx : x ∈ log) :
    x.1.pass ≤ pass := by
  rcases List.mem_append.mp (h.site_mem hx) with hbefore | hhere
  case inl => exact Nat.le_of_lt (mem_sites.mp hbefore).1
  case inr =>
    obtain ⟨_, _, hsite⟩ := List.mem_map.mp hhere
    exact hsite ▸ Nat.le_refl _

theorem node_mem (h : Ledger m l place k pass seen log r s) (hseen : seen ⊆ l.order)
    {x : Site × EventId} (hx : x ∈ log) : x.1.node ∈ l.order := by
  rcases List.mem_append.mp (h.site_mem hx) with hbefore | hhere
  case inl => exact (mem_sites.mp hbefore).2
  case inr =>
    obtain ⟨_, hid, hsite⟩ := List.mem_map.mp hhere
    exact hsite ▸ hseen hid

-- The events that a node waits for are those of its dependencies, from its own pass.
theorem waiting_eq (h : Ledger m l place k pass seen log r s) (hf : Faithful g d l)
    (horder : l.order = seen ++ id :: post) :
    r.waiting (l.waits.lookup id) =
      (log.filter fun x => x.1.pass = pass ∧ x.1.node ∈ d.of id).map Prod.snd := by
  have hid : id ∈ l.order := by simp [horder]
  cases hwaits : l.waits.lookup id with
  | none => simp [Run.waiting, hf.unlisted hid hwaits]
  | some list =>
    have ⟨_, hlt, _, happends⟩ := hf.listed hwaits
    have hL := List.getElem?_eq_getElem (h.gathers.length ▸ hlt : list < r.lists.length)
    rw [Run.waiting, hL, Option.map_some, Option.getD_some,
      h.gathers.events_of_waits hf horder hwaits hL, Log.gathered]
    congr 1
    apply List.filter_congr
    intro x hx
    have hseen : seen ⊆ l.order := fun k hk => by simp [horder, hk]
    simp [happends (h.node_mem hseen hx)]

-- The events that the last barrier waits for are those of the sinks, from all passes.
theorem waiting_final (h : Ledger m l place k pass [] log r s) (hf : Faithful g d l) {list : Nat}
    (hending : l.ending = .barrier list) :
    r.waiting (some list) = (log.filter fun x => x.1.node ∈ g.sinks d).map Prod.snd := by
  have ⟨hlt, _, happends⟩ := hf.final hending
  have hL := List.getElem?_eq_getElem (h.gathers.length ▸ hlt : list < r.lists.length)
  rw [Run.waiting, hL, Option.map_some, Option.getD_some, (h.gathers.final hending hL).2, Log.total]
  congr 1
  apply List.filter_congr
  intro x hx
  simp [happends (h.node_mem (List.nil_subset _) hx)]

-- The events on record are those in the books.
theorem map_snd_events (h : Ledger m l place k pass seen log r s) :
    r.events.map Prod.snd = log.map Prod.snd := by
  have hevents := h.events
  clear h
  generalize r.events = events at hevents
  induction hevents with
  | nil => rfl
  | cons hxy _ ih => rw [List.map_cons, List.map_cons, hxy.2, ih]

theorem block (h : Ledger m l place k pass seen log r s) (hf : Faithful g d l)
    (horder : l.order = seen ++ id :: post) {p : Pass} {i : Instruction}
    (hi : Issued g l p id i)
    (hfront : (i :: (l.appends id).map Instruction.addDep) <+: m.instructions.drop k)
    {event : Option EventId} (hb : Block m l place id k i r r' s s' event) :
    Ledger m l place (k + (i :: (l.appends id).map Instruction.addDep).length) pass (seen ++ [id])
      (log.enter ⟨pass, id⟩ event) r' s' := by
  obtain ⟨rest, hrest⟩ := hfront
  have hget : m.instructions[k]? = some i := by
    rw [← Nat.add_zero k, ← List.getElem?_drop, ← hrest]
    rfl
  have hsite := Machine.site?_eq horder hget hi.isNode h.count
  have hframe := hb.outcome.frame
  constructor
  case count =>
    rw [List.take_add, ← hrest, List.take_left, List.countP_append, h.count,
      Laid.countP_block hi.isNode, List.length_append, List.length_singleton]
    omega
  case target => rw [hb.target, h.target]
  case attached => exact hframe.1 ▸ h.attached
  case device =>
    rw [Context.place_ok, hframe.2]
    exact Context.place_ok.mp h.device
  case gathers => exact h.gathers.block hf horder hb.lists
  case events =>
    rw [hb.events, Log.enter]
    refine List.rel_append h.events ?_
    cases event with
    | none => exact .nil
    | some e => exact .cons ⟨hsite, rfl⟩ .nil
  case issued =>
    have hsites : passSites (seen ++ [id]) pass = passSites seen pass ++ [⟨pass, id⟩] := by
      simp [passSites]
    rw [hsites, ← List.append_assoc, Log.enter, List.map_append]
    refine h.issued.append ?_
    cases event with
    | none => exact List.nil_sublist _
    | some e => exact List.Sublist.refl _
  case rising =>
    refine List.pairwise_append.mpr ⟨h.rising, ?_, ?_⟩
    case refine_1 => cases event <;> simp
    case refine_2 =>
      intro x hx y hy
      obtain ⟨e, rfl, rfl⟩ : ∃ e, event = some e ∧ (⟨pass, id⟩, e) = y := by simpa using hy
      obtain ⟨_, _, _, he, _⟩ := hb.outcome.of_some
      rw [he]
      exact h.past x hx
  case past =>
    intro x hx
    rcases List.mem_append.mp hx with hold | hnew
    case inl => exact Nat.lt_of_lt_of_le (h.past x hold) hb.outcome.next_le
    case inr =>
      obtain ⟨e, rfl, rfl⟩ : ∃ e, event = some e ∧ (⟨pass, id⟩, e) = x := by simpa using hnew
      obtain ⟨_, _, _, he, hqueue⟩ := hb.outcome.of_some
      rw [he, hqueue]
      exact Nat.lt_succ_self _

theorem next (h : Ledger m l place k pass l.order log r s) (hf : Faithful g d l) :
    Ledger m l place k (pass + 1) [] log r s where
  count := by rw [h.count, Nat.succ_mul]; rfl
  target := h.target
  attached := h.attached
  device := h.device
  gathers := h.gathers.next hf fun _ hx => h.pass_le hx
  events := h.events
  issued := by simpa [Compile.sites_succ, passSites] using h.issued
  rising := h.rising
  past := h.past

-- Once CONTEXT was issued the books are open, and empty.
theorem start {r₀ : Registry} {c : Context} {batch : Option Nat} {q nodes tasks lists : Nat}
    (hm : Compile.Made r₀ c g batch q d l passes m) {rest : List Instruction}
    (his : m.instructions = .begin nodes tasks lists :: .context l.device :: rest)
    (hattached : ∀ place, s.part.place l.device = .ok place → place < s.platform.channels.length)
    (h : Reaches m 0 [.begin nodes tasks lists, .context l.device] (Run.start m) s r' s') :
    ∃ place, s.part.place l.device = .ok place ∧ Context.Quiet place s s' ∧
      Ledger m l place 2 0 [] [] r' s' := by
  cases h with
  | @step _ _ _ _ r₁ _ _ s₁ _ hbegin hrest =>
    cases hrest with
    | step hcontext hdone =>
      cases hdone
      obtain ⟨hquiet, rfl⟩ := Machine.step_begin hbegin
      obtain ⟨hquiet', place, hplace, rfl⟩ := Machine.step_context hcontext
      have hall := (Context.quiet_lasting place).trans (hquiet place) (hquiet' place)
      have hplace' : s.part.place l.device = .ok place := by
        rw [Context.place_ok] at hplace ⊢
        rw [← (hquiet place).devices, hplace]
      refine ⟨place, hplace', hall, ?_⟩
      constructor
      case count => simp [his, Instruction.opcode, Opcode.isNode]
      case target => rfl
      case attached =>
        rw [hall.platform.2]
        exact hattached place hplace'
      case device =>
        rw [Context.place_ok] at hplace ⊢
        rw [(hquiet' place).devices, hplace]
      case gathers => exact .start l _ hm.lists
      case events => exact .nil
      case issued => exact List.nil_sublist _
      case rising => exact .nil
      case past => exact List.forall_mem_nil _

section

-- A property of a run that every block keeps, and the change from one pass to the next.
structure Carried (m : Machine) (g : Graph) (l : Layout) (passes : List Pass) (place : Nat)
    (P : (pass : Nat) → (seen : List Nat) → Log → Run → Hosted Context → Prop) : Prop where
  block : ∀ {k pass id seen post log r s r' s' event p i}, Ledger m l place k pass seen log r s →
    P pass seen log r s → l.order = seen ++ id :: post → passes[pass]? = some p →
    Issued g l p id i → Block m l place id k i r r' s s' event →
    (i.opcode = .launch ∨ i.opcode = .streamOut → event.isSome) →
    P pass (seen ++ [id]) (log.enter ⟨pass, id⟩ event) r' s'
  next : ∀ {k pass log r s}, Ledger m l place k pass l.order log r s → P pass l.order log r s →
    P (pass + 1) [] log r s

variable {P : (pass : Nat) → (seen : List Nat) → Log → Run → Hosted Context → Prop}
  {is : List Instruction}

theorem prefix_drop {is₁ is₂ : List Instruction} (h : is₁ ++ is₂ <+: m.instructions.drop k) :
    is₂ <+: m.instructions.drop (k + is₁.length) := by
  obtain ⟨rest, hdrop⟩ := h
  rw [← List.drop_drop, ← hdrop, List.append_assoc, List.drop_left]
  exact List.prefix_append _ _

theorem run_pass (hP : Carried m g l passes place P) (hf : Faithful g d l) {more : List Nat}
    (h : Ledger m l place k pass seen log r s) (hp : P pass seen log r s)
    (horder : l.order = seen ++ (more ++ post)) (hlaid : Laid g l passes (passSites more pass) is)
    (hfront : is <+: m.instructions.drop k) (hrun : Reaches m k is r s r' s') :
    ∃ log', Ledger m l place (k + is.length) pass (seen ++ more) log' r' s' ∧
      P pass (seen ++ more) log' r' s' := by
  induction more generalizing k seen log r s is with
  | nil =>
    cases hlaid
    cases hrun
    exact ⟨log, by simpa using h, by simpa using hp⟩
  | cons id more ih =>
    cases hlaid with
    | @cons _ p i _ js hpass hi hrest =>
      obtain ⟨r₁, s₁, hblock, hafter⟩ := hrun.split
      have hfront₁ := (List.prefix_append _ js).trans hfront
      obtain ⟨event, hb, hanswered⟩ :=
        hblock.block hi h.target h.attached h.device h.gathers.length
      have h₁ := h.block hf horder hi hfront₁ hb
      have hp₁ := hP.block h hp horder hpass hi hb hanswered
      obtain ⟨log', h', hp'⟩ :=
        ih h₁ hp₁ (by rw [horder]; simp) hrest (prefix_drop hfront) hafter
      rw [List.length_append, ← Nat.add_assoc, List.append_cons]
      exact ⟨log', h', hp'⟩

theorem run_passes (hP : Carried m g l passes place P) (hf : Faithful g d l)
    (h : Ledger m l place k 0 [] [] r s) (hp : P 0 [] [] r s) {n : Nat}
    (hlaid : Laid g l passes (sites l.order n) is) (hfront : is <+: m.instructions.drop k)
    (hrun : Reaches m k is r s r' s') :
    ∃ log', Ledger m l place (k + is.length) n [] log' r' s' ∧ P n [] log' r' s' := by
  induction n generalizing is r' s' with
  | zero =>
    cases hlaid
    cases hrun
    exact ⟨[], h, hp⟩
  | succ n ih =>
    rw [Compile.sites_succ] at hlaid
    obtain ⟨is₁, is₂, rfl, hlaid₁, hlaid₂⟩ := hlaid.split
    obtain ⟨r₁, s₁, hrun₁, hrun₂⟩ := hrun.split
    obtain ⟨log₁, h₁, hp₁⟩ := ih hlaid₁ ((List.prefix_append _ _).trans hfront) hrun₁
    obtain ⟨log', h', hp'⟩ :=
      run_pass hP hf h₁ hp₁ (List.append_nil _).symm hlaid₂ (prefix_drop hfront) hrun₂
    rw [List.nil_append] at h' hp'
    rw [List.length_append, ← Nat.add_assoc]
    exact ⟨log', h'.next hf, hP.next h' hp'⟩

-- Every run over the blocks of some passes, and of a part of the next, keeps the books.
theorem run (hP : Carried m g l passes place P) (hf : Faithful g d l)
    (h : Ledger m l place k 0 [] [] r s) (hp : P 0 [] [] r s) (horder : l.order = seen ++ post)
    (hlaid : Laid g l passes (sites l.order pass ++ passSites seen pass) is)
    (hfront : is <+: m.instructions.drop k) (hrun : Reaches m k is r s r' s') :
    ∃ log', Ledger m l place (k + is.length) pass seen log' r' s' ∧ P pass seen log' r' s' := by
  obtain ⟨is₁, is₂, rfl, hlaid₁, hlaid₂⟩ := hlaid.split
  obtain ⟨r₁, s₁, hrun₁, hrun₂⟩ := hrun.split
  obtain ⟨log₁, h₁, hp₁⟩ :=
    run_passes hP hf h hp hlaid₁ ((List.prefix_append _ _).trans hfront) hrun₁
  obtain ⟨log', h', hp'⟩ :=
    run_pass hP hf h₁ hp₁ (by simpa using horder) hlaid₂ (prefix_drop hfront) hrun₂
  rw [List.length_append, ← Nat.add_assoc]
  exact ⟨log', h', hp'⟩

end
end Ledger
end Offload
