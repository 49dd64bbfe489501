import Offload.Proofs.Kernels
import Offload.Proofs.Publishing
import Offload.Proofs.Requests

/-!
What a context leaves alone that has nothing to do with it: the buffers that are not its own, whether they are
still there or not, and the bytes and the records of objects that it has not bound.
-/

namespace Offload

namespace Memory

variable {m m' m'' : Memory} {id : BufferId} {size : Nat}

-- The capacity is the same, and what is gone stays gone.
structure Wears (m m' : Memory) : Prop where
  capacity : m'.capacity = m.capacity
  gone     : ∀ id, m.Gone id → m'.Gone id

theorem Wears.refl (m : Memory) : m.Wears m :=
  ⟨rfl, fun _ => id⟩

theorem Wears.trans (h : m.Wears m') (h' : m'.Wears m'') : m.Wears m'' :=
  ⟨h'.capacity.trans h.capacity, fun id => h'.gone id ∘ h.gone id⟩

theorem wears_release (m : Memory) (id : BufferId) : m.Wears (m.release id) :=
  ⟨capacity_release m id, fun _ h => h.release id⟩

theorem wears_allocate (h : m.allocate size = .ok (id, m')) : m.Wears m' := by
  refine ⟨?_, fun _ hgone => hgone.allocate h⟩
  rcases m.allocate_cases size with ⟨_, _, heq, hcapacity, _⟩ | ⟨_, heq⟩ <;> cases h.symm.trans heq
  exact hcapacity

end Memory

theorem Device.Steady.wears {d d' : Device} (h : d.Steady d') : d.memory.Wears d'.memory := by
  refine ⟨h.capacity, fun id ⟨hmade, hnone⟩ => ⟨h.next ▸ hmade, ?_⟩⟩
  rw [Memory.buffer?_eq_none_iff] at hnone ⊢
  rwa [h.alike.live]

namespace Channel

variable {α : Type} {p p' : Channel}

def Wears (p p' : Channel) : Prop :=
  p.device.memory.Wears p'.device.memory

theorem wears_lasting : Action.Lasting Wears :=
  ⟨fun p => .refl p.device.memory, Memory.Wears.trans⟩

theorem Calm.wears (h : p.Calm p') : p.Wears p' := by
  rw [Wears, h.device.memory]
  exact .refl _

theorem wears_noting {note : Except Error α → Call} {call : Action Device α} (h : call.Keeps Device.Steady) :
    (noting note call).Keeps Wears :=
  fun p => (h p.device).wears

theorem wears_release (id : BufferId) : (release id).Keeps Wears :=
  fun p => p.device.memory.wears_release id

theorem wears_allocate (size : Nat) : (allocate size).Keeps Wears := by
  intro p
  cases hmemory : p.device.memory.allocate size with
  | error cause => exact (calm_allocate_of_error hmemory).wears
  | ok result =>
    obtain ⟨id, m⟩ := result
    obtain ⟨c, hc, hdevice⟩ := allocate_of_ok hmemory
    rw [Action.Ends, hc, Wears, hdevice]
    exact Memory.wears_allocate hmemory

end Channel

namespace Context

variable {rest : Nat → List (BufferId × Nat)} {s t : Hosted Context} {c : Context} {p : Platform}
  {A : Hosted Context → Deal → Prop} {d : Deal} {place : Nat} {id : BufferId} {h : Handle}

theorem wears_onChannel {α : Type} {act : Action Channel α} (hact : act.Keeps Channel.Wears) (p : Platform)
    (place other : Nat) : (p.channel place).Wears ((Platform.onChannel other act p).2.channel place) :=
  Platform.rel_onChannel (R := Channel.Wears) (fun _ => .refl _) act p other (hact _) place

theorem giveUpAll_wears (bs : List Binding) (p : Platform) (place : Nat) :
    (p.channel place).Wears ((bs.foldl c.giveUp p).channel place) := by
  induction bs generalizing p with
  | nil => exact .refl _
  | cons b bs ih =>
    refine Channel.wears_lasting.trans ?_ (ih _)
    obtain ⟨registry, _, heq⟩ := giveUp_eq c p b
    rw [heq]
    split
    case h_1 => exact wears_onChannel (Channel.wears_release _) p place _
    case h_2 => exact .refl _

theorem Does.wears (hdoes : Does d s t) (place : Nat) :
    (s.platform.channel place).Wears (t.platform.channel place) := by
  cases hdoes with
  | attach => exact wears_onChannel (Channel.wears_allocate _) _ place _
  | detach => exact wears_onChannel (Channel.wears_release _) _ place _
  | fill => exact wears_onChannel (Channel.wears_noting (Device.steady_write _ _ _ _)) _ place _
  | miss => exact wears_onChannel (Channel.wears_noting (Device.steady_write _ _ _ _)) _ place _
  | run => exact wears_onChannel (Channel.wears_noting (Device.steady_launch _ _ _ _)) _ place _
  | deliver =>
    rw [Platform.channel_readBack]
    exact wears_onChannel (Channel.wears_noting (Device.steady_read _ _ _ _ _ _)) _ place _
  | clear => exact giveUpAll_wears s.part.bindings s.platform place
  | mark | own | turn => exact .refl _

theorem Deals.wears (hdeals : Deals A s t) (hbooks : Books rest s) (place : Nat) :
    (s.platform.channel place).Wears (t.platform.channel place) :=
  hdeals.keep (I := fun u => (s.platform.channel place).Wears (u.platform.channel place)) hbooks (.refl _)
    (fun _ _ hcalm hu => hu.trans (hcalm.channels place).wears)
    fun _ _ _ _ _ hdoes hu => hu.trans (hdoes.wears place)

-- A buffer that was made for somebody else is as it was, also if it is not there any more.
theorem Deals.contents_others (hdeals : Deals A s t) (hbooks : Books rest s)
    (hmade : id.number < (s.device place).memory.next)
    (hothers : id ∉ (s.part.heldAt place).map Prod.fst) :
    (t.device place).memory.contents? id = (s.device place).memory.contents? id := by
  by_cases hlive : id ∈ (s.device place).memory.live.map Prod.fst
  case pos =>
    obtain ⟨x, hx, rfl⟩ := List.mem_map.mp hlive
    have hrest := (List.mem_append.mp ((hbooks.balanced place).mem_iff.mp hx)).resolve_left
      fun hheld => hothers (List.mem_map_of_mem hheld)
    exact hdeals.contents_rest hbooks hrest
  case neg =>
    have hgone : (s.device place).memory.Gone id := ⟨hmade, Memory.buffer?_eq_none_iff.mpr hlive⟩
    have hgone' := (hdeals.wears hbooks place).gone id hgone
    have hnone {m : Memory} (h : m.Gone id) : m.contents? id = none := by rw [Memory.contents?, h.2]; rfl
    exact (hnone hgone').trans (hnone hgone).symm

theorem record?_giveUpAll {bs : List Binding} (hbs : ∀ b ∈ bs, b.object.handle ≠ h) (p : Platform) :
    (bs.foldl c.giveUp p).registry.record? h = p.registry.record? h := by
  induction bs generalizing p with
  | nil => rfl
  | cons b bs ih =>
    obtain ⟨hfirst, hlater⟩ := List.forall_mem_cons.mp hbs
    rw [List.foldl_cons, ih hlater]
    unfold giveUp
    cases c.active with
    | none => rfl
    | some active =>
      have hclear (p' : Platform) (hregistry : p'.registry = p.registry) :
          (if (p'.registry.record? b.object.handle).bind Ownership.owner = some active then
            { p' with registry := p'.registry.clearOwner b.object.handle } else p').registry.record? h =
              p.registry.record? h := by
        split
        case isTrue => rw [Registry.record?_clearOwner, if_neg hfirst.symm, hregistry]
        case isFalse => rw [hregistry]
      exact hclear _ (by split <;> rfl)

-- An object that is not bound is not read back to, and nobody is put on record for it.
theorem Does.registry_others (hdoes : Does d s t) (hbooks : Books rest s)
    (hnone : ∀ b ∈ s.part.bindings, b.object.handle ≠ h) :
    t.platform.registry.bytes h = s.platform.registry.bytes h ∧
      t.platform.registry.record? h = s.platform.registry.record? h := by
  have hoffers : ¬s.part.Offers h := fun ⟨b, hb, heq, _⟩ => hnone b hb heq
  cases d with
  | clear => cases hdoes; exact ⟨bytes_giveUpAll _ _ _ _, record?_giveUpAll hnone _⟩
  | deliver => exact hdoes.spares_others trivial hbooks hoffers
  | own => exact hdoes.spares_others trivial hbooks hoffers
  | _ => cases hdoes; exact ⟨rfl, rfl⟩

theorem Deals.registry_others (hdeals : Deals A s t) (hbooks : Books rest s)
    (hnone : ∀ b ∈ s.part.bindings, b.object.handle ≠ h) :
    t.platform.registry.bytes h = s.platform.registry.bytes h ∧
      t.platform.registry.record? h = s.platform.registry.record? h := by
  refine hdeals.keep (I := fun u => u.platform.registry.bytes h = s.platform.registry.bytes h ∧
    u.platform.registry.record? h = s.platform.registry.record? h) hbooks ⟨rfl, rfl⟩
      (fun _ _ hcalm hu => hcalm.registry ▸ hu) fun d u v hu _ hdoes ⟨hbytes, hrecord⟩ => ?_
  have hnone' := forall_objects (Q := fun o => o.handle ≠ h) hu.stable.objects hnone
  exact (hdoes.registry_others hu.books hnone').imp (·.trans hbytes) (·.trans hrecord)

end Context

-- What is left alone by somebody who has some buffers at a place, and has to do with some objects.
structure Platform.Leaves (place : Nat) (held : List BufferId) (own : Handle → Prop) (p p' : Platform) : Prop where
  adds     : (p.channel place).Adds (fun _ => True) (p'.channel place)
  wears    : (p.channel place).Wears (p'.channel place)
  same     : (p.channel place).Same (p'.channel place)
  contents : ∀ id, id.number < (p.channel place).device.memory.next → id ∉ held →
    (p'.channel place).device.memory.contents? id = (p.channel place).device.memory.contents? id
  bytes    : ∀ h, ¬own h → p'.registry.bytes h = p.registry.bytes h
  records  : ∀ h, ¬own h → p'.registry.record? h = p.registry.record? h

namespace Platform.Leaves

variable {place : Nat} {held : List BufferId} {own : Handle → Prop}

theorem refl (p : Platform) : p.Leaves place held own p :=
  ⟨Channel.adds_lasting.refl _, .refl _, rfl, fun _ _ _ => rfl, fun _ _ => rfl, fun _ _ => rfl⟩

end Platform.Leaves

theorem Context.Deals.leaves {A : Hosted Context → Deal → Prop} {rest : Nat → List (BufferId × Nat)}
    {s t : Hosted Context} (hdeals : Deals A s t) (hbooks : Books rest s) (hschooled : Schooled s t)
    {own : Handle → Prop} (hown : ∀ b ∈ s.part.bindings, own b.object.handle) (place : Nat) :
    s.platform.Leaves place ((s.part.heldAt place).map Prod.fst) own t.platform where
  adds := (hdeals.adds hbooks place).mono fun _ _ => trivial
  wears := hdeals.wears hbooks place
  same := hschooled.same place
  contents _ hmade hothers := hdeals.contents_others hbooks hmade hothers
  bytes h hnot := (hdeals.registry_others hbooks fun b hb (heq : _ = h) => hnot (heq ▸ hown b hb)).1
  records h hnot := (hdeals.registry_others hbooks fun b hb (heq : _ = h) => hnot (heq ▸ hown b hb)).2

namespace Execution

-- Nobody is put on record but for what is pending.
theorem record?_wait {h : Handle} : wait.Keeps fun s t => h ∉ s.part.pending →
    h ∉ t.part.pending ∧ t.platform.registry.record? h = s.platform.registry.record? h := by
  have hR : Action.Lasting fun s t : Hosted Execution => h ∉ s.part.pending →
      h ∉ t.part.pending ∧ t.platform.registry.record? h = s.platform.registry.record? h :=
    ⟨fun _ hs => ⟨hs, rfl⟩, fun hst htu hs => ⟨(htu (hst hs).1).1, (htu (hst hs).1).2.trans (hst hs).2⟩⟩
  unfold wait
  refine .bind hR (.get hR) fun e => .bind hR (.bind hR (.get hR) fun _ _ hs => ⟨hs, rfl⟩) fun _ =>
    .bind hR (fun s hs => ?_) fun found => ?_
  case refine_1 =>
    have hpending := (awaits_settle e.part.events none s).pending
    have hregistry := settle_registry e.part.events none s
    exact ⟨fun hmem => hs (hpending hmem), congrArg (·.record? h) hregistry⟩
  case refine_2 =>
    split
    case h_1 => exact .throw hR _
    case h_2 => exact .modify fun s hs => ⟨List.not_mem_nil, (record?_publishAll _ _ _ _).trans (if_neg hs)⟩

theorem wait_leaves {own : Handle → Prop} {s : Hosted Execution} (hown : ∀ h ∈ s.part.pending, own h)
    (place : Nat) (held : List BufferId) : s.platform.Leaves place held own (wait s).2.platform := by
  have hidle := (wait_awaits s).idle
  have hcalm := hidle.calm place
  refine ⟨hcalm.adds, hcalm.wears, same_wait s place, fun id _ _ => ?_, fun h _ => congrFun hidle.bytes h,
    fun h hnot => (record?_wait s fun hmem => hnot (hown h hmem)).2⟩
  rw [hcalm.device.memory]

end Execution
end Offload
