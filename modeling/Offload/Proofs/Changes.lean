import Offload.Proofs.Custody

/-!
Calls that change buffers. Whatever a context does, the new calls in the journals change buffers of its own,
or buffers that are gone; those of other contexts are left alone.
-/

namespace Offload

-- The call may change what a buffer holds.
def Call.Changes (id : BufferId) : Call → Prop
  | .write id' .. => id' = id
  | .launch _ ids .. => id ∈ ids
  | _ => False

theorem Call.Bufferless.not_changes {call : Call} (h : call.Bufferless) (id : BufferId) :
    ¬call.Changes id := by
  cases call with
  | write | launch => exact h.elim
  | _ => exact fun hchanges => hchanges

namespace Channel

variable {α : Type} {p p' p'' : Channel} {Q R : BufferId → Prop} {id : BufferId}

-- Time went on, and the new calls change only such buffers.
structure Adds (Q : BufferId → Prop) (p p' : Channel) : Prop where
  onward  : p.device.Onward p'.device
  next    : p.device.memory.next ≤ p'.device.memory.next
  journal : ∃ calls, p'.journal = p.journal ++ calls ∧ ∀ call ∈ calls, ∀ id, call.Changes id → Q id

theorem adds_lasting : Action.Lasting (Adds Q) where
  refl p := ⟨Device.onward_lasting.refl _, Nat.le_refl _, [], by simp, nofun⟩
  trans := by
    intro p p' p'' ⟨honward, hnext, calls, hcalls, hQ⟩ ⟨honward', hnext', calls', hcalls', hQ'⟩
    refine ⟨Device.onward_lasting.trans honward honward', Nat.le_trans hnext hnext', calls ++ calls', ?_,
      fun call hcall => ?_⟩
    case refine_1 => rw [hcalls', hcalls, List.append_assoc]
    case refine_2 => exact (List.mem_append.mp hcall).elim (hQ call) (hQ' call)

theorem Adds.mono (h : p.Adds Q p') (hQR : ∀ id, Q id → R id) : p.Adds R p' := by
  obtain ⟨calls, hjournal, hQ⟩ := h.journal
  exact ⟨h.onward, h.next, calls, hjournal, fun call hcall id hid => hQR id (hQ call hcall id hid)⟩

theorem Calm.adds (h : p.Calm p') : p.Adds Q p' := by
  obtain ⟨calls, hjournal, hnone⟩ := h.journal
  exact ⟨h.device.onward, Nat.le_of_eq (by rw [h.device.memory]), calls, hjournal,
    fun call hcall id hid => absurd hid ((hnone call hcall).not_changes id)⟩

theorem adds_noting {note : Except Error α → Call} {call : Action Device α}
    (hnote : ∀ r id, (note r).Changes id → Q id) (honward : call.Keeps Device.Onward)
    (hnext : call.Keeps fun d d' => d.memory.next ≤ d'.memory.next) : (noting note call).Keeps (Adds Q) :=
  fun p => ⟨honward p.device, hnext p.device, [_], rfl, fun _ h => List.mem_singleton.mp h ▸ hnote _⟩

theorem adds_allocate (size : Nat) : (allocate size).Keeps (Adds Q) := by
  refine adds_noting nofun (fun d => (Device.idle_allocate size d).onward) fun d => ?_
  unfold Device.allocate
  refine Action.Ends.bind_get ?_
  cases hmemory : d.memory.allocate size with
  | error => exact Nat.le_refl _
  | ok result =>
    obtain ⟨id, memory⟩ := result
    have hnext : d.memory.next ≤ memory.next := (Memory.allocate_next hmemory).2 ▸ Nat.le_succ _
    exact hnext

theorem adds_release (id : BufferId) : (release id).Keeps (Adds Q) :=
  adds_noting nofun (fun d => (Device.idle_release id d).onward)
    fun d => Nat.le_of_eq (Memory.next_release d.memory id).symm

theorem adds_write (id : BufferId) (data : Bytes) (wait : List EventId) (blocking : Bool) :
    (write id data wait blocking).Keeps (Adds (· = id)) :=
  adds_noting (fun _ _ h => Eq.symm h) (fun d => (Device.still_write id data wait blocking d).onward)
    fun d => Nat.le_of_eq (Device.next_write id data wait blocking d).symm

theorem adds_read (id : BufferId) (hostSize offset length : Nat) (wait : List EventId) (blocking : Bool) :
    (read id hostSize offset length wait blocking).Keeps (Adds Q) :=
  adds_noting nofun (fun d => (Device.still_read id hostSize offset length wait blocking d).onward)
    fun d => Nat.le_of_eq (Device.next_read id hostSize offset length wait blocking d).symm

theorem adds_launch (kernel : Nat) (ids : List BufferId) (geometry : Geometry) (wait : List EventId) :
    (launch kernel ids geometry wait).Keeps (Adds (· ∈ ids)) :=
  adds_noting (fun _ _ h => h) (fun d => (Device.still_launch kernel ids geometry wait d).onward)
    fun d => Nat.le_of_eq (Device.next_launch kernel ids geometry wait d).symm

-- The events are over, and calls changed only buffers that had been made by then.
structure Dated (p : Channel) : Prop where
  past : p.device.Past
  made : ∀ call ∈ p.journal, ∀ id, call.Changes id → id.number < p.device.memory.next

theorem Dated.adds (h : p.Dated) (hadds : p.Adds Q p')
    (hQ : ∀ id, Q id → id.number < p.device.memory.next) : p'.Dated := by
  obtain ⟨calls, hjournal, hnew⟩ := hadds.journal
  refine ⟨hadds.onward.past h.past, fun call hcall id hid => Nat.lt_of_lt_of_le ?_ hadds.next⟩
  rw [hjournal] at hcall
  rcases List.mem_append.mp hcall with hbefore | hafter
  case inl => exact h.made call hbefore id hid
  case inr => exact hQ id (hnew call hafter id hid)

end Channel

-- A call on one device adds nothing to the journals of others.
theorem Platform.adds_onChannel {α : Type} {act : Action Channel α} {p : Platform} {place : Nat}
    {Q : BufferId → Prop} (h : (p.channel place).Adds Q (act (p.channel place)).2) (other : Nat) :
    (p.channel other).Adds (fun id => other = place ∧ Q id) ((onChannel place act p).2.channel other) := by
  by_cases heq : other = place
  case pos =>
    subst heq
    exact (rel_onChannel (fun _ => Channel.adds_lasting.refl _) act p other h other).mono
      fun _ hid => ⟨rfl, hid⟩
  case neg =>
    rw [channel_onChannel_ne (Ne.symm heq)]
    exact Channel.adds_lasting.refl _

namespace Context

variable {rest : Nat → List (BufferId × Nat)} {s t u : Hosted Context}
  {A : Hosted Context → Deal → Prop} {c : Context} {p : Platform} {place : Nat} {id : BufferId} {d : Deal}

-- A buffer that the context has on the device, or one that nobody has any more.
def Touches (s : Hosted Context) (place : Nat) (id : BufferId) : Prop :=
  s.part.activePlace? = some place ∧
    ((∃ b ∈ s.part.bindings, b.state.buffer = some id) ∨ (s.device place).memory.Gone id)

theorem Books.number_lt (hbooks : Books rest s) (h : Touches s place id) :
    id.number < (s.device place).memory.next := by
  obtain ⟨hplace, ⟨b, hb, hid⟩ | hgone⟩ := h
  case inr => exact hgone.1
  case inl =>
    obtain ⟨buffer, hbuffer, _⟩ := (hbooks.orderly place).buffer?_of_mem (hbooks.mem_live hplace hb hid)
    rw [← Memory.id_of_buffer? hbuffer]
    exact (hbooks.orderly place).sound buffer (List.mem_of_find?_eq_some hbuffer)

-- Nobody else has such a buffer.
theorem Books.not_others (hbooks : Books rest s) (h : Touches s place id) : ∀ x ∈ rest place, x.1 ≠ id := by
  rintro x hx rfl
  have hlive : x ∈ (s.device place).memory.live :=
    (hbooks.balanced place).mem_iff.mpr (List.mem_append_right _ hx)
  obtain ⟨hplace, ⟨b, hb, hid⟩ | ⟨_, hnone⟩⟩ := h
  case inr => exact Memory.buffer?_eq_none_iff.mp hnone (List.mem_map_of_mem hlive)
  case inl =>
    have hnodup := (hbooks.orderly place).nodup
    have hbalanced := (hbooks.balanced place).map Prod.fst
    rw [← Memory.map_fst_live, hbalanced.nodup_iff, List.map_append, heldAt, if_pos hplace] at hnodup
    exact (List.nodup_append.mp hnodup).2.2 _ (List.mem_map_of_mem (mem_held hb hid)) _
      (List.mem_map_of_mem hx) rfl

theorem Collected.touched {arguments : List Argument} {ids : List BufferId}
    (h : s.part.Collected (s.device place).memory arguments ids) (hplace : s.part.activePlace? = some place)
    (hid : id ∈ ids) : Touches s place id := by
  induction h with
  | nil => cases hid
  | cons hhead _ ih =>
    rcases List.mem_cons.mp hid with rfl | hrest
    case inr => exact ih hrest
    case inl =>
      refine ⟨hplace, hhead.imp (fun ⟨_, b, hb, hbuffer⟩ => ?_) And.right⟩
      exact ⟨b, List.mem_of_getElem? hb.2, hbuffer⟩

theorem giveUpAll_adds (bs : List Binding) (other : Nat) :
    (p.channel other).Adds (fun _ => False) ((bs.foldl c.giveUp p).channel other) := by
  induction bs generalizing p with
  | nil => exact Channel.adds_lasting.refl _
  | cons b bs ih =>
    refine Channel.adds_lasting.trans ?_ ih
    obtain ⟨registry, _, heq⟩ := giveUp_eq c p b
    rw [heq]
    split
    case h_1 place id _ _ =>
      exact (Platform.adds_onChannel (Channel.adds_release id _) other).mono fun _ => And.right
    case h_2 => exact Channel.adds_lasting.refl _

-- The calls of a deal change buffers of the context, or such that are gone.
theorem Does.adds (hdoes : Does d s t) (other : Nat) :
    (s.platform.channel other).Adds (Touches s other) (t.platform.channel other) := by
  cases hdoes with
  | attach =>
    exact (Platform.adds_onChannel (Q := fun _ => False) (Channel.adds_allocate _ _) other).mono
      fun _ h => h.2.elim
  | detach =>
    exact (Platform.adds_onChannel (Q := fun _ => False) (Channel.adds_release _ _) other).mono
      fun _ h => h.2.elim
  | fill hplace hb hid =>
    refine (Platform.adds_onChannel (Channel.adds_write _ _ _ _ _) other).mono ?_
    rintro _ ⟨rfl, rfl⟩
    exact ⟨hplace, .inl ⟨_, List.mem_of_getElem? hb, hid⟩⟩
  | miss hplace hb hid =>
    refine (Platform.adds_onChannel (Channel.adds_write _ _ _ _ _) other).mono ?_
    rintro _ ⟨rfl, rfl⟩
    exact ⟨hplace, .inl ⟨_, List.mem_of_getElem? hb, hid⟩⟩
  | run kernel geometry wait hplace htask hids =>
    refine (Platform.adds_onChannel (Channel.adds_launch _ _ _ _ _) other).mono ?_
    rintro id ⟨rfl, hid⟩
    exact hids.touched hplace hid
  | deliver =>
    rw [Platform.channel_readBack]
    exact (Platform.adds_onChannel (Q := fun _ => False) (Channel.adds_read _ _ _ _ _ _ _) other).mono
      fun _ h => h.2.elim
  | clear => exact (giveUpAll_adds s.part.bindings other).mono fun _ => False.elim
  | mark | own | turn => exact Channel.adds_lasting.refl _

-- Whatever a context does, it changes no buffer of another one.
theorem Deals.adds (h : Deals A s t) (hbooks : Books rest s) (place : Nat) :
    (s.platform.channel place).Adds (fun id => ∀ x ∈ rest place, x.1 ≠ id) (t.platform.channel place) :=
  h.keep (I := fun u => (s.platform.channel place).Adds _ (u.platform.channel place)) hbooks
    (Channel.adds_lasting.refl _)
    (fun _ _ hcalm hu => Channel.adds_lasting.trans hu (hcalm.channels place).adds)
    fun _ _ _ hu _ hdoes hadds => Channel.adds_lasting.trans hadds
      ((hdoes.adds place).mono fun _ => hu.books.not_others)

theorem Does.dated (hdoes : Does d s t) (hbooks : Books rest s)
    (h : ∀ place, (s.platform.channel place).Dated) (place : Nat) : (t.platform.channel place).Dated :=
  (h place).adds (hdoes.adds place) fun _ => hbooks.number_lt

theorem Calm.dated (hcalm : Calm s t) (h : ∀ place, (s.platform.channel place).Dated) (place : Nat) :
    (t.platform.channel place).Dated :=
  (h place).adds (Q := fun _ => False) (hcalm.channels place).adds fun _ => False.elim

theorem Deals.dated (h : Deals A s t) (hbooks : Books rest s)
    (hdated : ∀ place, (s.platform.channel place).Dated) : ∀ place, (t.platform.channel place).Dated :=
  h.keep (I := fun u => ∀ place, (u.platform.channel place).Dated) hbooks hdated
    (fun _ _ hcalm hu => hcalm.dated hu) fun _ _ _ hu _ hdoes hdated => hdoes.dated hu.books hdated

end Context
end Offload
