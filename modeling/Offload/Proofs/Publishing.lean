import Offload.Proofs.Coherence
import Offload.Proofs.Customs
import Offload.Proofs.Earning

/-!
What is handed on as data. A guest reads back, and puts on record, what its buffers are said to hold. Its copies
ended well, and so did its launches for tasks with exceptions; of the other launches it may be the results
although there are none.
-/

namespace Offload

-- A program that is made for a graph has nothing to wait for before it copies to a buffer.
theorem Machine.Stems.prompt {R : List Step → Prop} {c : Context} {m : Machine} (h : m.Stems R c) :
    ∀ i ∈ m.instructions, i.Prompt := by
  obtain ⟨g, _, _, _, _, _, _, ⟨_, _, _, _, _, hwired, _⟩, hcompile, hcreate⟩ := h
  obtain ⟨_, _, _, _, hmade⟩ := Compile.made_of_compile hcompile hcreate
  exact fun i hi => hmade.prompt hwired hi

namespace Context

variable {rest : Nat → List (BufferId × Nat)} {s t : Hosted Context} {A : Hosted Context → Deal → Prop} {d : Deal}
  {c : Context} {h : Handle}

theorem Grown.earns (hc : Grown s.part c) (hs : Earns s) : Earns { s with part := c } where
  dated := hs.dated
  earned place hplace := by
    rw [hc.activePlace?] at hplace
    have hpast := (hs.dated place).past
    exact hc.forall_bindings (Q := fun o st => st.Earned c.tasks (s.platform.channel place) o.handle)
      (fun _ _ => Iff.rfl) (fun _ => nofun)
      fun b hb => (hs.earned place hplace b hb).mono hpast hc.tasks.subset

-- Only data of the context is read back and put on record.
theorem Does.spares_others (hdoes : Does d s t) (hreads : d.Reads) (hbooks : Books rest s)
    (hnone : ¬s.part.Offers h) : t.platform.registry.bytes h = s.platform.registry.bytes h ∧
      t.platform.registry.record? h = s.platform.registry.record? h := by
  cases hdoes with
  | @deliver _ index length place b id offset wait blocking hplace hb hvalid hlength =>
    have hmem := List.mem_of_getElem? hb
    have hne : h ≠ b.object.handle := fun heq =>
      hnone ⟨b, hmem, heq.symm, ObjectState.isValid_of_validBuffer? hvalid⟩
    obtain ⟨contents, hcontents, hsize⟩ := (hbooks.orderly place).contents?_of_mem
      (hbooks.mem_live hplace hmem (ObjectState.buffer_of_validBuffer? hvalid))
    refine ⟨?_, Platform.record?_readBack _ _ _ _ _ _ _ _ _⟩
    rcases Platform.bytes_readBack offset wait blocking b.object.handle hcontents (hsize ▸ hlength) with
      hsame | ⟨_, hdelivered⟩
    case inl => rw [hsame]
    case inr => rw [hdelivered, Function.update_of_ne hne]
  | @own _ index device b hactive hb hvalid =>
    have hne : h ≠ b.object.handle := fun heq => hnone ⟨b, List.mem_of_getElem? hb, heq.symm, hvalid⟩
    exact ⟨Registry.bytes_setOwner _ _ _ _ _, by rw [Registry.record?_setOwner, if_neg hne]⟩
  | _ => exact hreads.elim

theorem sync_spares_others (hbooks : Books rest s) (objects : List HostObject) (hnone : ¬s.part.Offers h) :
    (sync objects).Ends s fun _ t => t.platform.registry.bytes h = s.platform.registry.bytes h ∧
      t.platform.registry.record? h = s.platform.registry.record? h := by
  refine (sync_deals hbooks objects).mono fun _ t hdeals => ?_
  refine (hdeals.keep (I := fun u => u.part.bindings = s.part.bindings ∧
      u.platform.registry.bytes h = s.platform.registry.bytes h ∧
        u.platform.registry.record? h = s.platform.registry.record? h) hbooks ⟨rfl, rfl, rfl⟩
    (fun u v hcalm hu => ⟨hcalm.bindings.trans hu.1, ?_⟩)
    fun d u v hsustains hd hdoes ⟨hsame, hbytes, hrecord⟩ => ?_).2
  case refine_1 =>
    rw [hcalm.registry]
    exact hu.2
  case refine_2 =>
    have hnone' : ¬u.part.Offers h := by rwa [Offers, hsame]
    obtain ⟨hbytes', hrecord'⟩ := hdoes.spares_others hd.reads hsustains.books hnone'
    refine ⟨?_, hbytes'.trans hbytes, hrecord'.trans hrecord⟩
    rw [hdoes.part_eq hd.reads]
    exact hsame

end Context

namespace Tenant

open Context

variable {R : List Step → Prop} {rest : Nat → List (BufferId × Nat)} {s t : Hosted Tenant}

-- What a deed leaves: data that was earned. The buffers of others were not changed.
structure Delivers (rest : Nat → List (BufferId × Nat)) (s t : Hosted Tenant) : Prop where
  earns : Earns ⟨t.platform, t.part.context⟩
  adds  : ∀ place, (s.platform.channel place).Adds (fun id => ∀ x ∈ rest place, x.1 ≠ id)
    (t.platform.channel place)

theorem delivers_of_grown (h : Earns ⟨s.platform, s.part.context⟩) (hplatform : t.platform = s.platform)
    (hc : Grown s.part.context t.part.context) : Delivers rest s t := by
  have hearns := hc.earns (s := ⟨s.platform, s.part.context⟩) h
  rw [← hplatform] at hearns
  exact ⟨hearns, fun place => hplatform ▸ Channel.adds_lasting.refl _⟩

theorem perform_delivers (hlodged : Lodged rest s) (hrooted : s.part.Rooted R)
    (h : Earns ⟨s.platform, s.part.context⟩) (deed : Deed) :
    (perform deed).Ends s fun _ t => Delivers rest s t := by
  have honContext {α : Type} {act : Context.On α} {A : Hosted Context → Deal → Prop}
      (hdeals : act.Ends ⟨s.platform, s.part.context⟩ fun _ v => Deals A ⟨s.platform, s.part.context⟩ v)
      (hearns : act.Ends ⟨s.platform, s.part.context⟩ fun _ v => Earns v) :
      (onContext act).Ends s fun _ t => Delivers rest s t :=
    ⟨hearns, Deals.adds hdeals hlodged.books⟩
  cases deed with
  | bind o => exact delivers_of_grown h rfl (s.part.context.grown_bind o)
  | build device steps =>
    exact (build_grown device steps s).mono fun _ _ ⟨hplatform, hc⟩ => delivers_of_grown h hplatform hc
  | compile graph batch config config' =>
    exact (compile_same graph batch config config' s).mono fun _ _ ⟨hplatform, hc⟩ =>
      delivers_of_grown h hplatform (hc ▸ grown_lasting.refl _)
  | execute machine =>
    unfold perform execute
    refine Action.Ends.bind_get ?_
    split
    case h_2 => exact delivers_of_grown h rfl (grown_lasting.refl _)
    case h_1 m hm =>
      have hm := List.mem_of_getElem? hm
      have hgrounded := (hlodged.suits m hm).grounded
      have hdeals := Machine.execute_deals (A := fun _ _ => True) hlodged.books hgrounded
        (fun _ _ _ _ _ _ _ => trivial) fun _ => trivial
      have hearns := Machine.execute_earns hlodged.books hgrounded (hrooted.machines m hm).prompt h
      exact (honContext hdeals hearns).bind (fun _ _ ht => ht) fun _ _ ht => ht
  | sync objects =>
    have hdeals := sync_deals hlodged.books objects
    refine honContext hdeals (hdeals.mono fun _ _ hread => hread.earns hlodged.books (fun _ d hd => ?_) h)
    cases d <;> trivial
  | invalidate =>
    have hdeals : Context.invalidate.Ends ⟨s.platform, s.part.context⟩ fun _ v =>
        Deals (fun _ d => d = .clear) ⟨s.platform, s.part.context⟩ v := Deals.of_does .clear rfl
    refine honContext hdeals (hdeals.mono fun _ _ hclear => hclear.earns hlodged.books (fun _ d hd => ?_) h)
    cases hd
    trivial

-- It takes more than the deeds of others to change a buffer of a tenant.
theorem Delivers.others {ts : List Tenant} {x : Tenant} (h : Delivers (House.heldBy ts) s t) (hx : x ∈ ts)
    (hearns : Earns ⟨s.platform, x.context⟩) : Earns ⟨t.platform, x.context⟩ :=
  hearns.frame h.earns.dated h.adds fun place hplace b hb id hid hothers => by
    have hheld : (id, b.state.size) ∈ x.context.heldAt place := by
      rw [heldAt, if_pos hplace]
      exact mem_held hb hid
    exact hothers _ (List.mem_flatMap.mpr ⟨x, hx, hheld⟩) rfl

theorem earning_custom : House.Custom (fun _ => True) (fun p => ∀ place, (p.channel place).Dated)
    fun p t => t.Rooted (fun _ => True) ∧ Earns ⟨p, t.context⟩ where
  enter p name devices hdated := ⟨⟨List.nodup_nil, nofun, nofun⟩, earns_of_empty hdated nofun⟩
  act p t ts deed hsound _ hall _ := by
    obtain ⟨⟨hrooted, hearns⟩, hothers⟩ := List.forall_mem_cons.mp hall
    have hbuilds : deed.Builds fun _ => True := by cases deed <;> trivial
    have hends : (perform deed).Ends ⟨p, t⟩ fun _ u =>
        Delivers (House.heldBy ts) ⟨p, t⟩ u ∧ u.part.Rooted fun _ => True :=
      ⟨perform_delivers hsound.lodged hrooted hearns deed, perform_rooted hsound.lodged hrooted hbuilds⟩
    refine hends.mono fun _ u ⟨hu, hrooted'⟩ => ⟨hu.earns.dated, ?_⟩
    exact List.forall_mem_cons.mpr
      ⟨⟨hrooted', hu.earns⟩, fun x hx => (hothers x hx).imp_right (hu.others hx)⟩
  leaves := trivial

end Tenant

namespace Execution

variable {s : Hosted Execution}

theorem settle_registry (events : List (Nat × EventId)) (failure : Option Error) :
    (settle events failure).Keeps fun s t => t.platform.registry = s.platform.registry := by
  have hR : Action.Lasting fun s t : Hosted Execution => t.platform.registry = s.platform.registry :=
    ⟨fun _ => rfl, fun h h' => h'.trans h⟩
  induction events generalizing failure with
  | nil => exact .pure hR _
  | cons event events ih =>
    unfold settle
    refine .bind hR (.bind hR (.get hR) fun _ _ => rfl) fun info => ?_
    split
    case h_1 => exact .bind hR (.modify fun _ => rfl) fun _ => ih _
    case h_2 => exact .bind hR (.get hR) fun _ => ih _
    case h_3 => exact ih _

-- Nothing is put on record without all events being known, and found not to have failed.
theorem wait_registry (s : Hosted Execution) : wait.Ends s fun result t =>
    t.platform.registry = s.platform.registry ∨
      result = .ok ⟨⟩ ∧ ∀ x ∈ s.part.events, ((s.queue s.part.target.place).status? x.2).isSome := by
  unfold wait
  refine Action.Ends.bind_get ?_
  have hcall := onTarget_eq (s := s) rfl (Channel.wait (s.part.events.map Prod.snd))
  rcases hwait : Channel.wait (s.part.events.map Prod.snd) (s.platform.channel s.part.target.place) with
    ⟨result, c⟩
  rw [hwait] at hcall
  cases result with
  | error => exact Action.Ends.bind_of_error hcall (.inl rfl)
  | ok =>
    obtain ⟨_, hknown⟩ := (Channel.wait_ends _ _).of_eq hwait
    refine Action.Ends.bind_of_ok hcall ((settle_registry _ none _).bind (fun found t ht => ?_) fun _ _ ht =>
      .inl ht)
    cases found with
    | some => exact .inl ht
    | none => exact .inr ⟨rfl, fun x hx => hknown.mp rfl x.2 (List.mem_map_of_mem hx)⟩

theorem wait_complete (hpast : (s.platform.channel s.part.target.place).device.Past) :
    wait.Ends s fun _ t => t.platform.registry = s.platform.registry ∨
      ∀ x ∈ s.part.events,
        (s.platform.channel s.part.target.place).device.status? x.2 = some .complete := by
  refine (wait_registry s).imp_right fun ⟨hok, hknown⟩ x hx => ?_
  obtain ⟨status, hstatus⟩ := Option.isSome_iff_exists.mp (hknown x hx)
  have hstatus : (s.platform.channel s.part.target.place).device.status? x.2 = some status := hstatus
  have hattached : s.part.target.place < s.platform.channels.length := by
    by_contra hout
    have hnone := List.getElem?_eq_none (Nat.le_of_not_lt hout)
    rw [Platform.channel, List.getD_eq_getElem?_getD, hnone] at hstatus
    cases hstatus
  have hnot := (wait_ends rfl hattached).2.2 hok x hx
  obtain ⟨_, hfinished⟩ := hpast _ (Device.mem_of_status? hstatus)
  cases status with
  | complete => exact hstatus
  | failed fault => exact absurd hstatus (hnot fault)
  | queued | running => cases hfinished

end Execution

namespace Household

open Context (Earns)
open House (first calling)

variable {h : Household} {moves : List Move}

-- What the objects of a household can be relied on for when they are asked for.
structure Publishes (h : Household) : Prop where
  -- There was a call that brought what counts as data. All such calls ended well, but for launches of tasks
  -- without exceptions.
  earned  : ∀ g ∈ h.guests, ∀ b ∈ g.tenant.context.bindings, b.state.isValid → ∃ place id,
    g.tenant.context.activePlace? = some place ∧ b.state.buffer = some id ∧
      (∃ call ∈ (h.platform.channel place).journal, call.Changes id) ∧
      ∀ call ∈ (h.platform.channel place).journal, call.Changes id →
        call.Stands (h.platform.channel place).device g.tenant.context.tasks b.object.handle id
  -- Whatever a guest asks for, objects that it has no data of stay as they are, and so do their records.
  synced  : ∀ g ∈ h.guests, ∀ objects o, ¬g.tenant.context.Offers o →
    (Context.sync objects).Ends ⟨h.platform, g.tenant.context⟩ fun _ s =>
      s.platform.registry.bytes o = h.platform.registry.bytes o ∧
        s.platform.registry.record? o = h.platform.registry.record? o
  -- Waiting for an execution puts nothing on record unless all its commands ended well.
  awaited : ∀ e : Execution, Execution.wait.Ends ⟨h.platform, e⟩ fun _ s =>
    s.platform.registry = h.platform.registry ∨ ∀ x ∈ e.events,
      (h.platform.channel e.target.place).device.status? x.2 = some .complete

theorem run_earns (hfresh : h.house.Fresh) (moves : List Move) :
    (∀ place, ((h.run moves).platform.channel place).Dated) ∧
      ∀ t ∈ (h.run moves).house.tenants, Earns ⟨(h.run moves).platform, t.context⟩ := by
  have hunused : ∀ place, (h.platform.channel place).device.events = [] ∧
      (h.platform.channel place).journal = [] := Platform.forall_channel
    (Q := fun c => c.device.events = [] ∧ c.journal = []) ⟨rfl, rfl⟩ hfresh.unused
  have hdated : ∀ place, (h.platform.channel place).Dated := fun place => by
    obtain ⟨hevents, hjournal⟩ := hunused place
    exact ⟨by rw [Device.Past, hevents]; exact List.forall_mem_nil _,
      by rw [hjournal]; exact List.forall_mem_nil _⟩
  have hmeets : ∀ move ∈ moves, move.Meets fun _ => True := fun move _ => by
    cases move with
    | house move => cases move <;> trivial
    | _ => trivial
  have hnobody : ∀ t ∈ h.house.tenants, t.Rooted (fun _ => True) ∧ Earns ⟨h.platform, t.context⟩ := by
    rw [hfresh.tenants]
    exact List.forall_mem_nil _
  refine (run_custom Tenant.earning_custom (fun p e hp => ?_) hfresh.sound hdated hnobody hmeets).imp_right
    fun hall t ht => (hall t ht).2
  -- waiting changes no buffer
  have hadds (place : Nat) := ((Execution.wait_awaits ⟨p, e⟩).idle.calm place).adds (Q := fun _ => False)
  have hp' := fun place => (hp place).adds (hadds place) fun _ => False.elim
  exact ⟨hp', fun t ht => ⟨ht.1, ht.2.frame hp' hadds fun _ _ _ _ _ _ => not_false⟩⟩

-- A house with a kernel that always fails.
def mill : Household where
  platform := { House.inn.platform with
    channels := [{ device := {
      limits := { computeUnits := 1 }
      threadName := "queue"
      kernels := [("increment", Kernel.increment), ("fail", Kernel.failing "no")] } }] }

-- An object that nobody brings in is given to a kernel, and asked for then.
def trial (kernel : String) (exceptions : Bool) : List Move :=
  visit [.build 0 [.task { calling kernel first with exceptions }], .compile 0 none {} {}, .execute 0,
    .sync [first]]

theorem mill_fresh : mill.house.Fresh :=
  ⟨rfl, by simp [mill, house], by simp [mill, house], by decide⟩

end Household
end Offload
