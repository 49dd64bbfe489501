import Offload.Proofs.Changes
import Offload.Proofs.Landing
import Offload.Proofs.Returning

/-!
What counts as data. A buffer is said to hold data as soon as the command was given that brings it. A copy that
waits for nothing does well, but a launch may fail: that is found out in time if its task has exceptions, and
else it is not.
-/

namespace Offload

namespace Device

variable {d d' : Device} {result : Except Error EventId}

-- The command ended well.
def Completed (d : Device) (result : Except Error EventId) : Prop :=
  ∃ e, result = .ok e ∧ d.status? e = some .complete

theorem Onward.completed (h : Onward d d') (hp : d.Past) (hr : d.Completed result) : d'.Completed result := by
  obtain ⟨e, he, hstatus⟩ := hr
  exact ⟨e, he, h.status?_eq hp hstatus⟩

end Device

theorem Channel.write_completed {p : Channel} {id : BufferId} {data : Bytes} {wait : List EventId}
    (hready : p.queue.Ready wait) (hm : p.device.memory.Orderly)
    (hlive : (id, data.length) ∈ p.device.memory.live) (blocking : Bool) :
    (write id data wait blocking p).2.device.Completed (write id data wait blocking p).1 := by
  obtain ⟨memory, hmemory⟩ := Memory.write_live hm hlive
  obtain ⟨p', hwrite, hran⟩ := write_ready hready hmemory blocking
  have hran : p'.device = p.device.record none memory := hran
  rw [hwrite, hran]
  exact ⟨_, rfl, Device.status?_record p.device none memory⟩

theorem Channel.resolve_ok {p p' : Channel} {e : EventId} {info : EventInfo}
    (h : resolve e p = (.ok info, p')) : p.device.status? e = some info.status := by
  cases hstatus : p.device.status? e with
  | none =>
    have hcall : Device.resolve e p.device =
        (.error (.device p.device.index e.number .unknownEvent), p.device) := by
      unfold Device.resolve
      rw [Action.bind_of_ok (Action.get_apply _)]
      simp only [hstatus]
      rfl
    rw [resolve, noting_apply, hcall] at h
    cases h
  | some status =>
    obtain ⟨found, _, hresolve, hsame, _⟩ := resolve_known (p := p) hstatus
    rw [hresolve] at h
    cases h
    rw [hsame]

-- The call ended well, or it is a launch of which nobody was told how it ended: one with the buffer of the
-- object, for a task without exceptions.
def Call.Stands (d : Device) (tasks : List Task) (h : Handle) (id : BufferId) : Call → Prop
  | .write _ _ _ _ result => d.Completed result
  | .launch _ ids _ _ result => d.Completed result ∨ result.isOk ∧ ∃ t ∈ tasks, t.exceptions = false ∧
      ∃ a, (a, id) ∈ t.arguments.zip ids ∧ a.object.handle = h
  | _ => True

theorem Call.Stands.mono {d d' : Device} {tasks tasks' : List Task} {h : Handle} {id : BufferId} {call : Call}
    (hcall : call.Stands d tasks h id) (honward : d.Onward d') (hp : d.Past) (htasks : tasks ⊆ tasks') :
    call.Stands d' tasks' h id := by
  cases call with
  | write => exact honward.completed hp hcall
  | launch =>
    refine hcall.imp (honward.completed hp) (And.imp_right ?_)
    exact fun ⟨t, ht, hunchecked⟩ => ⟨t, htasks ht, hunchecked⟩
  | _ => trivial

namespace ObjectState

variable {tasks tasks' : List Task} {p p' : Channel} {h : Handle} {st : ObjectState} {calls : List Call}
  {Q : BufferId → Prop}

-- All calls that may have changed the buffer stand, and if it counts as data then there is one.
def Earned (tasks : List Task) (p : Channel) (h : Handle) (st : ObjectState) : Prop :=
  ∀ id, st.buffer = some id →
    (∀ call ∈ p.journal, call.Changes id → call.Stands p.device tasks h id) ∧
      (st.isValid → ∃ call ∈ p.journal, call.Changes id)

theorem Earned.extend (hst : st.Earned tasks p h) (hp : p.device.Past)
    (honward : p.device.Onward p'.device) (hjournal : p'.journal = p.journal ++ calls)
    (hstands : ∀ call ∈ calls, ∀ id, st.buffer = some id → call.Changes id →
      call.Stands p'.device tasks h id) : st.Earned tasks p' h := by
  intro id hid
  obtain ⟨hall, hsome⟩ := hst id hid
  rw [hjournal]
  refine ⟨fun call hcall hchanges => ?_, fun hvalid => ?_⟩
  case refine_1 =>
    rcases List.mem_append.mp hcall with hold | hnew
    case inl => exact (hall call hold hchanges).mono honward hp (List.Subset.refl _)
    case inr => exact hstands call hnew id hid hchanges
  case refine_2 =>
    obtain ⟨call, hcall, hchanges⟩ := hsome hvalid
    exact ⟨call, List.mem_append_left _ hcall, hchanges⟩

theorem Earned.adds (hst : st.Earned tasks p h) (hp : p.device.Past) (hadds : p.Adds Q p')
    (hQ : ∀ id, st.buffer = some id → ¬Q id) : st.Earned tasks p' h := by
  obtain ⟨calls, hjournal, hcalls⟩ := hadds.journal
  exact hst.extend hp hadds.onward hjournal fun call hcall id hid hchanges =>
    absurd (hcalls call hcall id hchanges) (hQ id hid)

-- Calls that change nothing take nothing away.
theorem Earned.idle (hst : st.Earned tasks p h) (hp : p.device.Past) (hadds : p.Adds (fun _ => False) p') :
    st.Earned tasks p' h :=
  hst.adds hp hadds fun _ _ => not_false

theorem Earned.mono (hst : st.Earned tasks p h) (hp : p.device.Past) (htasks : tasks ⊆ tasks') :
    st.Earned tasks' p h := fun id hid =>
  (hst id hid).imp_left fun hall call hcall hchanges =>
    (hall call hcall hchanges).mono (Device.onward_lasting.refl _) hp htasks

end ObjectState

-- Deals that leave nothing to be found out.
def Deal.Plain : Deal → Prop
  | .fill _ _ wait => wait = []
  | .miss _ | .run _ | .mark .. => False
  | _ => True

namespace Context

open ObjectState (Earned)

variable {rest : Nat → List (BufferId × Nat)} {s t u : Hosted Context} {c : Context} {p p' : Platform}
  {A : Hosted Context → Deal → Prop} {d : Deal} {index place : Nat} {b : Binding} {id : BufferId}

-- What the context has in its buffers was earned.
structure Earns (s : Hosted Context) : Prop where
  dated  : ∀ place, (s.platform.channel place).Dated
  earned : ∀ place, s.part.activePlace? = some place → ∀ b ∈ s.part.bindings,
    b.state.Earned s.part.tasks (s.platform.channel place) b.object.handle

theorem earns_of_empty (hdated : ∀ place, (s.platform.channel place).Dated)
    (h : ∀ b ∈ s.part.bindings, b.state.buffer = none) : Earns s := by
  refine ⟨hdated, fun place _ b hb id hid => ?_⟩
  rw [h b hb] at hid
  cases hid

-- It stays so as long as no call changes a buffer of the context.
theorem Earns.frame {Q : Nat → BufferId → Prop} (h : Earns ⟨p, c⟩)
    (hdated : ∀ place, (p'.channel place).Dated)
    (hadds : ∀ place, (p.channel place).Adds (Q place) (p'.channel place))
    (hQ : ∀ place, c.activePlace? = some place → ∀ b ∈ c.bindings, ∀ id, b.state.buffer = some id →
      ¬Q place id) : Earns ⟨p', c⟩ where
  dated := hdated
  earned place hplace b hb :=
    (h.earned place hplace b hb).adds (h.dated place).past (hadds place) fun id hid => hQ place hplace b hb id hid

theorem Calm.earns (hcalm : Calm s t) (h : Earns s) : Earns t := by
  refine ⟨hcalm.dated h.dated, fun place hplace b hb => ?_⟩
  rw [activePlace?, hcalm.active, hcalm.devices] at hplace
  rw [hcalm.bindings] at hb
  rw [hcalm.tasks]
  exact (h.earned place hplace b hb).idle (h.dated place).past (hcalm.channels place).adds

-- No call so far could name a buffer that is new.
theorem not_changes_of_allocate {size : Nat} {memory : Memory} (hdated : (s.platform.channel place).Dated)
    (hmemory : (s.device place).memory.allocate size = .ok (id, memory)) :
    ∀ call ∈ (Channel.allocate size (s.platform.channel place)).2.journal, ¬call.Changes id := by
  intro call hcall hchanges
  rcases List.mem_append.mp hcall with hbefore | hnew
  case inl =>
    have hlt := hdated.made call hbefore id hchanges
    rw [(Memory.allocate_next hmemory).1] at hlt
    exact Nat.lt_irrefl _ hlt
  case inr =>
    cases List.mem_singleton.mp hnew
    exact hchanges

theorem Does.earns (hdoes : Does d s t) (hplain : d.Plain) (hbooks : Books rest s) (h : Earns s) :
    Earns t := by
  refine ⟨hdoes.dated hbooks h.dated, fun place' hplace' x hx => ?_⟩
  cases hdoes with
  | miss | run | mark => exact hplain.elim
  | @attach _ index size place b id memory hplace hb hnone hmemory =>
    obtain rfl := Option.some.inj (hplace.symm.trans hplace')
    rw [Platform.channel_onChannel (hbooks.place_lt hplace)]
    rcases mem_modifyState hb hx with hold | rfl
    case inl =>
      exact (h.earned place hplace x hold).idle (h.dated place).past (Channel.adds_allocate size _)
    case inr =>
      intro other hother
      cases hother
      have hnobody := not_changes_of_allocate (h.dated place) hmemory
      refine ⟨fun call hcall hchanges => absurd hchanges (hnobody call hcall), fun hvalid => ?_⟩
      rw [ObjectState.isValid_attach] at hvalid
      cases hvalid
  | @detach _ index place b id hplace hb hid =>
    obtain rfl := Option.some.inj (hplace.symm.trans hplace')
    rw [Platform.channel_onChannel (hbooks.place_lt hplace)]
    rcases mem_modifyState hb hx with hold | rfl
    case inl =>
      exact (h.earned place hplace x hold).idle (h.dated place).past (Channel.adds_release id _)
    case inr => exact nofun
  | @fill _ index offset place b id data wait blocking event hplace hb hid hdata hok =>
    obtain rfl := Option.some.inj (hplace.symm.trans hplace')
    cases hplain
    rw [Platform.channel_onChannel (hbooks.place_lt hplace)]
    have hlive := hbooks.mem_live hplace (List.mem_of_getElem? hb) hid
    rw [← (Registry.window_ok hdata).1] at hlive
    have hready : (s.platform.channel place).queue.Ready [] := List.forall_mem_nil _
    have hcompleted := Channel.write_completed hready (hbooks.orderly place) hlive blocking
    have hkept {st : ObjectState} {k : Handle} (hst : st.Earned s.part.tasks (s.platform.channel place) k) :
        st.Earned s.part.tasks (Channel.write id data [] blocking (s.platform.channel place)).2 k :=
      hst.extend (h.dated place).past (Device.still_write id data [] blocking _).onward rfl
        fun call hcall _ _ _ => List.mem_singleton.mp hcall ▸ hcompleted
    rcases mem_modifyState hb hx with hold | rfl
    case inl => exact hkept (h.earned place hplace x hold)
    case inr =>
      intro other hother
      cases hid.symm.trans hother
      refine ⟨(hkept (h.earned place hplace b (List.mem_of_getElem? hb)) id hid).1, fun _ => ?_⟩
      exact ⟨_, List.mem_append_right _ (List.mem_singleton_self _), rfl⟩
  | @deliver _ index length place b id offset wait blocking =>
    rw [Platform.channel_readBack]
    refine (h.earned place' hplace' x hx).idle (h.dated place').past ?_
    exact (Platform.adds_onChannel (Q := fun _ => False) (Channel.adds_read _ _ _ _ _ _ _) place').mono
      fun _ => And.right
  | own => exact h.earned place' hplace' x hx
  | clear =>
    obtain ⟨_, _, rfl⟩ := List.mem_map.mp hx
    exact nofun
  | turn hready =>
    rcases hready with hheld | hactive
    case inl =>
      intro id hid
      have hmem : (id, x.state.size) ∈ s.part.held := mem_held hx hid
      rw [hheld] at hmem
      cases hmem
    case inr =>
      rw [activePlace?, ← hactive] at hplace'
      exact h.earned place' hplace' x hx

theorem Deals.earns (hdeals : Deals A s t) (hbooks : Books rest s) (hplain : ∀ u d, A u d → d.Plain)
    (h : Earns s) : Earns t :=
  hdeals.keep hbooks h (fun _ _ hcalm hu => hcalm.earns hu) fun d u _ hsustains hd hdoes hu =>
    hdoes.earns (hplain u d hd) hsustains.books hu

-- A launch names the buffers that the objects of its arguments have.
theorem Collected.mem {m : Memory} {arguments : List Argument} {ids : List BufferId}
    (h : c.Collected m arguments ids) {a : Argument} (ha : a ∈ arguments)
    (hplaces : c.Places a.object.handle index b) (hid : b.state.buffer = some id) : id ∈ ids := by
  induction h generalizing a with
  | nil => cases ha
  | @cons first arguments own ids hhead _ ih =>
    rcases List.mem_cons.mp ha with rfl | hrest
    case inr => exact List.mem_cons_of_mem own (ih hrest hplaces)
    case inl =>
      rcases hhead with ⟨index', b', ⟨hindex, hb⟩, hbuffer⟩ | ⟨hquarrel, _⟩
      case inl =>
        cases hplaces.1.symm.trans hindex
        cases hplaces.2.symm.trans hb
        cases hid.symm.trans hbuffer
        exact List.mem_cons_self
      case inr =>
        -- a later argument names the same object
        simp only [Argument.Agrees, not_forall] at hquarrel
        obtain ⟨later, hlater, hsame, _⟩ := hquarrel
        exact List.mem_cons_of_mem own (ih hlater (hsame ▸ hplaces))

-- What a launch names is gone, or it is the buffer of an argument's object.
theorem Collected.named {arguments : List Argument} {ids : List BufferId}
    (h : s.part.Collected (s.device place).memory arguments ids) (hbooks : Books rest s)
    (hplace : s.part.activePlace? = some place) (hb : b ∈ s.part.bindings) (hid : b.state.buffer = some id)
    (hmem : id ∈ ids) : ∃ a, (a, id) ∈ arguments.zip ids ∧ a.object.handle = b.object.handle := by
  induction h with
  | nil => cases hmem
  | @cons first arguments own ids hhead _ ih =>
    rcases List.mem_cons.mp hmem with rfl | hrest
    case inr => exact (ih hrest).imp fun _ => And.imp_left (List.mem_cons_of_mem _)
    case inl =>
      refine ⟨first, List.mem_cons_self, ?_⟩
      rcases hhead with ⟨index', b', hplaces, hbuffer⟩ | ⟨_, hgone⟩
      case inl =>
        obtain ⟨index, hindex⟩ := List.getElem?_of_mem hb
        cases hbooks.index_eq hindex hplaces.2 hid hbuffer
        cases hindex.symm.trans hplaces.2
        exact hplaces.handle.symm
      case inr =>
        obtain ⟨_, hbuffer, _⟩ := (hbooks.orderly place).buffer?_of_mem (hbooks.mem_live hplace hb hid)
        cases hbuffer.symm.trans hgone.2

-- To count results as written changes nothing but the records of objects among the arguments.
theorem exists_of_markWritten {task : Task} {offset : Nat}
    (hb : (c.markWritten task offset).bindings[index]? = some b) :
    ∃ b₀, c.bindings[index]? = some b₀ ∧ b.object = b₀.object ∧ b.state.buffer = b₀.state.buffer ∧
      (b = b₀ ∨ ∃ a ∈ task.arguments, c.objectIndex? a.object.handle = some index) := by
  by_cases hnamed : ∃ a ∈ task.arguments, c.objectIndex? a.object.handle = some index
  case neg =>
    have hsame := bindings_markArguments (fun a ha hindex => hnamed ⟨a, ha, hindex⟩) offset
    exact ⟨b, hsame ▸ hb, rfl, rfl, .inl rfl⟩
  case pos =>
    have hobject := getElem?_objects hb
    rw [markWritten, objects_markArguments] at hobject
    obtain ⟨b₀, hb₀, hsame⟩ := getElem?_objects_iff.mp hobject
    have hkeeps (st : ObjectState) (h : st.buffer = b₀.state.buffer) :
        (st.markWritten offset).buffer = b₀.state.buffer := h
    obtain ⟨b', hb', hbuffer⟩ := exists_markArguments hkeeps ⟨b₀, hb₀, rfl⟩ task.arguments
    cases hb.symm.trans hb'
    exact ⟨b₀, hb₀, hsame.symm, hbuffer, .inr hnamed⟩

theorem markWritten_part (c : Context) (task : Task) (offset : Nat) :
    c.markWritten task offset = { c with bindings := (c.markWritten task offset).bindings } := by
  unfold markWritten
  induction task.arguments generalizing c with
  | nil => rfl
  | cons a arguments ih =>
    obtain ⟨_, hfirst⟩ := markArgument_eq offset c a
    rw [List.foldl_cons, ih, hfirst]

end Context

namespace Machine

open Context
open ObjectState (Earned)

variable {rest : Nat → List (BufferId × Nat)} {s t u : Hosted Context} {m : Machine} {r r' : Run}
  {i : Instruction} {is : List Instruction} {k task device offset threads place : Nat}
  {wait : List EventId} {event : EventId}

-- A launch that was looked at and let pass ended well.
theorem checkLaunch_complete {task : Task} (hdevice : s.part.devices[device]? = some place)
    (hpast : (s.device place).Past) (h : checkLaunch device task event s = (.ok ⟨⟩, t)) :
    (t.device place).status? event = some .complete := by
  unfold checkLaunch at h
  obtain ⟨_, u, hwait, h⟩ := Action.bind_ok.mp h
  obtain ⟨info, v, hresolve, h⟩ := Action.bind_ok.mp h
  have hu := (calm_onDevice (Channel.calm_wait [event]) device).of_eq hwait
  have hv := (calm_onDevice (Channel.calm_resolve event) device).of_eq hresolve
  have hpast : (u.device place).Past := (hu.channels place).device.onward.past hpast
  rw [onDevice_eq (hu.devices ▸ hdevice)] at hresolve
  have hfound : Channel.resolve event (u.platform.channel place) = (.ok info, _) :=
    Prod.ext (Prod.mk.inj hresolve).1 rfl
  have hknown : (u.device place).status? event = some info.status := Channel.resolve_ok hfound
  have hkept := (hv.channels place).device.onward.status?_eq hpast hknown
  obtain ⟨_, hfinished⟩ := hpast _ (Device.mem_of_status? hknown)
  cases hstatus : info.status with
  | failed fault =>
    rw [hstatus] at h
    cases h
  | complete =>
    rw [hstatus] at h hkept
    cases h
    exact hkept
  | queued | running =>
    rw [hstatus] at hfinished
    cases hfinished

-- What a launch was called with was earned, and so is what counts as written then.
theorem mark_earns {task : Task} {kernel : Nat} {ids : List BufferId} {geometry : Geometry}
    (hbooks : Books rest s) (hplace : s.part.activePlace? = some place) (htask : task ∈ s.part.tasks)
    (hids : s.part.Collected (s.device place).memory task.arguments ids) (h : Earns s)
    (hok : (Channel.launch kernel ids geometry wait (s.platform.channel place)).1 = .ok event)
    (hcalm : Calm { s with platform := (Platform.onChannel place
      (Channel.launch kernel ids geometry wait) s.platform).2 } t)
    (hcheck : task.exceptions → (t.device place).status? event = some .complete) :
    Earns { t with part := t.part.markWritten task offset } := by
  have hrun := Does.run kernel geometry wait hplace htask hids
  have hchannel := hcalm.channels place
  rw [Platform.channel_onChannel (hbooks.place_lt hplace)] at hchannel
  obtain ⟨calls, hjournal, hnone⟩ := hchannel.journal
  have hcalled : (t.platform.channel place).journal =
      (s.platform.channel place).journal ++ .launch kernel ids geometry wait (.ok event) :: calls := by
    rw [hjournal, ← hok]
    exact List.append_assoc _ [_] calls
  have honward : (s.device place).Onward (t.device place) := Device.onward_lasting.trans
    (Device.still_launch kernel ids geometry wait _).onward hchannel.device.onward
  refine ⟨hcalm.dated (hrun.dated hbooks h.dated), fun place' hplace' b hb => ?_⟩
  rw [markWritten_part] at hplace'
  have hactive : t.part.activePlace? = s.part.activePlace? := by
    rw [activePlace?, hcalm.active, hcalm.devices]
    rfl
  obtain rfl := Option.some.inj ((hactive.trans hplace).symm.trans hplace')
  obtain ⟨index, hindex⟩ := List.getElem?_of_mem hb
  obtain ⟨b₀, hb₀, hobject, hbuffer, hnamed⟩ := exists_of_markWritten hindex
  have hb₀ : s.part.bindings[index]? = some b₀ := hcalm.bindings ▸ hb₀
  have hmem := List.mem_of_getElem? hb₀
  have hearned := (h.earned place hplace b₀ hmem).extend (h.dated place).past honward hcalled
    fun call hcall id hid hchanges => by
      rcases List.mem_cons.mp hcall with rfl | hlater
      case inr => exact absurd hchanges ((hnone call hlater).not_changes id)
      case inl =>
        cases hexceptions : task.exceptions with
        | true => exact .inl ⟨event, rfl, hcheck hexceptions⟩
        | false => exact .inr ⟨rfl, task, htask, hexceptions, hids.named hbooks hplace hmem hid hchanges⟩
  intro id hid
  rw [hbuffer] at hid
  obtain ⟨hall, hsome⟩ := hearned id hid
  refine ⟨?_, fun hvalid => ?_⟩
  case refine_1 =>
    rw [markWritten_part, hcalm.tasks, hobject]
    exact hall
  case refine_2 =>
    rcases hnamed with rfl | ⟨a, ha, hfound⟩
    case inl => exact hsome hvalid
    case inr =>
      rw [objectIndex?_eq, objects, hcalm.bindings, ← objects, ← objectIndex?_eq] at hfound
      have hchanged : id ∈ ids := hids.mem ha ⟨hfound, hb₀⟩ hid
      refine ⟨.launch kernel ids geometry wait (.ok event), ?_, hchanged⟩
      rw [hcalled]
      exact List.mem_append_right _ List.mem_cons_self

theorem launch_earns (hbooks : Books rest s) (hactive : s.part.active = some device)
    (hdevice : s.part.devices[device]? = some place) (h : Earns s)
    (hlaunch : m.launch task device offset threads wait s = (.ok event, t)) : Earns t := by
  obtain ⟨t', kernel, u, ids, v, geometry, w, x, htask, hu, hids, hcall, hx, hcheck, rfl⟩ := launch_ok hlaunch
  have hstill := hu.still.upholds hbooks
  have hactive' : u.part.active = some device := hu.active.trans hactive
  obtain ⟨hdeals, hcollected⟩ := (argumentBuffers_deals hstill.books hactive' (hu.devices ▸ hdevice)
    t'.arguments).of_eq hids
  have hv := hdeals.sustains hstill.books
  have hplain : ∀ u d, Takes threads t'.arguments u d → d.Plain := fun _ d hd => by
    cases d <;> trivial
  have hearns := hdeals.earns hstill.books hplain (hu.earns h)
  have hdevice' : v.part.devices[device]? = some place := hv.stable.devices ▸ hu.devices ▸ hdevice
  have hactive'' : v.part.active = some device := by
    rw [hdeals.active_eq hstill.books fun _ _ h => h.elim]
    exact hactive'
  have htask' : t' ∈ v.part.tasks := by
    rw [hv.stable.tasks, hu.tasks]
    exact List.mem_of_getElem? htask
  rw [onDevice_eq hdevice'] at hcall
  obtain ⟨hok, rfl⟩ := Prod.mk.inj hcall
  have hplace := activePlace?_eq hactive'' hdevice'
  refine mark_earns hv.books hplace htask' (hcollected ids rfl) hearns hok hx fun hexceptions => ?_
  obtain ⟨y, hy, hchecked⟩ := hcheck hexceptions
  have hran := Does.run kernel geometry wait hplace htask' (hcollected ids rfl)
  have hpast := (hy.dated (hran.dated hv.books hearns.dated) place).past
  exact checkLaunch_complete (hy.devices ▸ hdevice') hpast hchecked

-- Whatever an instruction does that does well, it leaves nothing but data that was earned.
theorem step_earns (hbooks : Books rest s) (hplaced : r.Placed s)
    (hworks : i.WorksOn (r.target.map Target.index)) (hprompt : i.Prompt) (h : Earns s)
    (hstep : m.step k i r s = (.ok r', t)) : Earns t := by
  cases i with
  | streamIn object offset length list =>
    cases hprompt
    obtain ⟨event, u, hin, hrecord⟩ := Action.bind_ok.mp hstep
    have hdeals : Deals (fun u d => (Instruction.streamIn object offset length none).Permits s _ u d ∧
        d ≠ .miss object) s u :=
      ((streamIn_deals hbooks hplaced).of_eq hin).1.mono fun _ _ ⟨hd, hno⟩ => ⟨hd, hno rfl⟩
    refine ((calm_record k event).of_eq hrecord).earns (hdeals.earns hbooks (fun _ d ⟨hd, hno⟩ => ?_) h)
    cases d with
    | fill => exact hd.2.1
    | miss =>
      cases hd
      exact hno rfl
    | _ => trivial
  | launch task device list offset threads =>
    obtain ⟨tgt, ht, hdevice⟩ := Option.map_eq_some_iff.mp hworks
    obtain ⟨hactive, hplace⟩ := hdevice ▸ hplaced tgt ht
    obtain ⟨event, u, hlaunch, hcalm, _⟩ := step_launch hstep
    exact hcalm.earns (launch_earns hbooks hactive hplace h hlaunch)
  | _ =>
    refine ((step_deals hbooks hplaced hworks).of_eq hstep).1.earns hbooks (fun _ d hd => ?_) h
    cases d <;> trivial

theorem steps_earns (hbooks : Books rest s) (hfit : Run.Fit False is r s) (hprompt : ∀ i ∈ is, i.Prompt)
    (h : Earns s) : (m.steps k is r).Ends s fun _ t => Earns t := by
  induction is generalizing k r s with
  | nil => exact h
  | cons i is ih =>
    obtain ⟨hnow, hlater⟩ := List.forall_mem_cons.mp hprompt
    refine steps_cons_ends (fun r' t hstep => ?_) fun e _ t hstep => ?_
    case refine_1 =>
      obtain ⟨hsustains, hfits⟩ := (step_fit hbooks hfit).of_eq hstep
      exact ih hsustains.books (hfits r' rfl).1 hlater
        (step_earns hbooks hfit.placed hfit.grounded.1 hnow h hstep)
    case refine_2 =>
      -- whatever was not found out is given up
      have hdeals := ((step_deals hbooks hfit.placed hfit.grounded.1).of_eq hstep).1
      have hdated := hdeals.dated hbooks h.dated
      refine earns_of_empty (Does.clear.dated (hdeals.sustains hbooks).books hdated) fun b hb => ?_
      obtain ⟨_, _, rfl⟩ := List.mem_map.mp hb
      rfl

theorem execute_earns (hbooks : Books rest s) (hgrounded : Grounded none m.instructions)
    (hprompt : ∀ i ∈ m.instructions, i.Prompt) (h : Earns s) : m.execute.Ends s fun _ t => Earns t :=
  execute_of_steps (fun _ _ hcalm => hcalm.earns) (steps_earns hbooks (fit_start hgrounded) hprompt h)

end Machine
end Offload
