import Offload.Proofs.Household
import Offload.Proofs.Sharing

/-!
Who is on record in a household. Whoever is on record for an object has valid data of it, as long as nobody
waits for an execution whose context has given its buffers up since.
-/

namespace Offload

namespace Context

variable {c c' : Context} {h : Handle} {s : Hosted Context} {p : Platform}

theorem offers_iff_sheet : c.Offers h ↔ ∃ x ∈ c.sheet, x.1.handle = h ∧ x.2.isValid := by
  simp only [sheet, List.mem_map, exists_exists_and_eq_and]
  rfl

-- What a context has data of does not change when there is more in its tables.
theorem Grown.offers (hc : Grown c c') (hoffers : c.Offers h) : c'.Offers h := by
  obtain ⟨new, hnew⟩ := hc.sheet
  obtain ⟨x, hx, hstate⟩ := offers_iff_sheet.mp hoffers
  exact offers_iff_sheet.mpr ⟨x, hnew ▸ List.mem_append_left _ hx, hstate⟩

theorem Grown.vouches (hc : Grown s.part c') : Vouches s { s with part := c' } := by
  intro device h howns
  by_cases hbacks : s.part.Backs device h
  case pos => exact .inl ⟨hc.active.trans hbacks.1, hc.offers hbacks.2⟩
  case neg => exact .inr ⟨howns, hbacks⟩

end Context

namespace Tenant

open Context

variable {rest : Nat → List (BufferId × Nat)} {s t : Hosted Tenant}

-- What a deed leaves of data: all of it, unless the context gave its buffers up or went on to another device.
structure Tends (s : Hosted Tenant) (result : Except Error (Option Execution)) (t : Hosted Tenant) :
    Prop where
  vouches : Vouches ⟨s.platform, s.part.context⟩ ⟨t.platform, t.part.context⟩
  offers  : t.part.context.held ≠ [] → t.part.context.active = s.part.context.active →
    ∀ h, s.part.context.Offers h → t.part.context.Offers h
  new     : ∀ e, result = .ok (some e) → ∀ h ∈ e.pending, t.part.context.Backs e.target.index h

theorem tends_of_grown {result : Except Error (Option Execution)} (hplatform : t.platform = s.platform)
    (hc : Grown s.part.context t.part.context) (hnone : ∀ e, result ≠ .ok (some e)) : Tends s result t where
  vouches := by
    have hvouches := hc.vouches (s := ⟨s.platform, s.part.context⟩)
    rwa [← hplatform] at hvouches ⊢
  offers _ _ _ := hc.offers
  new e he := absurd he (hnone e)

theorem build_grown (device : Nat) (steps : List Step) (s : Hosted Tenant) :
    (build device steps).Ends s fun _ t =>
      t.platform = s.platform ∧ Grown s.part.context t.part.context := by
  have hrefl : Grown s.part.context s.part.context := grown_lasting.refl _
  unfold build
  refine Action.Ends.bind_get (Action.Ends.bind_lift (fun start hstart => ?_) fun _ _ => ⟨rfl, hrefl⟩)
  cases Wiring.start_ok hstart
  rcases hsteps : (steps.forM fun s => discard (Wiring.step s) : Action Wiring Unit)
    { context := s.part.context, graph := ({} : Graph).push (.context device) [] } with ⟨result, w⟩
  have hgrown : Grown s.part.context w.context := (Wiring.grows_steps steps).of_eq hsteps
  exact Action.Ends.bind_modify (Action.Ends.bind_lift (fun _ _ => ⟨rfl, hgrown⟩) fun _ _ => ⟨rfl, hgrown⟩)

theorem compile_same (graph : Nat) (batch : Option Nat) (config config' : Config) (s : Hosted Tenant) :
    (compile graph batch config config').Ends s fun _ t =>
      t.platform = s.platform ∧ t.part.context = s.part.context := by
  unfold compile
  refine Action.Ends.bind_get ?_
  split
  case h_2 => exact ⟨rfl, rfl⟩
  case h_1 =>
    refine Action.Ends.bind_lift (fun _ _ => ?_) fun _ _ => ⟨rfl, rfl⟩
    exact Action.Ends.bind_lift (fun _ _ => ⟨rfl, rfl⟩) fun _ _ => ⟨rfl, rfl⟩

theorem act_execute_tends (hlodged : Lodged rest s) (machine : Nat) :
    (act (.execute machine)).Ends s fun result t => Tends s result t := by
  unfold act
  refine Action.Ends.bind_get ?_
  cases hm : s.part.machines[machine]? with
  | none => exact tends_of_grown rfl (grown_lasting.refl _) nofun
  | some m =>
    have hsuits := hlodged.suits m (List.mem_of_getElem? hm)
    have hvouches := Machine.execute_vouches hlodged.books hsuits
    have hended := Machine.execute_sustains hlodged.books hsuits
    have honContext {result : Except Error Execution} {v : Hosted Context}
        (hrun : m.execute ⟨s.platform, s.part.context⟩ = (result, v)) : onContext m.execute s =
          (result, { platform := v.platform, part := { s.part with context := v.part } }) := by
      rw [onContext, Hosted.onPiece, hrun]
    rcases hrun : m.execute ⟨s.platform, s.part.context⟩ with ⟨e | e, v⟩
    all_goals
      obtain ⟨hvouches, hok⟩ := hvouches.of_eq hrun
    case error =>
      refine Action.Ends.bind_of_error (honContext hrun) ⟨hvouches, fun hheld => ?_, nofun⟩
      obtain ⟨u, hu⟩ := (hended.of_eq hrun).2 e rfl
      exact absurd (hu ▸ held_detachAll u.part) hheld
    case ok =>
      have hsecures := hok e rfl
      refine Action.Ends.bind_of_ok (honContext hrun)
        ⟨hvouches, fun _ hsame h => (hsecures.saves hsame).offers, fun e' he' h hh => ?_⟩
      cases he'
      exact ⟨hsecures.active, hsecures.offers h hh⟩

theorem act_tends (hlodged : Lodged rest s) (deed : Deed) :
    (act deed).Ends s fun result t => Tends s result t := by
  have hdone {deed : Deed} (hact : act deed = do perform deed; return none)
      (h : (perform deed).Ends s fun _ t => Tends s (.ok none) t) :
      (act deed).Ends s fun result t => Tends s result t := by
    rw [hact]
    refine h.bind (fun _ t ht => ht) fun e t ht => ?_
    exact { ht with new := nofun }
  cases deed with
  | execute machine => exact act_execute_tends hlodged machine
  | bind o => exact hdone rfl (tends_of_grown rfl (s.part.context.grown_bind o) nofun)
  | build device steps =>
    exact hdone rfl ((build_grown device steps s).mono fun _ _ ⟨hplatform, hc⟩ =>
      tends_of_grown hplatform hc nofun)
  | compile graph batch config config' =>
    exact hdone rfl ((compile_same graph batch config config' s).mono fun _ _ ⟨hplatform, hc⟩ =>
      tends_of_grown hplatform (hc ▸ grown_lasting.refl _) nofun)
  | sync objects =>
    refine hdone rfl ?_
    obtain ⟨hvouches, hsaves⟩ := sync_vouches hlodged.books objects
    exact ⟨hvouches, fun _ _ h => hsaves.offers, nofun⟩
  | invalidate =>
    exact hdone rfl ⟨vouches_invalidate ⟨s.platform, s.part.context⟩,
      fun hheld => absurd (held_detachAll s.part.context) hheld, nofun⟩

end Tenant

namespace Household

open Context (Owns Shares Vouches)

variable {h : Household} {g g' : Guest} {k n : Nat}

-- Nobody waits for what no guest can vouch for.
def Move.Timely : Move → Prop
  | .waitLate _ => False
  | _ => True

instance : DecidablePred Move.Timely := fun move =>
  match move with
  | .waitLate _ => isFalse id
  | .house _ | .wait .. => isTrue trivial

-- Nobody was here yet, and nobody is on record.
structure Fresh (h : Household) : Prop where
  house   : h.house.Fresh
  unowned : ∀ entry ∈ h.platform.registry.entries, entry.record.bind Ownership.owner = none

-- Whoever is on record has the data, and so has whoever an execution is going to put there.
structure Coherent (h : Household) : Prop where
  backed  : ∀ device o, Owns h.platform device o → ∃ g ∈ h.guests, g.tenant.context.Backs device o
  covered : ∀ g ∈ h.guests, ∀ e ∈ g.handles, ∀ o ∈ e.pending, g.tenant.context.Backs e.target.index o

theorem mem_eraseIdx_of_ne (hk : h.guests[k]? = some g) (hg' : g' ∈ h.guests) (hne : g' ≠ g) :
    g' ∈ h.guests.eraseIdx k :=
  (List.mem_cons.mp ((perm_cons_eraseIdx hk).mem_iff.mp hg')).resolve_left hne

theorem mem_set_of_ne (hk : h.guests[k]? = some g) (hg' : g' ∈ h.guests) (hne : g' ≠ g) (new : Guest) :
    g' ∈ h.guests.set k new :=
  (set_perm_cons hk new).mem_iff.mpr (List.mem_cons_of_mem new (mem_eraseIdx_of_ne hk hg' hne))

theorem lodged (hsound : House.Sound h.platform h.house.tenants) (hk : h.guests[k]? = some g) :
    ∃ rest, Tenant.Lodged rest ⟨h.platform, g.tenant⟩ := by
  have ht : h.house.tenants[k]? = some g.tenant := by rw [house, List.getElem?_map, hk, Option.map_some]
  exact ⟨_, (hsound.perm (perm_cons_eraseIdx ht)).lodged⟩

-- Whoever was on record has the data still, or it is another guest than the one that did something.
theorem Coherent.backed_of_vouches (hcoherent : h.Coherent) {s : Hosted Context} (hvouches : Vouches
    ⟨h.platform, g.tenant.context⟩ s) {device : Nat} {o : Handle} (howns : Owns s.platform device o) :
    s.part.Backs device o ∨ ∃ g' ∈ h.guests, g' ≠ g ∧ g'.tenant.context.Backs device o := by
  refine (hvouches device o howns).imp_right fun ⟨hbefore, hnot⟩ => ?_
  obtain ⟨g', hg', hbacks⟩ := hcoherent.backed device o hbefore
  exact ⟨g', hg', fun heq => hnot (heq ▸ hbacks), hbacks⟩

theorem mem_gains {result : Except Error (Option Execution)} {e : Execution} (he : e ∈ Guest.gains result) :
    result = .ok (some e) := by
  unfold Guest.gains at he
  split at he
  case h_1 => rw [List.mem_singleton.mp he]
  case h_2 => cases he

theorem mem_handles_after {result : Except Error (Option Execution)} {t : Tenant} {e : Execution}
    (he : e ∈ (g.after result t).1.handles) : result = .ok (some e) ∨
      e ∈ g.handles ∧ t.context.held ≠ [] ∧ t.context.active = g.tenant.context.active := by
  rw [Guest.after] at he
  split at he
  case isTrue => exact .inl (mem_gains he)
  case isFalse hkept =>
    obtain ⟨hheld, hactive⟩ := not_or.mp hkept
    rcases List.mem_append.mp he with hold | hnew
    case inl => exact .inr ⟨hold, hheld, not_not.mp hactive⟩
    case inr => exact .inl (mem_gains hnew)

theorem act_coherent (hsound : House.Sound h.platform h.house.tenants) (hcoherent : h.Coherent)
    (deed : Tenant.Deed) : (h.step (.house (.act k deed))).Coherent := by
  simp only [step]
  cases hk : h.guests[k]? with
  | none => exact hcoherent
  | some g =>
    obtain ⟨rest, hlodged⟩ := lodged hsound hk
    obtain ⟨hlt, _⟩ := List.getElem?_eq_some_iff.mp hk
    have hmem := List.mem_of_getElem? hk
    have htends := Tenant.act_tends hlodged deed
    unfold Action.Ends at htends
    dsimp only
    refine ⟨fun device o howns => ?_, fun g' hg' e he o ho => ?_⟩
    case refine_1 =>
      rcases hcoherent.backed_of_vouches htends.vouches howns with hbacks | ⟨g', hg', hne, hbacks⟩
      case inl => exact ⟨_, List.mem_set hlt _, by rw [tenants_after]; exact hbacks⟩
      case inr => exact ⟨g', mem_set_of_ne hk hg' hne _, hbacks⟩
    case refine_2 =>
      rcases List.mem_or_eq_of_mem_set hg' with hold | rfl
      case inl => exact hcoherent.covered g' hold e he o ho
      case inr =>
        rw [tenants_after]
        rcases mem_handles_after he with hnew | ⟨hold, hheld, hactive⟩
        case inl => exact htends.new e hnew o ho
        case inr =>
          obtain ⟨hbefore, hoffers⟩ := hcoherent.covered g hmem e hold o ho
          exact ⟨hactive.trans hbefore, htends.offers hheld hactive o hoffers⟩

theorem leave_coherent (hcoherent : h.Coherent) : (h.step (.house (.leave k))).Coherent := by
  simp only [step]
  cases hk : h.guests[k]? with
  | none => exact hcoherent
  | some g =>
    refine ⟨fun device o howns => ?_, fun g' hg' => hcoherent.covered g' (List.mem_of_mem_eraseIdx hg')⟩
    have howns : Owns (Context.invalidate ⟨h.platform, g.tenant.context⟩).2.platform device o := howns
    obtain ⟨hbefore, hnot⟩ := Context.owns_invalidate howns
    obtain ⟨g', hg', hbacks⟩ := hcoherent.backed device o hbefore
    have hne : g' ≠ g := by
      rintro rfl
      exact hnot ⟨hbacks.1, hbacks.2.bound⟩
    exact ⟨g', mem_eraseIdx_of_ne hk hg' hne, hbacks⟩

theorem wait_coherent (hcoherent : h.Coherent) : (h.step (.wait k n)).Coherent := by
  simp only [step]
  cases hk : h.guests[k]? with
  | none => exact hcoherent
  | some g =>
    dsimp only
    cases hn : g.handles[n]? with
    | none => exact hcoherent
    | some e =>
      have hmem := List.mem_of_getElem? hk
      obtain ⟨hlt, _⟩ := List.getElem?_eq_some_iff.mp hk
      have hawaits := Execution.wait_awaits ⟨h.platform, e⟩
      have hcovered := hcoherent.covered g hmem e (List.mem_of_getElem? hn)
      refine ⟨fun device o howns => ?_, fun g' hg' e' he' o ho => ?_⟩
      case refine_1 =>
        obtain ⟨g', hg', hbacks⟩ : ∃ g' ∈ h.guests, g'.tenant.context.Backs device o := by
          rcases hawaits.owns device o howns with hbefore | ⟨rfl, hpending⟩
          case inl => exact hcoherent.backed device o hbefore
          case inr => exact ⟨g, hmem, hcovered o hpending⟩
        by_cases heq : g' = g
        case pos => exact ⟨_, List.mem_set hlt _, heq ▸ hbacks⟩
        case neg => exact ⟨g', mem_set_of_ne hk hg' heq _, hbacks⟩
      case refine_2 =>
        rcases List.mem_or_eq_of_mem_set hg' with hold | rfl
        case inl => exact hcoherent.covered g' hold e' he' o ho
        case inr =>
          rcases List.mem_or_eq_of_mem_set he' with hold | rfl
          case inl => exact hcoherent.covered g hmem e' hold o ho
          case inr => exact hawaits.target ▸ hcovered o (hawaits.pending ho)

theorem step_coherent (hsound : House.Sound h.platform h.house.tenants) (hcoherent : h.Coherent) {move : Move}
    (htimely : move.Timely) : (h.step move).Coherent := by
  match move with
  | .house (.act k deed) => exact act_coherent hsound hcoherent deed
  | .house (.leave k) => exact leave_coherent hcoherent
  | .wait k n => exact wait_coherent hcoherent
  | .house (.enter name devices) =>
    simp only [step]
    split
    case isFalse => exact hcoherent
    case isTrue =>
      refine ⟨fun device o howns => ?_, fun g hg => ?_⟩
      case refine_1 =>
        obtain ⟨g, hg, hbacks⟩ := hcoherent.backed device o howns
        exact ⟨g, List.mem_append_left _ hg, hbacks⟩
      case refine_2 =>
        rcases List.mem_append.mp hg with hold | hnew
        case inl => exact hcoherent.covered g hold
        case inr =>
          rw [List.mem_singleton.mp hnew]
          exact List.forall_mem_nil _

theorem steps_coherent (hsound : House.Sound h.platform h.house.tenants) (hcoherent : h.Coherent)
    {moves : List Move} (htimely : ∀ move ∈ moves, move.Timely) : (h.run moves).Coherent := by
  unfold run
  induction moves generalizing h with
  | nil => exact hcoherent
  | cons move moves ih =>
    obtain ⟨hmove, hlater⟩ := List.forall_mem_cons.mp htimely
    exact ih (step_sound hsound move) (step_coherent hsound hcoherent hmove) hlater

theorem Fresh.coherent (hfresh : h.Fresh) : h.Coherent := by
  have hguests : h.guests = [] := List.map_eq_nil_iff.mp hfresh.house.tenants
  refine ⟨fun device o howns => ?_, hguests ▸ nofun⟩
  obtain ⟨record, hrecord, howner⟩ := Option.bind_eq_some_iff.mp howns
  obtain ⟨entry, hentry, hrecorded⟩ := Option.bind_eq_some_iff.mp hrecord
  have hnobody := hfresh.unowned entry (Registry.mem_of_entry? hentry)
  rw [hrecorded, Option.bind_some, howner] at hnobody
  cases hnobody

-- What can be relied on about the records.
structure Accounted (h : Household) : Prop where
  -- Whoever is on record has the device active, and valid data there.
  owner  : ∀ device o, Owns h.platform device o → ∃ g ∈ h.guests, g.tenant.context.Backs device o
  -- What a guest reads back is put on record as shared, and it is.
  shared : ∀ g ∈ h.guests, ∀ objects s,
    Context.sync objects ⟨h.platform, g.tenant.context⟩ = (.ok ⟨⟩, s) → ∀ o ∈ objects, Shares s o.handle

theorem accounted (hsound : House.Sound h.platform h.house.tenants) (hcoherent : h.Coherent) :
    h.Accounted where
  owner := hcoherent.backed
  shared g hg objects s hsync := by
    obtain ⟨k, hk⟩ := List.getElem?_of_mem hg
    obtain ⟨rest, hlodged⟩ := lodged hsound hk
    exact (Context.sync_shares hlodged.books objects).of_eq hsync rfl

-- However guests come, go and work, the records can be relied on, and the data of an object that no task has
-- to do with is what the host has, as long as nothing but what was brought in is brought out.
theorem run_coherent (hfresh : h.Fresh) {moves : List Move} (htimely : ∀ move ∈ moves, move.Timely) :
    (h.run moves).Accounted ∧ ∀ o, (∀ move ∈ moves, move.Meets (Tenant.Deed.Avoids o)) →
      ((∀ move ∈ moves, move.Meets Tenant.Deed.Whole) ∨
        ∀ move ∈ moves, move.Meets (Tenant.Deed.Refills o)) →
      ∀ g ∈ (h.run moves).guests, Context.Mirrors o ⟨(h.run moves).platform, g.tenant.context⟩ := by
  have hsound := hfresh.house.sound
  refine ⟨accounted (run_sound hsound moves) (steps_coherent hsound hfresh.coherent htimely),
    fun o havoids hway g hg => ?_⟩
  obtain ⟨B, hspares⟩ := exists_spares havoids hway
  obtain ⟨_, hspared⟩ := run_spared hsound (spared_of_fresh hfresh.house) hspares
  exact (hspared g.tenant (List.mem_map_of_mem hg)).2

open House (first second calling)

theorem lodge_coherent : lodge.Fresh ∧ (∀ move ∈ outing, move.Timely) ∧
    Owns (lodge.run outing).platform 0 first.handle ∧
    ∃ g ∈ (lodge.run outing).guests, g.tenant.context.Backs 0 first.handle ∧
      Context.Mirrors first.handle ⟨(lodge.run outing).platform, g.tenant.context⟩ ∧
      ∃ s, Context.sync [second] ⟨(lodge.run outing).platform, g.tenant.context⟩ = (.ok ⟨⟩, s) ∧
        Shares s second.handle := by
  have hfresh : lodge.Fresh := ⟨lodge_fresh, by decide⟩
  have htimely : ∀ move ∈ outing, move.Timely := by decide
  have howns : Owns (lodge.run outing).platform 0 first.handle := by
    unfold Owns
    decide +kernel
  have hreads : ∀ g ∈ (lodge.run outing).guests,
      (Context.sync [second] ⟨(lodge.run outing).platform, g.tenant.context⟩).1.isOk := by decide +kernel
  obtain ⟨haccounted, hmirrors⟩ := run_coherent hfresh htimely
  obtain ⟨g, hg, hbacks⟩ := haccounted.owner 0 first.handle howns
  have hread := hreads g hg
  refine ⟨hfresh, htimely, howns, g, hg, hbacks,
    hmirrors first.handle (by decide) (.inr outing_refills) g hg, ?_⟩
  rcases hsync : Context.sync [second] ⟨(lodge.run outing).platform, g.tenant.context⟩ with ⟨e | _, s⟩
  case error =>
    rw [hsync] at hread
    cases hread
  case ok => exact ⟨s, rfl, haccounted.shared g hg [second] s hsync second List.mem_cons_self⟩

-- What is brought out has not been waited for when the context gives its buffers up.
def lapse : List Move :=
  visit [.build 0 [.streamIn first, .streamOut first, .streamIn second], .compile 0 none {} {}, .execute 0,
    .invalidate] ++ [.waitLate 0]

def recount : List Move :=
  visit [.build 0 [.streamIn first, .task (calling "increment" first)], .compile 0 none {} {}, .execute 0,
    .sync [first], .execute 0] ++ [.wait 0 0, .wait 0 1]

-- Waiting too late puts a context on record that has nothing, and a task makes no difference to the record.
theorem lodge_stale : lodge.Fresh ∧ Owns (lodge.run lapse).platform 0 first.handle ∧
    (lodge.run lapse).guests.map (·.tenant.context.held) = [[]] ∧
    (lodge.run recount).platform.registry.record? first.handle = some { owner := some 0, shared := true } ∧
    (lodge.run recount).guests.map (·.tenant.context.held) = [[(⟨1⟩, 2)]] ∧
    ((lodge.run recount).house.device 0).memory.contents? ⟨1⟩ = some [3, 4] ∧
    (lodge.run recount).platform.registry.bytes first.handle = [2, 3] := by
  refine ⟨⟨lodge_fresh, by decide⟩, ?_, by decide +kernel, by decide +kernel, by decide +kernel,
    by decide +kernel, by decide +kernel⟩
  unfold Owns
  decide +kernel

end Household
end Offload
