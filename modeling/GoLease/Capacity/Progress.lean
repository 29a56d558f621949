import GoLease.Capacity.Site

namespace GoLease.Capacity

open Lifecycle Pool

/-- What the goroutines of a handle do by themselves: no call of a user and no
receive from a loss channel. -/
def Site.Event.own : Site.Event → Bool
  | .receive _ | .inside (.state _) | .inside (.invoke _ _) => false
  | _ => true

/-- Some steps of the goroutines take this one to its end. -/
def Ends (site : Site) (r : Nat) : Prop :=
  ∃ later : List Site.Event, (∀ event ∈ later, event.own = true) ∧
    ∃ g, (later.foldl Site.step site).managed[r]? = some g ∧ g.tail = .ended

variable {site : Site} {r : Nat} {g : Managed}

theorem ends_of_steps {later : List Site.Event} (hown : ∀ event ∈ later, event.own = true)
    (h : Ends (later.foldl Site.step site) r) : Ends site r := by
  obtain ⟨rest, hrest, g, hg, ht⟩ := h
  refine ⟨later ++ rest, ?_, g, ?_, ht⟩
  · intro event hm
    rcases List.mem_append.mp hm with hm | hm
    · exact hown event hm
    · exact hrest event hm
  · rw [List.foldl_append]
    exact hg

theorem ends_of_step {event : Site.Event} (hown : event.own = true) (h : Ends (site.step event) r) :
    Ends site r :=
  ends_of_steps (fun _ hm => List.mem_singleton.mp hm ▸ hown) (show Ends ([event].foldl _ site) r from h)

theorem ends_of_ended (hg : site.managed[r]? = some g) (ht : g.tail = .ended) : Ends site r :=
  ⟨[], nofun, g, hg, ht⟩

theorem ends_of_closing (hg : site.managed[r]? = some g) (ht : g.tail = .closing) : Ends site r := by
  have hclose : (site.closeDone r).managed[r]? =
      some { g with tail := .ended, doneCloses := g.doneCloses + 1 } := by
    unfold Site.closeDone
    rw [hg]
    dsimp only
    rw [if_pos ht]
    exact getElem?_set_of_some hg _
  exact @ends_of_step _ _ (.closeDone r) rfl (ends_of_ended hclose rfl)

theorem ends_of_unlocked (hg : site.managed[r]? = some g) (ht : g.tail = .unlocked) : Ends site r := by
  have hclose : (site.closeLoss r).managed[r]? =
      some { g with tail := .closing, lossCloses := g.lossCloses + 1 } := by
    unfold Site.closeLoss
    rw [hg]
    dsimp only
    rw [if_pos ht]
    exact getElem?_set_of_some hg _
  exact @ends_of_step _ _ (.closeLoss r) rfl (ends_of_closing hclose rfl)

theorem SiteOk.ends_of_leaving (h : SiteOk site) (hg : site.managed[r]? = some g)
    (ht : g.tail = .leaving) : Ends site r := by
  have hreturn : site.returnSlot.managed[r]? =
      some { g with tail := .unlocked, returns := g.returns + 1 } := by
    rw [returnSlot_eq (h.held r g hg ht) hg]
    exact getElem?_set_of_some hg _
  exact @ends_of_step _ _ .returnSlot rfl (ends_of_unlocked hreturn rfl)

theorem SiteOk.ends_of_beforeExit (h : SiteOk site) {loss : Option Loss} (hl : site.locked = none)
    (hr : site.machine.renewers[r]? = some (.exiting loss)) (hg : site.managed[r]? = some g)
    (ht : g.tail = beforeExit loss) : Ends site r := by
  have hleave : (site.leave r).managed[r]? = some { g with tail := .leaving } := by
    unfold Site.leave
    rw [hl, hr, hg]
    dsimp only
    rw [if_pos ht]
    exact getElem?_set_of_some hg _
  exact @ends_of_step _ _ (.leave r) rfl ((h.step (.leave r)).ends_of_leaving hleave rfl)

/-- Whoever holds the lock of a handle can go on to free it. -/
theorem SiteOk.unlock (h : SiteOk site) :
    ∃ later : List Site.Event, (∀ event ∈ later, event.own = true) ∧
      (later.foldl Site.step site).locked = none ∧
      (later.foldl Site.step site).machine.calls = site.machine.calls ∧
      ∀ (q : Nat) renewer, site.machine.renewers[q]? = some renewer →
        (later.foldl Site.step site).machine.renewers[q]? = some renewer := by
  cases hl : site.locked with
  | none => exact ⟨[], nofun, hl, rfl, fun _ _ hq => hq⟩
  | some s =>
      cases s with
      | starting =>
          have hstarted : site.step .started =
              ⟨⟨{ site.machine.handle with managed := true }, site.machine.calls,
                site.machine.renewers ++ [.sleeping]⟩, site.managed ++ [.new], none⟩ := by
            simp only [Site.step, Site.started, hl]
          refine ⟨[.started], fun _ hm => List.mem_singleton.mp hm ▸ rfl, ?_⟩
          rw [List.foldl_cons, List.foldl_nil, hstarted]
          exact ⟨rfl, rfl, fun _ _ hq => getElem?_append_of_some hq _⟩
      | leaving q =>
          obtain ⟨_, hg, _⟩ := h.leaving q hl
          refine ⟨[.returnSlot], fun _ hm => List.mem_singleton.mp hm ▸ rfl, ?_⟩
          rw [List.foldl_cons, List.foldl_nil, Site.step, returnSlot_eq hl hg]
          exact ⟨rfl, rfl, fun _ _ hq => hq⟩

/-- A goroutine that can end whenever the lock is free can end. -/
theorem SiteOk.ends_of_free (h : SiteOk site) {renewer : Renewer}
    (hr : site.machine.renewers[r]? = some renewer)
    (hends : ∀ site' : Site, SiteOk site' → site'.locked = none →
      site'.machine.calls = site.machine.calls → site'.machine.renewers[r]? = some renewer →
      Ends site' r) : Ends site r := by
  obtain ⟨later, hown, hl, hcalls, hkept⟩ := h.unlock
  have hok : SiteOk (later.foldl Site.step site) :=
    Traces.invariant_rule h (fun _ event hs => hs.step event) later
  exact ends_of_steps hown (hends _ hok hl hcalls (hkept r renewer hr))

theorem SiteOk.managed_of_renewer (h : SiteOk site) {renewer : Renewer}
    (hr : site.machine.renewers[r]? = some renewer) :
    ∃ g, site.managed[r]? = some g ∧ ManagedOk renewer g := by
  have hlt := (List.getElem?_eq_some_iff.mp hr).1
  rw [← h.length] at hlt
  have hg := List.getElem?_eq_getElem hlt
  exact ⟨_, hg, h.managed r renewer _ hr hg⟩

theorem SiteOk.ends_of_exiting (h : SiteOk site) {loss : Option Loss}
    (hr : site.machine.renewers[r]? = some (.exiting loss)) : Ends site r := by
  apply h.ends_of_free hr
  intro site h hl _ hr
  obtain ⟨g, hg, hmanaged⟩ := h.managed_of_renewer hr
  unfold ManagedOk at hmanaged
  cases ht : g.tail with
  | sent =>
      rw [ht] at hmanaged
      obtain ⟨sent, ⟨⟩, _⟩ := hmanaged
      exact h.ends_of_beforeExit hl hr hg ht
  | leaving | unlocked | closing | ended =>
      rw [ht] at hmanaged
      obtain ⟨_, ⟨⟩, _⟩ := hmanaged
  | looping =>
      cases loss with
      | none => exact h.ends_of_beforeExit hl hr hg ht
      | some loss =>
          rw [ht] at hmanaged
          obtain ⟨_, rfl⟩ := hmanaged
          have hsend : site.step (.send r) =
              { site with managed := site.managed.set r ⟨.sent, some loss, 1, 0, 0, 0⟩ } := by
            rw [Site.step, Site.send, hr, hg]
            rfl
          have hok := h.step (.send r)
          apply @ends_of_step _ _ (.send r) rfl
          rw [hsend] at hok ⊢
          exact hok.ends_of_beforeExit hl hr (getElem?_set_of_some hg _) rfl

theorem SiteOk.ends_of_exited (h : SiteOk site) {loss : Option Loss}
    (hr : site.machine.renewers[r]? = some (.exited loss)) : Ends site r := by
  obtain ⟨g, hg, hmanaged⟩ := h.managed_of_renewer hr
  unfold ManagedOk at hmanaged
  cases ht : g.tail with
  | looping =>
      rw [ht] at hmanaged
      cases hmanaged.1
  | sent =>
      rw [ht] at hmanaged
      obtain ⟨_, ⟨⟩, _⟩ := hmanaged
  | leaving => exact h.ends_of_leaving hg ht
  | unlocked => exact ends_of_unlocked hg ht
  | closing => exact ends_of_closing hg ht
  | ended => exact ends_of_ended hg ht

theorem ends_of_inside {event : Lifecycle.Event} (hown : (Site.Event.inside event).own = true)
    (ha : site.admits event = true) (h : Ends { site with machine := site.machine.step event } r) :
    Ends site r := by
  apply ends_of_step hown
  rw [Site.step, Site.inside, if_pos ha]
  exact h

theorem SiteOk.machine_step (h : SiteOk site) {event : Lifecycle.Event}
    (ha : site.admits event = true) : SiteOk { site with machine := site.machine.step event } := by
  have hok := h.step (.inside event)
  rw [Site.step, Site.inside, if_pos ha] at hok
  exact hok

theorem SiteOk.ends_of_sleeping (h : SiteOk site) (hr : site.machine.renewers[r]? = some .sleeping) :
    Ends site r := by
  have ha : site.admits (.wake r (some (.sentinel .contextCanceled))) = true := rfl
  apply ends_of_inside rfl ha
  apply (h.machine_step ha).ends_of_exiting
  simp only [Machine.step, Machine.wake, hr]
  exact getElem?_set_of_some hr _

theorem SiteOk.ends_of_failed (h : SiteOk site) {err : Error}
    (hr : site.machine.renewers[r]? = some (.failed err)) : Ends site r := by
  apply h.ends_of_free hr
  intro site h hl _ hr
  have ha : site.admits (.lose r ⟨0, 0⟩) = true := by
    rw [Site.admits, hl]
    rfl
  apply ends_of_inside rfl ha
  apply (h.machine_step ha).ends_of_exiting
  simp only [Machine.step, Machine.lose, hr]
  exact getElem?_set_of_some hr _

section Renew

variable {call : Nat} {op : Op}

theorem SiteOk.ends_of_returned (h : SiteOk site) {err : Option Error}
    (hr : site.machine.renewers[r]? = some (.renewing call))
    (hc : site.machine.calls[call]? = some ⟨op, .returned err⟩) : Ends site r := by
  have ha : site.admits (.resume r) = true := rfl
  apply ends_of_inside rfl ha
  cases err with
  | none =>
      apply (h.machine_step ha).ends_of_sleeping
      simp only [Machine.step, Machine.resume, hr, hc]
      exact getElem?_set_of_some hr _
  | some err =>
      apply (h.machine_step ha).ends_of_failed
      simp only [Machine.step, Machine.resume, hr, hc]
      exact getElem?_set_of_some hr _

/-- Some steps take this call to its return, with the renewers as they are. -/
def Answers (site : Site) (call : Nat) : Prop :=
  ∃ later : List Site.Event, (∀ event ∈ later, event.own = true) ∧
    (later.foldl Site.step site).machine.renewers = site.machine.renewers ∧
    ∃ op err, (later.foldl Site.step site).machine.calls[call]? = some ⟨op, .returned err⟩

theorem answers_of_inside {event : Lifecycle.Event} (hown : (Site.Event.inside event).own = true)
    (ha : site.admits event = true) (hr : (site.machine.step event).renewers = site.machine.renewers)
    (h : Answers { site with machine := site.machine.step event } call) : Answers site call := by
  obtain ⟨later, hlater, hkept, hc⟩ := h
  have hstep : site.step (.inside event) = { site with machine := site.machine.step event } := if_pos ha
  refine ⟨.inside event :: later, ?_, ?_, ?_⟩
  · exact List.forall_mem_cons.mpr ⟨hown, hlater⟩
  · rw [List.foldl_cons, hstep]
    exact hkept.trans hr
  · rw [List.foldl_cons, hstep]
    exact hc

theorem answers_of_replied {record : Record} {started : Reading} {reply : Reply} (hl : site.locked = none)
    (hc : site.machine.calls[call]? = some ⟨op, .replied record started reply⟩) : Answers site call := by
  have ha : site.admits (.finish call ⟨0, 0⟩) = true := by
    rw [Site.admits, hl]
    rfl
  have hstep : site.machine.step (.finish call ⟨0, 0⟩) = site.machine.finish call ⟨0, 0⟩ := rfl
  simp only [Machine.finish, hc] at hstep
  apply answers_of_inside rfl ha
  · rw [hstep]
  · rw [hstep]
    exact ⟨[], by simp, rfl, op, _, getElem?_set_of_some hc _⟩

theorem answers_of_dispatched {record : Record} {started : Reading} (hl : site.locked = none)
    (hc : site.machine.calls[call]? = some ⟨op, .dispatched record started⟩) : Answers site call := by
  have hstep : site.machine.step (.reply call (.ofErr none)) = site.machine.reply call (.ofErr none) := rfl
  simp only [Machine.reply, hc] at hstep
  apply @answers_of_inside site call (.reply call (.ofErr none)) rfl rfl
  · rw [hstep]
  · rw [hstep]
    exact answers_of_replied hl (getElem?_set_of_some hc _)

/-- A call on a handle that is not locked can return. -/
theorem answers {stage : Stage} (hl : site.locked = none)
    (hc : site.machine.calls[call]? = some ⟨op, stage⟩) : Answers site call := by
  cases stage with
  | returned err => exact ⟨[], nofun, rfl, op, err, hc⟩
  | replied => exact answers_of_replied hl hc
  | dispatched => exact answers_of_dispatched hl hc
  | reserved record =>
      have hstep : site.machine.step (.dispatch call ⟨0, 0⟩) = site.machine.dispatch call ⟨0, 0⟩ := rfl
      simp only [Machine.dispatch, hc] at hstep
      apply @answers_of_inside site call (.dispatch call ⟨0, 0⟩) rfl rfl
      · rw [hstep]
      · rw [hstep]
        exact answers_of_dispatched hl (getElem?_set_of_some hc _)

theorem SiteOk.ends_of_renewing (h : SiteOk site)
    (hr : site.machine.renewers[r]? = some (.renewing call)) : Ends site r := by
  apply h.ends_of_free hr
  intro site h hl _ hr
  have hc := List.getElem?_eq_getElem (h.calls r call hr)
  obtain ⟨later, hown, hkept, op, err, hreturned⟩ := answers hl hc
  have hok : SiteOk (later.foldl Site.step site) :=
    Traces.invariant_rule h (fun _ event hs => hs.step event) later
  rw [← hkept] at hr
  exact ends_of_steps hown (hok.ends_of_returned hr hreturned)

end Renew

/-- Wherever a renewer stands, its goroutine can come to its end. -/
theorem SiteOk.ends (h : SiteOk site) {renewer : Renewer}
    (hr : site.machine.renewers[r]? = some renewer) : Ends site r := by
  cases renewer with
  | sleeping => exact h.ends_of_sleeping hr
  | awake =>
      apply h.ends_of_free hr
      intro site h hl _ hr
      have ha : site.admits (.renew r ⟨0, 0⟩) = true := by
        rw [Site.admits, hl]
        rfl
      apply ends_of_inside rfl ha
      apply (h.machine_step ha).ends_of_renewing
      simp only [Machine.step, Machine.renew, hr]
      exact getElem?_set_of_some hr _
  | renewing call => exact h.ends_of_renewing hr
  | failed err => exact h.ends_of_failed hr
  | exiting loss => exact h.ends_of_exiting hr
  | exited loss => exact h.ends_of_exited hr

end GoLease.Capacity
