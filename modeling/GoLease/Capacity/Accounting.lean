import GoLease.Capacity.Client
import GoLease.Capacity.Progress
import Mathlib.Algebra.Order.BigOperators.Group.List
import Mathlib.Algebra.Order.Group.Nat

namespace GoLease.Capacity

open Lifecycle Traces Pool

structure Inv (c : Client) : Prop where
  waiters_eq : c.waiters = c.acquires.countP (· == .reserved)
  waiters_le : c.waiters ≤ c.maxWaiters
  slots_eq : c.slots = (c.sites.map Site.weight).sum
  slots_le : c.slots ≤ c.maxManaged
  sites : ∀ site ∈ c.sites, SiteOk site
  stops : ∀ stop ∈ c.stops, stop.result = some none →
    ∃ g, c.managed stop.site stop.renewer = some g ∧ g.doneCloses ≠ 0

section Client

variable {c : Client}

theorem managed_eq_some {i r : Nat} {g : Managed} :
    c.managed i r = some g ↔ ∃ site, c.sites[i]? = some site ∧ site.managed[r]? = some g := by
  unfold Client.managed
  cases c.sites[i]? with
  | none => exact ⟨nofun, fun ⟨_, h, _⟩ => by cases h⟩
  | some site =>
      constructor
      · intro h
        exact ⟨site, rfl, h⟩
      · rintro ⟨_, ⟨⟩, h⟩
        exact h

/-- One handle changes, and the slots by as much as it takes and returns. -/
theorem Inv.setSite (h : Inv c) {i slots taken freed : Nat} {site site' : Site}
    (hi : c.sites[i]? = some site) (hm : Moved taken freed site site')
    (hslots : slots + freed = c.slots + taken) (hle : slots ≤ c.maxManaged) :
    Inv { c with slots, sites := c.sites.set i site' } := by
  refine ⟨h.waiters_eq, h.waiters_le, ?_, hle, forall_mem_set h.sites hm.ok, ?_⟩
  · have hsum := sum_map_set_add (f := Site.weight) (b := site') hi
    have heq := h.slots_eq
    have hweight := hm.weight
    dsimp only
    omega
  · intro stop hs hr
    obtain ⟨g, hg, hne⟩ := h.stops stop hs hr
    obtain ⟨other, ho, hg⟩ := managed_eq_some.mp hg
    by_cases he : i = stop.site
    · rw [← he, hi] at ho
      cases ho
      obtain ⟨g', hg', hmore⟩ := hm.done _ g hg
      refine ⟨g', managed_eq_some.mpr ⟨site', ?_, hg'⟩, by omega⟩
      rw [← he]
      exact getElem?_set_of_some hi site'
    · exact ⟨g, managed_eq_some.mpr ⟨other, (List.getElem?_set_ne he).trans ho, hg⟩, hne⟩

theorem Inv.returnSlot (h : Inv c) {i : Nat} {site : Site} (hi : c.sites[i]? = some site) :
    Inv (c.returnSlot i site) := by
  unfold Client.returnSlot
  split
  next r hl =>
    split
    next => exact h
    next hpos =>
      have hok := h.sites site (List.mem_of_getElem? hi)
      obtain ⟨g, hg, _⟩ := hok.leaving r hl
      rw [returnSlot_eq hl hg]
      exact h.setSite hi (hok.returned hl hg) (Nat.sub_add_cancel (Nat.pos_of_ne_zero hpos))
        (Nat.le_trans (Nat.sub_le _ _) h.slots_le)
  next => exact h

theorem atSite_eq {i : Nat} {site : Site} (hi : c.sites[i]? = some site) {event : Site.Event}
    (hreturn : event ≠ .returnSlot) :
    c.atSite i event = { c with sites := c.sites.set i (site.step event) } := by
  unfold Client.atSite
  rw [hi]
  cases event with
  | returnSlot => exact absurd rfl hreturn
  | inside | started | send | receive | leave | closeLoss | closeDone => rfl

theorem Inv.atSite (h : Inv c) (i : Nat) (event : Site.Event) : Inv (c.atSite i event) := by
  cases hi : c.sites[i]? with
  | none =>
      rw [Client.atSite, hi]
      exact h
  | some site =>
      by_cases hreturn : event = .returnSlot
      · subst hreturn
        rw [Client.atSite, hi]
        exact h.returnSlot hi
      · rw [atSite_eq hi hreturn]
        rcases (h.sites site (List.mem_of_getElem? hi)).moved (step_went site event) with hm | ⟨he, _⟩
        · exact h.setSite hi hm rfl h.slots_le
        · exact absurd he hreturn

theorem Inv.addHandle (h : Inv c) (policy : Policy) (record : Record) (started : Reading) :
    Inv (c.addHandle policy record started) := by
  refine ⟨h.waiters_eq, h.waiters_le, ?_, h.slots_le,
    forall_mem_append h.sites (siteOk_new policy record started), ?_⟩
  · rw [Client.addHandle, List.map_append, List.sum_append, ← h.slots_eq]
    rfl
  · intro stop hs hr
    obtain ⟨g, hg, hne⟩ := h.stops stop hs hr
    obtain ⟨site, hi, hg⟩ := managed_eq_some.mp hg
    exact ⟨g, managed_eq_some.mpr ⟨site, getElem?_append_of_some hi _, hg⟩, hne⟩

theorem Inv.acquire (h : Inv c) : Inv c.acquire := by
  unfold Client.acquire
  split
  next hlt =>
    refine ⟨?_, hlt, h.slots_eq, h.slots_le, h.sites, h.stops⟩
    rw [List.countP_append, ← h.waiters_eq]
    rfl
  next =>
    refine ⟨?_, h.waiters_le, h.slots_eq, h.slots_le, h.sites, h.stops⟩
    rw [List.countP_append, ← h.waiters_eq]
    rfl

theorem Inv.acquireReturn (h : Inv c) (call : Nat) (handle : Option (Policy × Record × Reading)) :
    Inv (c.acquireReturn call handle) := by
  unfold Client.acquireReturn
  split
  next hcall =>
    split
    next => exact h
    next hpos =>
      have hreturned : Inv { c with
          waiters := c.waiters - 1, acquires := c.acquires.set call .returned } := by
        refine ⟨?_, Nat.le_trans (Nat.sub_le _ _) h.waiters_le, h.slots_eq, h.slots_le, h.sites, h.stops⟩
        have hcount := countP_set_add (p := (· == Waiter.reserved)) (b := .returned) hcall
        rw [← h.waiters_eq] at hcount
        exact (Nat.sub_eq_of_eq_add hcount.symm)
      cases handle with
      | none => exact hreturned
      | some acquired => exact hreturned.addHandle _ _ _
  next => exact h

theorem startManaged_slot {site : Site} {reading : Reading} {slot : Prop} [Decidable slot]
    (hfree : site.locked = none) (h : (site.startManaged reading slot).locked.isSome = true) : slot := by
  unfold Site.startManaged at h
  dsimp only at h
  split at h
  next hstarted =>
    obtain ⟨_, hslot, _⟩ := site.machine.handle.startManaged_ok hstarted
    exact of_decide_eq_true hslot
  next =>
    dsimp only at h
    rw [hfree] at h
    cases h

theorem Inv.startManaged (h : Inv c) (i : Nat) (reading : Reading) : Inv (c.startManaged i reading) := by
  unfold Client.startManaged
  split
  next site hi =>
    split
    next => exact h
    next hfree =>
      rw [Bool.not_eq_true, Option.isSome_eq_false_iff, Option.isNone_iff_eq_none] at hfree
      have hm := (h.sites site (List.mem_of_getElem? hi)).startManaged hfree reading
        (c.slots < c.maxManaged)
      dsimp only
      split
      next htaken =>
        rw [htaken] at hm
        exact h.setSite hi hm rfl (startManaged_slot hfree htaken)
      next hrefused =>
        rw [Bool.not_eq_true] at hrefused
        rw [hrefused] at hm
        exact h.setSite hi hm rfl h.slots_le
  next => exact h

theorem Inv.setStop (h : Inv c) {n : Nat} {stop : Stop} (hstop : stop.result = some none →
      ∃ g, c.managed stop.site stop.renewer = some g ∧ g.doneCloses ≠ 0) :
    Inv { c with stops := c.stops.set n stop } :=
  ⟨h.waiters_eq, h.waiters_le, h.slots_eq, h.slots_le, h.sites, forall_mem_set h.stops hstop⟩

theorem Inv.stopDone (h : Inv c) (n : Nat) : Inv (c.stopDone n) := by
  unfold Client.stopDone
  split
  next i r _ =>
    split
    next g hg =>
      split
      next => exact h
      next hne => exact h.setStop (fun _ => ⟨g, hg, hne⟩)
    next => exact h
  next => exact h

theorem Inv.stopCanceled (h : Inv c) (n : Nat) : Inv (c.stopCanceled n) := by
  unfold Client.stopCanceled
  split
  next => exact h.setStop nofun
  next => exact h

theorem Inv.step (h : Inv c) (event : Event) : Inv (c.step event) := by
  cases event with
  | acquire => exact h.acquire
  | acquireReturn call handle => exact h.acquireReturn call handle
  | tryAcquired policy record started => exact h.addHandle policy record started
  | startManaged i reading => exact h.startManaged i reading
  | atSite i event => exact h.atSite i event
  | stop i r =>
      exact ⟨h.waiters_eq, h.waiters_le, h.slots_eq, h.slots_le, h.sites,
        forall_mem_append h.stops nofun⟩
  | stopDone n => exact h.stopDone n
  | stopCanceled n => exact h.stopCanceled n

theorem inv_new (maxWaiters maxManaged : Nat) : Inv (.new maxWaiters maxManaged) := by
  refine ⟨rfl, Nat.zero_le _, rfl, Nat.zero_le _, ?_, ?_⟩
  · intro site hs
    cases hs
  · intro stop hs
    cases hs

theorem bounds_step (c : Client) (event : Event) :
    (c.step event).maxWaiters = c.maxWaiters ∧ (c.step event).maxManaged = c.maxManaged := by
  cases event with
  | tryAcquired | stop => exact ⟨rfl, rfl⟩
  | acquire =>
      simp only [Client.step, Client.acquire]
      split <;> exact ⟨rfl, rfl⟩
  | acquireReturn call handle =>
      simp only [Client.step, Client.acquireReturn]
      repeat' split
      all_goals exact ⟨rfl, rfl⟩
  | atSite i event =>
      unfold Client.step Client.atSite
      dsimp only
      split
      next =>
        split
        next =>
          unfold Client.returnSlot
          split
          next => split <;> exact ⟨rfl, rfl⟩
          next => exact ⟨rfl, rfl⟩
        next => exact ⟨rfl, rfl⟩
      next => exact ⟨rfl, rfl⟩
  | startManaged i reading =>
      simp only [Client.step, Client.startManaged]
      repeat' split
      all_goals exact ⟨rfl, rfl⟩
  | stopDone n =>
      simp only [Client.step, Client.stopDone]
      repeat' split
      all_goals exact ⟨rfl, rfl⟩
  | stopCanceled n =>
      simp only [Client.step, Client.stopCanceled]
      split <;> exact ⟨rfl, rfl⟩

/-- A handle whose lock is held across a start or an exit has a slot taken. -/
theorem Inv.slots_pos (h : Inv c) {i : Nat} {site : Site} (hi : c.sites[i]? = some site)
    (hl : site.locked.isSome = true) : 0 < c.slots := by
  have hmem : site.weight ∈ c.sites.map Site.weight := List.mem_map_of_mem (List.mem_of_getElem? hi)
  have hle := List.single_le_sum (fun _ _ => Nat.zero_le _) _ hmem
  have hpos : 0 < site.weight := by
    unfold Site.weight
    rw [hl]
    exact Nat.succ_pos _
  rw [h.slots_eq]
  exact Nat.lt_of_lt_of_le hpos hle

/-- No step of a handle is held back by the slots. -/
theorem Inv.atSite_self (h : Inv c) {i : Nat} {site : Site} (hi : c.sites[i]? = some site)
    (event : Site.Event) : (c.atSite i event).sites[i]? = some (site.step event) := by
  by_cases hreturn : event = .returnSlot
  · subst hreturn
    rw [Client.atSite, hi]
    dsimp only
    unfold Client.returnSlot
    split
    next r hl =>
      rw [if_neg (Nat.ne_of_gt (h.slots_pos hi (by rw [hl]; rfl)))]
      exact getElem?_set_of_some hi _
    next hl =>
      simp only [Site.step, Site.returnSlot]
      exact hi
  · rw [atSite_eq hi hreturn]
    exact getElem?_set_of_some hi _

theorem Inv.run_site (h : Inv c) {i : Nat} {site : Site} (hi : c.sites[i]? = some site)
    (later : List Site.Event) :
    ((later.map (Event.atSite i)).foldl Client.step c).sites[i]? = some (later.foldl Site.step site) := by
  induction later generalizing c site with
  | nil => exact hi
  | cons event later ih => exact ih (h.step (.atSite i event)) (h.atSite_self hi event)

/-- Without a start or an exit under way, the flags that are set, the goroutines
that have not run their exit and the slots in use are the same number. -/
theorem Inv.balanced (h : Inv c) (hfree : ∀ site ∈ c.sites, site.locked = none) :
    c.slots = c.sites.countP (fun site => site.machine.handle.managed) ∧
      c.slots = (c.sites.flatMap (fun site => site.machine.renewers)).countP running := by
  have hlists (sites : List Site) (hok : ∀ site ∈ sites, SiteOk site)
      (hfree : ∀ site ∈ sites, site.locked = none) :
      (sites.map Site.weight).sum = sites.countP (fun site => site.machine.handle.managed) ∧
        (sites.map Site.weight).sum =
          (sites.flatMap (fun site => site.machine.renewers)).countP running := by
    induction sites with
    | nil => exact ⟨rfl, rfl⟩
    | cons site sites ih =>
        obtain ⟨hflags, hlive⟩ := ih (fun s hs => hok s (List.mem_cons_of_mem _ hs))
          (fun s hs => hfree s (List.mem_cons_of_mem _ hs))
        have hl := hfree site List.mem_cons_self
        have hone := (hok site List.mem_cons_self).live
        rw [List.map_cons, List.sum_cons, List.countP_cons, List.flatMap_cons, List.countP_append, hone,
          ← hflags, ← hlive, Site.weight, hl]
        cases site.machine.handle.managed with
        | true => exact ⟨Nat.add_comm _ _, rfl⟩
        | false => exact ⟨Nat.add_comm _ _, rfl⟩
  rw [h.slots_eq]
  exact hlists c.sites h.sites hfree

/-- What has happened to a Managed, whatever point its goroutine has reached. -/
theorem ManagedOk.counts {renewer : Renewer} {g : Managed} (h : ManagedOk renewer g) :
    g.sends ≤ 1 ∧ g.returns ≤ 1 ∧ g.lossCloses ≤ g.returns ∧ g.doneCloses ≤ g.lossCloses := by
  have hlosses (loss : Option Loss) : losses loss ≤ 1 := by
    cases loss with
    | none => exact Nat.zero_le _
    | some => exact Nat.le_refl _
  unfold ManagedOk at h
  cases ht : g.tail with
  | looping =>
      rw [ht] at h
      obtain ⟨_, rfl⟩ := h
      decide
  | sent =>
      rw [ht] at h
      obtain ⟨_, _, hsends, hreturns, hloss, hdone⟩ := h
      omega
  | leaving | unlocked | closing | ended =>
      rw [ht] at h
      obtain ⟨loss, _, hsends, hreturns, hloss, hdone⟩ := h
      have hle := hlosses loss
      omega

theorem Inv.managed_ok (h : Inv c) {i r : Nat} {g : Managed} (hg : c.managed i r = some g) :
    ∃ renewer, ManagedOk renewer g := by
  obtain ⟨site, hi, hg⟩ := managed_eq_some.mp hg
  have hok := h.sites site (List.mem_of_getElem? hi)
  have hlt := (List.getElem?_eq_some_iff.mp hg).1
  rw [hok.length] at hlt
  exact ⟨_, hok.managed r _ g (List.getElem?_eq_getElem hlt) hg⟩

end Client

/-- Capacity accounting of one client. In every run, the waiter slots in use
are the Acquire calls that hold one; between starts and exits the managed slots
in use are the flags that are set and the goroutines that have not run their
exit; neither number passes its limit. A handle has at most one such goroutine.
A Managed sends at most one Loss, into an empty open channel, and once it has
left its loop it can go on to close both channels, which it does once. A Stop
that returned nil has its slot returned. -/
theorem client_capacity (maxWaiters maxManaged : Nat) (events : List Event) :
    let c := events.foldl Client.step (.new maxWaiters maxManaged)
    (c.waiters = c.acquires.countP (· == .reserved) ∧ c.waiters ≤ maxWaiters) ∧
    c.slots ≤ maxManaged ∧
    ((∀ site ∈ c.sites, site.locked = none) →
      c.slots = c.sites.countP (fun site => site.machine.handle.managed) ∧
        c.slots = (c.sites.flatMap (fun site => site.machine.renewers)).countP running) ∧
    (∀ site ∈ c.sites, site.machine.renewers.countP running ≤ 1) ∧
    (∀ i r g, c.managed i r = some g → g.sends ≤ 1 ∧ g.lossCloses ≤ 1 ∧ g.doneCloses ≤ g.lossCloses ∧
      (g.tail = .looping → g.buffer = none ∧ g.lossCloses = 0)) ∧
    (∀ (i r : Nat) site loss, c.sites[i]? = some site →
      site.machine.renewers[r]? = some (.exiting loss) → ∃ (later : List Event) (g : Managed),
        (later.foldl Client.step c).managed i r = some g ∧ g.lossCloses = 1 ∧ g.doneCloses = 1) ∧
    (∀ stop ∈ c.stops, stop.result = some none →
      ∃ g, c.managed stop.site stop.renewer = some g ∧ g.returns = 1) := by
  intro c
  have h : Inv c := invariant_rule (inv_new maxWaiters maxManaged) (fun _ event hs => hs.step event) events
  obtain ⟨hw, hm⟩ : c.maxWaiters = maxWaiters ∧ c.maxManaged = maxManaged := by
    refine invariant_rule (P := fun (c : Client) => c.maxWaiters = maxWaiters ∧ c.maxManaged = maxManaged)
      ⟨rfl, rfl⟩ ?_ events
    rintro c event ⟨hw, hm⟩
    exact ⟨(bounds_step c event).1.trans hw, (bounds_step c event).2.trans hm⟩
  refine ⟨⟨h.waiters_eq, hw ▸ h.waiters_le⟩, hm ▸ h.slots_le, h.balanced, ?_, ?_, ?_, ?_⟩
  · intro site hs
    rw [(h.sites site hs).live]
    split <;> decide
  · intro i r g hg
    obtain ⟨renewer, hok⟩ := h.managed_ok hg
    obtain ⟨hsends, hreturns, hloss, hdone⟩ := hok.counts
    refine ⟨hsends, Nat.le_trans hloss hreturns, hdone, ?_⟩
    intro ht
    rw [ManagedOk, ht] at hok
    obtain ⟨_, rfl⟩ := hok
    exact ⟨rfl, rfl⟩
  · intro i r site loss hi hr
    have hok := h.sites site (List.mem_of_getElem? hi)
    obtain ⟨later, _, g, hg, ht⟩ := hok.ends hr
    have hlater : Inv ((later.map (Event.atSite i)).foldl Client.step c) :=
      invariant_rule h (fun _ event hs => hs.step event) _
    have hmanaged := managed_eq_some.mpr ⟨_, h.run_site hi later, hg⟩
    obtain ⟨renewer, hok⟩ := hlater.managed_ok hmanaged
    rw [ManagedOk, ht] at hok
    obtain ⟨_, _, _, _, hloss, hdone⟩ := hok
    exact ⟨_, g, hmanaged, hloss, hdone⟩
  · intro stop hs hr
    obtain ⟨g, hg, hne⟩ := h.stops stop hs hr
    obtain ⟨renewer, hok⟩ := h.managed_ok hg
    obtain ⟨_, hreturns, hloss, hdone⟩ := hok.counts
    exact ⟨g, hg, by omega⟩

end GoLease.Capacity
