import GoLease.Observed.Transparency

namespace GoLease.Observed

open Traces Pool

variable {σ : Type} {exec : σ → Call → σ × Reply} {sha256 : Bytes → Bytes} {s s' : System σ}
  {action : Action}

/-- The goroutine belongs to the slot and has not received from it yet. -/
def Goroutine.live (slot : Nat) (g : Goroutine) : Bool := g.slot == slot && g.progress != .exited

def System.live (s : System σ) (slot : Nat) : List Goroutine := s.goroutines.filter (Goroutine.live slot)

/-- The events whose select at the slot succeeded. -/
def System.accepted (s : System σ) (slot : Nat) : List Event :=
  (s.offers.filter (fun offer => offer.slot == slot && offer.taken)).map Offer.event

/-- The events that the observer of the slot was called with. -/
def System.observed (s : System σ) (slot : Nat) : List Event :=
  (s.callbacks.filter (fun callback => callback.1 == slot)).map Prod.snd

/-- The slots that emit has come to for a call. -/
def System.offered (s : System σ) (i : Nat) : List Nat :=
  (s.offers.filter (fun offer => offer.caller == i)).map Offer.slot

section Slots

/-- An empty channel has no goroutine, and a full one has the goroutine that
filled it. All that was accepted has been observed but the event of a goroutine
that has not called its observer yet. -/
def SlotOk (s : System σ) (slot : Nat) : Bool → Prop
  | false => s.live slot = [] ∧ s.accepted slot = s.observed slot
  | true => ∃ g, s.live slot = [g] ∧
      s.accepted slot = s.observed slot ++ (if g.progress = .spawned then [g.event] else [])

def SlotsOk (s : System σ) : Prop := ∀ (slot : Nat) busy, s.slots[slot]? = some busy → SlotOk s slot busy

theorem SlotOk.congr {slot : Nat} {busy : Bool} (h : SlotOk s slot busy) (hlive : s'.live slot = s.live slot)
    (haccepted : s'.accepted slot = s.accepted slot) (hobserved : s'.observed slot = s.observed slot) :
    SlotOk s' slot busy := by
  cases busy with
  | false =>
      simp only [SlotOk] at h ⊢
      rw [hlive, haccepted, hobserved]
      exact h
  | true =>
      simp only [SlotOk] at h ⊢
      rw [hlive, haccepted, hobserved]
      exact h

/-- A step of a goroutine that belongs to another slot. -/
theorem live_set_of_ne {g slot slot' : Nat} {event : Event} {progress progress' : Progress}
    (hg : s.goroutines[g]? = some ⟨slot, event, progress⟩) (hne : slot ≠ slot') :
    (s.goroutines.set g ⟨slot, event, progress'⟩).filter (Goroutine.live slot') = s.live slot' := by
  apply filter_set_of_neg hg
  · simp [Goroutine.live, hne]
  · simp [Goroutine.live, hne]

/-- A live goroutine fills its slot, so it is the only one there. -/
theorem SlotsOk.live_only (h : SlotsOk s) {g slot : Nat} {event : Event} {progress : Progress}
    (hg : s.goroutines[g]? = some ⟨slot, event, progress⟩) (hlive : progress ≠ .exited) {busy : Bool}
    (hslot : s.slots[slot]? = some busy) (progress' : Progress) :
    busy = true ∧
      s.accepted slot = s.observed slot ++ (if progress = .spawned then [event] else []) ∧
      (s.goroutines.set g ⟨slot, event, progress'⟩).filter (Goroutine.live slot) =
        if progress' = .exited then [] else [⟨slot, event, progress'⟩] := by
  have hmem : Goroutine.live slot ⟨slot, event, progress⟩ = true := by simp [Goroutine.live, hlive]
  have hok := h slot busy hslot
  cases busy with
  | false =>
      have hin : (⟨slot, event, progress⟩ : Goroutine) ∈ s.live slot :=
        List.mem_filter.mpr ⟨List.mem_of_getElem? hg, hmem⟩
      rw [hok.1] at hin
      cases hin
  | true =>
      obtain ⟨other, hone, hall⟩ := hok
      obtain ⟨rfl, hset⟩ := filter_set_of_singleton hg hmem hone ⟨slot, event, progress'⟩
      refine ⟨rfl, hall, ?_⟩
      rw [hset]
      by_cases hexit : progress' = .exited
      · simp [Goroutine.live, hexit]
      · simp [Goroutine.live, hexit]

theorem SlotsOk.step (h : SlotsOk s) (hs : Step exec sha256 s action s') : SlotsOk s' := by
  cases hs with
  | blocked | invoked | served | described | returned => exact h
  | @taken i time request event slot reply hi hfree =>
      intro slot' busy hslot
      rcases getElem?_set_cases hslot with ⟨rfl, rfl⟩ | ⟨hne, hslot⟩
      · obtain ⟨hlive, hall⟩ := h slot false hfree
        refine ⟨⟨slot, event, .spawned⟩, ?_, ?_⟩
        · unfold System.live at hlive ⊢
          simp [hlive, Goroutine.live]
        · unfold System.accepted System.observed at hall ⊢
          simp [hall]
      · apply (h slot' busy hslot).congr
        · simp [System.live, Goroutine.live, hne]
        · simp [System.accepted, hne]
        · rfl
  | @dropped i time request event slot reply hi hbusy =>
      intro slot' busy hslot
      apply (h slot' busy hslot).congr
      · rfl
      · simp [System.accepted]
      · rfl
  | @began g slot event hg =>
      intro slot' busy hslot
      by_cases hne : slot = slot'
      · subst hne
        obtain ⟨rfl, hall, hset⟩ := h.live_only hg (by simp) hslot .observing
        refine ⟨_, hset, ?_⟩
        unfold System.accepted System.observed at hall ⊢
        simp [hall]
      · apply (h slot' busy hslot).congr
        · exact live_set_of_ne hg hne
        · rfl
        · simp [System.observed, hne]
  | @ended g slot event hg =>
      intro slot' busy hslot
      by_cases hne : slot = slot'
      · subst hne
        obtain ⟨rfl, hall, hset⟩ := h.live_only hg (by simp) hslot .observed
        exact ⟨_, hset, hall⟩
      · apply (h slot' busy hslot).congr
        · exact live_set_of_ne hg hne
        · rfl
        · rfl
  | @drained g slot event hg hfull =>
      intro slot' busy hslot
      rcases getElem?_set_cases hslot with ⟨rfl, rfl⟩ | ⟨hne, hslot⟩
      · obtain ⟨_, hall, hset⟩ := h.live_only hg (by simp) hfull .exited
        exact ⟨hset, hall.trans (List.append_nil _)⟩
      · apply (h slot' busy hslot).congr
        · exact live_set_of_ne hg hne
        · rfl
        · rfl

/-- The select at a registration: it succeeds if no callback is in flight there. -/
theorem SlotsOk.accepts (h : SlotsOk s) {i slot : Nat} {request : Request} {event : Event} {reply : Reply}
    (hi : s.callers[i]? = some ⟨request, .emitting event slot reply⟩) {busy : Bool}
    (hslot : s.slots[slot]? = some busy) (time : Int) :
    (s.step exec sha256 (.advance i time)).accepted slot =
      s.accepted slot ++ if (s.live slot).isEmpty then [event] else [] := by
  have hok := h slot busy hslot
  simp only [System.step, System.advance, hi, hslot]
  cases busy with
  | false =>
      rw [hok.1]
      simp [System.accepted]
  | true =>
      obtain ⟨g, hone, _⟩ := hok
      rw [hone]
      simp [System.accepted]

end Slots

section Offers

/-- How many slots a call at this stage has come to. -/
def Stage.reached (observers : Nat) : Stage → Nat
  | .calling | .replied _ => 0
  | .emitting _ slot _ => slot
  | .returned _ => observers

/-- The event describes the call of this caller and the reply it got. -/
def Describes (sha256 : Bytes → Bytes) (event : Event) (caller : Caller) : Prop :=
  ∃ reply time, caller.stage.reply? = some reply ∧ event = describe sha256 time caller.request reply.err

structure OffersOk (sha256 : Bytes → Bytes) (s : System σ) : Prop where
  reached : ∀ (i : Nat) caller, s.callers[i]? = some caller →
    s.offered i = List.range (caller.stage.reached s.slots.length) ∧
      caller.stage.reached s.slots.length ≤ s.slots.length
  emitting : ∀ (i : Nat) request event slot reply,
    s.callers[i]? = some ⟨request, .emitting event slot reply⟩ →
    (∃ time, event = describe sha256 time request reply.err) ∧
      ∀ offer ∈ s.offers, offer.caller = i → offer.event = event
  same : ∀ offer ∈ s.offers, ∀ other ∈ s.offers, other.caller = offer.caller → other.event = offer.event
  described : ∀ offer ∈ s.offers, ∃ caller, s.callers[offer.caller]? = some caller ∧
    Describes sha256 offer.event caller

theorem OffersOk.offered_fresh (h : OffersOk sha256 s) : s.offered s.callers.length = [] := by
  rw [System.offered, List.map_eq_nil_iff, List.filter_eq_nil_iff]
  intro offer hoffer hlast
  obtain ⟨caller, hcaller, _⟩ := h.described offer hoffer
  have hlt := (List.getElem?_eq_some_iff.mp hcaller).1
  rw [beq_iff_eq.mp hlast] at hlt
  exact Nat.lt_irrefl _ hlt

theorem OffersOk.not_offered (h : OffersOk sha256 s) {i : Nat} {caller : Caller}
    (hi : s.callers[i]? = some caller) (hnone : caller.stage.reached s.slots.length = 0) :
    ∀ offer ∈ s.offers, offer.caller ≠ i := by
  have hnil := (h.reached i caller hi).1
  rw [hnone, List.range_zero, System.offered, List.map_eq_nil_iff, List.filter_eq_nil_iff] at hnil
  intro offer hoffer hcaller
  exact hnil offer hoffer (beq_iff_eq.mpr hcaller)

/-- A step of one call, with the selects it makes. -/
theorem OffersOk.move (h : OffersOk sha256 s) {i : Nat} {request : Request} {stage stage' : Stage}
    {more : List Offer} (hi : s.callers[i]? = some ⟨request, stage⟩)
    (hcallers : s'.callers = s.callers.set i ⟨request, stage'⟩) (hoffers : s'.offers = s.offers ++ more)
    (hslots : s'.slots.length = s.slots.length)
    (hreply : ∀ reply, stage.reply? = some reply → stage'.reply? = some reply)
    (hmore : ∀ offer ∈ more, offer.caller = i ∧ Describes sha256 offer.event ⟨request, stage'⟩)
    (hone : ∀ offer ∈ more, ∀ other ∈ s.offers ++ more, other.caller = i → other.event = offer.event)
    (hreach : List.range (stage.reached s.slots.length) ++ more.map Offer.slot =
      List.range (stage'.reached s.slots.length))
    (hle : stage'.reached s.slots.length ≤ s.slots.length)
    (hevent : ∀ event slot reply, stage' = .emitting event slot reply →
      (∃ time, event = describe sha256 time request reply.err) ∧
        ∀ offer ∈ s.offers ++ more, offer.caller = i → offer.event = event) : OffersOk sha256 s' := by
  have hoffered (j : Nat) : s'.offered j = s.offered j ++ if j = i then more.map Offer.slot else [] := by
    rw [System.offered, hoffers, List.filter_append, List.map_append]
    congr 1
    split
    next hj =>
      rw [List.filter_eq_self.mpr]
      intro offer hoffer
      exact beq_iff_eq.mpr ((hmore offer hoffer).1.trans hj.symm)
    next hj =>
      rw [List.filter_eq_nil_iff.mpr, List.map_nil]
      intro offer hoffer hcaller
      exact hj ((beq_iff_eq.mp hcaller).symm.trans (hmore offer hoffer).1)
  refine ⟨?_, ?_, ?_, ?_⟩
  · intro j caller hj
    rw [hcallers] at hj
    rw [hoffered, hslots]
    rcases getElem?_set_cases hj with ⟨rfl, rfl⟩ | ⟨hne, hj⟩
    · rw [(h.reached i _ hi).1, if_pos rfl, hreach]
      exact ⟨rfl, hle⟩
    · rw [if_neg (Ne.symm hne), List.append_nil]
      exact h.reached j caller hj
  · intro j request' event slot reply hj
    rw [hcallers] at hj
    rw [hoffers]
    rcases getElem?_set_cases hj with ⟨rfl, heq⟩ | ⟨hne, hj⟩
    · cases heq
      exact hevent event slot reply rfl
    · obtain ⟨hdescribes, hsame⟩ := h.emitting j request' event slot reply hj
      refine ⟨hdescribes, List.forall_mem_append.mpr ⟨hsame, ?_⟩⟩
      intro offer hoffer hcaller
      exact absurd ((hmore offer hoffer).1.symm.trans hcaller) hne
  · rw [hoffers]
    intro offer hoffer other hother heq
    rcases List.mem_append.mp hoffer with hold | hnew
    · rcases List.mem_append.mp hother with hold' | hnew'
      · exact h.same offer hold other hold' heq
      · exact (hone other hnew' offer hoffer (heq.symm.trans (hmore other hnew').1)).symm
    · exact hone offer hnew other hother (heq.trans (hmore offer hnew).1)
  · rw [hoffers, hcallers]
    intro offer hoffer
    rcases List.mem_append.mp hoffer with hold | hnew
    · obtain ⟨caller, hcaller, reply, time, hr, hd⟩ := h.described offer hold
      by_cases hown : i = offer.caller
      · subst hown
        cases hi.symm.trans hcaller
        exact ⟨_, getElem?_set_of_some hcaller _, reply, time, hreply reply hr, hd⟩
      · exact ⟨caller, (List.getElem?_set_ne hown).trans hcaller, reply, time, hr, hd⟩
    · obtain ⟨hcaller, hd⟩ := hmore offer hnew
      rw [hcaller]
      exact ⟨_, getElem?_set_of_some hi _, hd⟩

theorem OffersOk.step (h : OffersOk sha256 s) (hs : Step exec sha256 s action s') : OffersOk sha256 s' := by
  cases hs with
  | blocked => exact h
  | invoked request =>
      refine ⟨?_, ?_, h.same, ?_⟩
      · intro i caller hi
        rcases getElem?_concat hi with hi | ⟨rfl, rfl⟩
        · exact h.reached i caller hi
        · exact ⟨h.offered_fresh, Nat.zero_le _⟩
      · intro i request' event slot reply hi
        rcases getElem?_concat hi with hi | ⟨_, heq⟩
        · exact h.emitting i request' event slot reply hi
        · cases heq
      · intro offer hoffer
        obtain ⟨caller, hcaller, hd⟩ := h.described offer hoffer
        exact ⟨caller, getElem?_append_of_some hcaller _, hd⟩
  | served hi =>
      refine h.move hi rfl (List.append_nil _).symm rfl ?_ ?_ ?_ rfl (Nat.zero_le _) ?_ <;> simp [Stage.reply?]
  | described hi =>
      refine h.move hi rfl (List.append_nil _).symm rfl (fun _ hr => hr) ?_ ?_ rfl (Nat.zero_le _) ?_
      · simp
      · simp
      · intro event slot reply heq
        cases heq
        refine ⟨⟨_, rfl⟩, ?_⟩
        rw [List.append_nil]
        intro offer hoffer hcaller
        exact absurd hcaller (h.not_offered hi rfl offer hoffer)
  | taken hi hslot | dropped hi hslot =>
      obtain ⟨⟨time, hevent⟩, hsame⟩ := h.emitting _ _ _ _ _ hi
      refine h.move hi rfl rfl (by simp) (fun _ hr => hr) ?_ ?_ List.range_succ.symm ?_ ?_
      · intro offer hoffer
        rw [List.mem_singleton.mp hoffer]
        exact ⟨rfl, _, time, rfl, hevent⟩
      · intro offer hoffer
        rw [List.mem_singleton.mp hoffer]
        exact forall_mem_append hsame (fun _ => rfl)
      · exact (List.getElem?_eq_some_iff.mp hslot).1
      · intro event slot reply heq
        cases heq
        exact ⟨⟨time, hevent⟩, forall_mem_append hsame (fun _ => rfl)⟩
  | returned hi hend =>
      have hlast := (h.reached _ _ hi).2
      have hall := List.getElem?_eq_none_iff.mp hend
      refine h.move hi rfl (List.append_nil _).symm rfl (fun _ hr => hr) ?_ ?_ ?_ (Nat.le_refl _) ?_
      · simp
      · simp
      · rw [List.map_nil, List.append_nil]
        exact congrArg List.range (Nat.le_antisymm hlast hall)
      · simp
  | began | ended => exact ⟨h.reached, h.emitting, h.same, h.described⟩
  | drained =>
      refine ⟨?_, h.emitting, h.same, h.described⟩
      rw [List.length_set]
      exact h.reached

end Offers

/-- The callbacks of a registration. At most one is in flight, and the receive
of its goroutine finds the channel full. They begin in the order in which emit
accepted their events, with at most one accepted event still to come. Each call
offers one event, which describes it, to each registration once and in their
order, and emit accepts the event there exactly when no callback is in flight. -/
theorem callbacks_in_order (exec : σ → Call → σ × Reply) (sha256 : Bytes → Bytes) (store : σ)
    (observers : Nat) (actions : List Action) :
    let s := actions.foldl (System.step exec sha256) (start store observers)
    (∀ slot < observers, s.slots[slot]? = some (!(s.live slot).isEmpty) ∧ (s.live slot).length ≤ 1 ∧
      s.observed slot <+: s.accepted slot ∧ (s.accepted slot).length ≤ (s.observed slot).length + 1) ∧
    (∀ (i : Nat) request reply, s.callers[i]? = some ⟨request, .returned reply⟩ →
      s.offered i = List.range observers) ∧
    (∀ offer ∈ s.offers, (∃ caller, s.callers[offer.caller]? = some caller ∧
        Describes sha256 offer.event caller) ∧
      ∀ other ∈ s.offers, other.caller = offer.caller → other.event = offer.event) ∧
    ∀ (i : Nat) request event slot reply time,
      s.callers[i]? = some ⟨request, .emitting event slot reply⟩ → slot < observers →
      (s.step exec sha256 (.advance i time)).accepted slot =
        s.accepted slot ++ if (s.live slot).isEmpty then [event] else [] := by
  intro s
  have h : SlotsOk s ∧ OffersOk sha256 s ∧ s.slots.length = observers := by
    refine invariant_rule (P := fun s => SlotsOk s ∧ OffersOk sha256 s ∧ s.slots.length = observers)
      ?_ ?_ actions
    · refine ⟨?_, ⟨by simp [start], by simp [start], by simp [start], by simp [start]⟩,
        List.length_replicate⟩
      intro slot busy hslot
      rw [List.eq_of_mem_replicate (List.mem_of_getElem? hslot)]
      exact ⟨rfl, rfl⟩
    · rintro s action ⟨hslots, hoffers, hlen⟩
      have hs := @step_step _ exec sha256 s action
      exact ⟨hslots.step hs, hoffers.step hs, hs.slots_length.trans hlen⟩
  obtain ⟨hslots, hoffers, hlen⟩ := h
  refine ⟨?_, ?_, fun offer hoffer => ⟨hoffers.described offer hoffer, hoffers.same offer hoffer⟩, ?_⟩
  · intro slot hlt
    obtain ⟨busy, hbusy⟩ : ∃ busy, s.slots[slot]? = some busy := ⟨_, List.getElem?_eq_getElem (hlen ▸ hlt)⟩
    have hok := hslots slot busy hbusy
    rw [hbusy]
    cases busy with
    | false =>
        obtain ⟨hnone, hall⟩ := hok
        rw [hnone, hall]
        exact ⟨rfl, Nat.zero_le _, List.prefix_refl _, Nat.le_succ _⟩
    | true =>
        obtain ⟨g, hone, hall⟩ := hok
        rw [hone, hall]
        refine ⟨rfl, Nat.le_refl _, List.prefix_append _ _, ?_⟩
        rw [List.length_append]
        split <;> simp
  · intro i request reply hi
    rw [(hoffers.reached i _ hi).1, ← hlen]
    rfl
  · intro i request event slot reply time hi hlt
    exact hslots.accepts hi (List.getElem?_eq_getElem (hlen ▸ hlt)) time

end GoLease.Observed
