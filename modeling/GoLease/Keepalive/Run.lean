import GoLease.Keepalive.Renewer

namespace GoLease.Keepalive

open Lifecycle Pool Traces Coverage Honest Identity Memory

variable {i r : Nat} {timing : Timing} {k : Watch} {f f' : Fleet Store} {m m' : Machine}
  {renewer renewer' : Renewer} {event : Fleet.Event}

theorem observe_ahead {now : Int} (hactive : m.handle.state = .active) (hahead : Ahead m now) :
    (m.handle.observe ⟨now, now⟩).state = .active := by
  rw [Handle.observe, @Handle.expireLocked_of_lt m.handle ⟨now, now⟩ hahead.1 hahead.2]
  exact hactive

/-- A handle whose deadlines are ahead is backed by the store. -/
theorem held_of_ahead (hcover : Coverage.Inv Admission.contract f) (hm : f.machine i = some m)
    (hactive : m.handle.state = .active) (hahead : Ahead m f.now) (hu : f.Unreleased i) :
    ∃ s entry, f.sessions[i]? = some s ∧ s.holder = .holding m ∧ m.handle.policy = s.policy.1 ∧
      f.store.Held m.handle.record.key m.handle.record.owner m.handle.record.token f.now entry := by
  obtain ⟨s, hi, hholder⟩ := Fleet.holding_of_machine hm
  obtain ⟨_, _, hholds⟩ := (hcover.sessions i s hi).holding m hholder
  have hmargin : (0 : Int) ≤ m.handle.policy.safetyMargin.toInt := by
    rw [hholds.policy_eq]
    exact s.policy.valid.margin_nonneg
  obtain ⟨_, granted, deadline, _, _, hsame, hlt, entry, hlookup, hlive, howner, htoken, hexpires⟩ :=
    hcover.backed ⟨hm, f.now, observe_ahead hactive hahead⟩ hu hmargin
  refine ⟨s, entry, hi, hholder, hholds.policy_eq, ?_⟩
  rw [hsame.1, hsame.2.1, hsame.2.2]
  exact ⟨hlookup, hlive, howner, htoken, Int.lt_of_lt_of_le hlt hexpires⟩

/-- The renewal of such a handle succeeds. -/
theorem renew_good (hcover : Coverage.Inv Admission.contract f) (hanchor : Anchored f)
    (hm : f.machine i = some m) (hactive : m.handle.state = .active) (hahead : Ahead m f.now)
    (hu : f.Unreleased i) :
    Good m.handle.record
      (f.store.exec ⟨f.now, none, .renew m.handle.record m.handle.policy.ttl.toInt⟩).2 := by
  obtain ⟨s, entry, hi, hholder, hpolicy, hheld⟩ := held_of_ahead hcover hm hactive hahead hu
  obtain ⟨granted, hreply, hidentity⟩ := hanchor.holding i s m hi hholder
  obtain ⟨hanswers, hknown, hvalid⟩ := hanchor.granted i s granted hi hreply
  have hb : Belongs granted.key granted.owner granted m.handle.record := by
    rw [hanswers.key, hanswers.owner]
    exact hidentity.held
  rw [← hidentity.held.key, ← hidentity.held.owner, ← hpolicy] at hvalid
  have hnonzero : m.handle.record.token ≠ 0 := by
    rw [hidentity.held.token]
    exact hanswers.token
  rw [Store.exec_renew_of_held f.store hvalid hnonzero hheld]
  refine ⟨rfl, hknown.same hanchor.formed hb hheld ?_⟩
  have hpos := ttl_pos hvalid
  have hacquired := (hanchor.formed.entries _ _ hheld.1).2.1
  omega

/-- The watched renewer keeps its handle alive. -/
structure Alive (i r : Nat) (timing : Timing) (k : Watch) (m : Machine) (renewer : Renewer) : Prop where
  machine : k.fleet.machine i = some m
  watched : m.renewers[r]? = some renewer
  unreleased : k.fleet.Unreleased i
  onTime : OnTime timing k.fleet.now k.mark m renewer
  phase : Phase i timing k.fleet.messages k.mark m renewer

theorem asleep_iff (hm : f.machine i = some m) (hr : m.renewers[r]? = some renewer) :
    asleep i r f = true ↔ renewer = .sleeping := by
  simp only [asleep, hm, hr, beq_iff_eq, Option.some.injEq]

theorem patience_nonneg (policy : Policy) (hevery : 0 ≤ policy.renewEvery.toInt) (renewer : Renewer) :
    0 ≤ timing.patience policy renewer := by
  unfold Timing.patience
  split
  next => omega
  next => omega

theorem patience_congr (policy : Policy) (h : renewer' = .sleeping ↔ renewer = .sleeping) :
    timing.patience policy renewer' = timing.patience policy renewer := by
  by_cases hs : renewer = .sleeping
  · rw [h.mpr hs, hs]
  · have hs' := mt h.mp hs
    cases renewer' <;> cases renewer <;> first | rfl | exact absurd rfl hs | exact absurd rfl hs'

/-- A step that takes no time and after which the renewer is in one of its
phases. -/
theorem Alive.goes (h : Alive i r timing k m renewer) (hfleet : k.fleet.step Store.exec event = f')
    (hnow : f'.now = k.fleet.now) (hm : f'.machine i = some m') (hu : f'.Unreleased i)
    (hg : Goes i r timing f'.messages k.fleet.now k.mark m renewer m') :
    ∃ m' renewer', Alive i r timing (k.step i r event) m' renewer' ∧
      Continues m.handle.record m'.handle.record := by
  obtain ⟨renewer', hr', hactive, hmanaged, hpolicy, hsame, hphase⟩ := hg
  refine ⟨m', renewer', ?_, hsame⟩
  have hmark : (k.step i r event).mark =
      if renewer' = .sleeping ↔ renewer = .sleeping then k.mark else k.fleet.now := by
    simp only [Watch.step, hfleet, hnow, Bool.eq_iff_iff, asleep_iff hm hr', asleep_iff h.machine h.watched]
  have ho := h.onTime
  refine ⟨?_, hr', ?_, ⟨hactive, hmanaged, ?_, ?_, ?_, ?_, ?_⟩, ?_⟩
  · simp only [Watch.step, hfleet, hm]
  · simp only [Watch.step, hfleet]
    exact hu
  · simp only [Watch.step, hfleet, hnow]
    exact ho.epoch
  · rw [hpolicy]
    exact ho.every
  · rw [hpolicy]
    exact ho.room
  · rw [hmark]
    simp only [Watch.step, hfleet, hnow]
    split
    next => exact ho.since
    next => exact Int.le_refl _
  · rw [hmark, hpolicy]
    simp only [Watch.step, hfleet, hnow]
    split
    next hsame =>
      rw [patience_congr _ hsame]
      exact ho.within
    next =>
      have := @patience_nonneg timing m.handle.policy ho.every renewer'
      omega
  · rw [hmark]
    simp only [Watch.step, hfleet]
    exact hphase

/-- A step of the others: the handle stays as it is. -/
theorem Alive.frame (h : Alive i r timing k m renewer) (hfleet : k.fleet.step Store.exec event = f')
    (hnow : f'.now = k.fleet.now) (hm : f'.machine i = some m)
    (hsub : ∀ msg ∈ f'.messages, msg.session = i → msg ∈ k.fleet.messages) :
    ∃ m' renewer', Alive i r timing (k.step i r event) m' renewer' ∧
      Continues m.handle.record m'.handle.record := by
  refine h.goes hfleet hnow hm ?_ (.stay (h.phase.of_messages hsub) h.onTime h.watched)
  intro msg hmem hsession
  exact h.unreleased msg (hsub msg hmem hsession) hsession

/-- The dispatch of the renewal is the first message of its call. -/
theorem Alive.dispatch (h : Alive i r timing k m renewer) (hcover : Coverage.Inv Admission.contract k.fleet)
    {call : Nat} {op : Op} {record : Record} (hcall : m.calls[call]? = some ⟨op, .reserved record⟩) :
    Goes i r timing (k.fleet.messages ++
        [⟨i, call, k.fleet.now, op.request m.handle.policy record, none⟩]) k.fleet.now k.mark m renewer
      (m.step (.dispatch call ⟨k.fleet.now, k.fleet.now⟩)) := by
  obtain ⟨rfl, hop, hstage, hothers⟩ := h.phase.inFlight hcall rfl
  obtain rfl : op = .renew := hop
  have ho := h.onTime
  cases hstage with
  | reserved hahead =>
      simp only [Machine.step, Machine.dispatch, hcall]
      refine ⟨.renewing call, h.watched, ho.active, ho.managed, rfl, ⟨rfl, rfl, rfl⟩, ?_⟩
      rw [if_pos Iff.rfl]
      refine .renewing (getElem?_set_of_some hcall _) ?_ (.dispatched hahead ⟨rfl, ho.since, ho.epoch⟩ ?_)
      · intro c' call' hc' hne
        rw [List.getElem?_set_ne hne.symm] at hc'
        exact hothers c' call' hc' hne
      · intro msg hmem hsession hc
        rcases List.mem_append.mp hmem with hold | hnew
        · -- A message of this call would have left its reserved stage behind.
          obtain ⟨s, m', granted, owned, call', hsent⟩ := hcover.messages msg hold
          have hm := Fleet.machine_of_holding hsent.sender hsent.holding
          rw [hsession, h.machine] at hm
          cases hm
          have hcaller := hsent.caller
          rw [hc, hcall] at hcaller
          cases hcaller
          exact absurd rfl (hsent.left _)
        · rw [List.mem_singleton.mp hnew]
          exact ⟨rfl, fun reply hreply => by cases hreply⟩

theorem Alive.deliver (h : Alive i r timing k m renewer) {msg : Message} {reply : Reply}
    (hmem : msg ∈ k.fleet.messages) (hreply : msg.reply = some reply) (hsession : msg.session = i) :
    Goes i r timing k.fleet.messages k.fleet.now k.mark m renewer (m.step (.reply msg.call reply)) := by
  have ho := h.onTime
  simp only [Machine.step, Machine.reply]
  split
  next op record started hcall =>
    obtain ⟨rfl, hop, hstage, hothers⟩ := h.phase.inFlight hcall rfl
    obtain rfl : op = .renew := hop
    cases hstage with
    | dispatched hahead hstarted hsent =>
        refine ⟨.renewing msg.call, h.watched, ho.active, ho.managed, rfl, ⟨rfl, rfl, rfl⟩, ?_⟩
        rw [if_pos Iff.rfl]
        have hgood := (hsent msg hmem hsession rfl).2 reply hreply
        refine .renewing (getElem?_set_of_some hcall _) ?_ (.replied hahead hstarted hgood)
        intro c' call' hc' hne
        rw [List.getElem?_set_ne hne.symm] at hc'
        exact hothers c' call' hc' hne
  next => exact .stay h.phase ho h.watched

/-- The store executes a message of the handle. -/
theorem Alive.served (h : Alive i r timing k m renewer) (hcover : Coverage.Inv Admission.contract k.fleet)
    (hanchor : Anchored k.fleet) {n : Nat} {msg : Message} (hn : k.fleet.messages[n]? = some msg)
    (hsession : msg.session = i) :
    Goes i r timing (k.fleet.messages.set n { msg with
        reply := some (k.fleet.store.exec ⟨k.fleet.now, none, msg.request⟩).2 })
      k.fleet.now k.mark m renewer m := by
  have ho := h.onTime
  refine ⟨renewer, h.watched, ho.active, ho.managed, rfl, ⟨rfl, rfl, rfl⟩, ?_⟩
  rw [if_pos Iff.rfl]
  have hgood := renew_good hcover hanchor h.machine ho.active (ho.ahead h.phase) h.unreleased
  cases h.phase with
  | sleeping hahead hfree hquiet => exact .sleeping hahead hfree hquiet
  | awake hahead hfree hquiet => exact .awake hahead hfree hquiet
  | renewing hc hothers hstage =>
      refine .renewing hc hothers ?_
      cases hstage with
      | reserved hahead => exact .reserved hahead
      | replied hahead hstarted hgood => exact .replied hahead hstarted hgood
      | returned hahead hfree => exact .returned hahead hfree
      | dispatched hahead hstarted hsent =>
          refine .dispatched hahead hstarted ?_
          intro sent hmem hi hcall
          rcases List.mem_or_eq_of_mem_set hmem with hold | rfl
          · exact hsent sent hold hi hcall
          · have hrequest := (hsent msg (List.mem_of_getElem? hn) hsession hcall).1
            refine ⟨hrequest, ?_⟩
            rintro _ ⟨⟩
            rw [hrequest]
            exact hgood

/-- A step of one of the handles. -/
theorem Alive.driven (h : Alive i r timing k m renewer) (hcover : Coverage.Inv Admission.contract k.fleet)
    (htimely : Timely i r timing k event) {inner : Lifecycle.Event} {messages : List Message}
    (hd : Fleet.Drives k.fleet i m event inner messages) :
    Goes i r timing messages k.fleet.now k.mark m renewer (m.step inner) ∧
      ∀ msg ∈ messages, msg.session = i → ∀ record, msg.request ≠ .release record := by
  cases hd with
  | inside hstamp => exact ⟨h.phase.inside h.onTime h.watched (htimely rfl) hstamp, h.unreleased⟩
  | @dispatch call op record clock hcall =>
      rw [show clock = k.fleet.now from htimely rfl]
      refine ⟨h.dispatch hcover hcall, forall_mem_append h.unreleased ?_⟩
      obtain ⟨_, hop, _⟩ := h.phase.inFlight hcall rfl
      obtain rfl : op = .renew := hop
      intro _ record hrelease
      cases hrelease
  | deliver hn hreply hsession =>
      exact ⟨h.deliver (List.mem_of_getElem? hn) hreply hsession, h.unreleased⟩
  | abandon err hn hsession => exact absurd hsession (htimely _ hn)

theorem Alive.step (h : Alive i r timing k m renewer) (hcover : Coverage.Inv Admission.contract k.fleet)
    (hanchor : Anchored k.fleet) (htimely : Timely i r timing k event) :
    ∃ m' renewer', Alive i r timing (k.step i r event) m' renewer' ∧
      Continues m.handle.record m'.handle.record := by
  have ho := h.onTime
  obtain ⟨own, hown, hholding⟩ := Fleet.holding_of_machine h.machine
  have hbusy {j : Nat} {s : Session} (hj : k.fleet.sessions[j]? = some s) (hwaiting : s.holder = .waiting) :
      j ≠ i := by
    rintro rfl
    cases hj.symm.trans hown
    cases hwaiting.symm.trans hholding
  have hmoved := @Fleet.step_moved _ Store.exec k.fleet event
  generalize hfleet : k.fleet.step Store.exec event = f' at hmoved
  cases hmoved with
  | kept => exact h.frame hfleet rfl h.machine (fun _ hmem _ => hmem)
  | ticked elapsed =>
      have hle := htimely m h.machine renewer h.watched
      have hmark : (k.step i r (.tick elapsed)).mark = k.mark := by
        simp only [Watch.step, hfleet]
        exact if_pos rfl
      refine ⟨m, renewer, ⟨h.machine, h.watched, h.unreleased, ?_, ?_⟩, rfl, rfl, rfl⟩
      · rw [hmark]
        refine ⟨ho.active, ho.managed, ?_, ho.every, ho.room, ?_, hle⟩
        · exact Int.add_nonneg ho.epoch (Int.natCast_nonneg elapsed)
        · exact Int.le_trans ho.since (Int.le_add_of_nonneg_right (Int.natCast_nonneg elapsed))
      · rw [hmark]
        exact h.phase
  | asked key owner policy clock =>
      refine h.frame hfleet rfl ?_ (fun _ hmem _ => hmem)
      exact Fleet.machine_of_holding (getElem?_append_of_some hown _) hholding
  | granted ctx hj =>
      refine h.frame hfleet rfl (Fleet.machine_set hown hholding rfl ?_) (fun _ hmem _ => hmem)
      rintro rfl
      cases hj.symm.trans hown
      rfl
  | opened hj hreply hwaiting haccept =>
      refine h.frame hfleet rfl (Fleet.machine_set hown hholding rfl ?_) (fun _ hmem _ => hmem)
      intro hji
      exact absurd hji (hbusy hj hwaiting)
  | failed _ err hj hwaiting =>
      refine h.frame hfleet rfl (Fleet.machine_set hown hholding rfl ?_) (fun _ hmem _ => hmem)
      intro hji
      exact absurd hji (hbusy hj hwaiting)
  | @driven j s n _ inner messages hj hholder hd =>
      by_cases hji : j = i
      · subst hji
        cases hj.symm.trans hown
        cases hholder.symm.trans hholding
        obtain ⟨hg, hu⟩ := h.driven hcover htimely hd
        refine h.goes hfleet rfl ?_ hu hg
        exact Fleet.machine_of_holding (getElem?_set_of_some hown _) rfl
      · refine h.frame hfleet rfl (Fleet.machine_set hown hholding rfl (fun he => absurd he hji)) ?_
        intro msg hmem hsession
        cases hd with
        | inside | deliver | abandon => exact hmem
        | dispatch clock hcall =>
            rcases List.mem_append.mp hmem with hold | hnew
            · exact hold
            · rw [List.mem_singleton.mp hnew] at hsession
              exact absurd hsession hji
  | @served n msg ctx hn hnone =>
      by_cases hsession : msg.session = i
      · rw [htimely msg hn hsession] at hfleet ⊢
        refine h.goes hfleet rfl h.machine ?_ (h.served hcover hanchor hn hsession)
        exact forall_mem_set h.unreleased (h.unreleased msg (List.mem_of_getElem? hn))
      · refine h.frame hfleet rfl h.machine ?_
        intro sent hmem hi
        rcases List.mem_or_eq_of_mem_set hmem with hold | rfl
        · exact hold
        · exact absurd hi hsession

/-- StartManaged has just returned: the handle admits work for a whole cycle,
nothing else is going on with it, and two cycles overlap within its budget. -/
structure Begun (i r : Nat) (timing : Timing) (f : Fleet Store) (m : Machine) : Prop where
  machine : f.machine i = some m
  active : m.handle.state = .active
  managed : m.handle.managed = true
  renewer : m.renewers[r]? = some .sleeping
  free : m.handle.busy = false
  quiet : ∀ call ∈ m.calls, call.inFlight = false
  unreleased : f.Unreleased i
  ahead : Ahead m (f.now + timing.cycle m.handle.policy)
  room : timing.latency + timing.cycle m.handle.policy < m.handle.policy.budget

/-- A renewer that is watched from the end of a run on. -/
def Watch.start (now : Int) (store : Store) (before : List Fleet.Event) : Watch :=
  let fleet := before.foldl (Fleet.step Store.exec) (Fleet.start now store)
  ⟨fleet, fleet.now⟩

/-- The invariants of all reachable fleets over a memory store. -/
structure Reachable (f : Fleet Store) : Prop where
  cover : Coverage.Inv Admission.contract f
  anchor : Anchored f
  epoch : 0 ≤ f.now

theorem Reachable.step (h : Reachable f) (event : Fleet.Event) : Reachable (f.step Store.exec event) := by
  have hmoved := @Fleet.step_moved _ Store.exec f event
  refine ⟨h.cover.step event, h.anchor.moved hmoved, ?_⟩
  generalize f.step Store.exec event = f' at hmoved ⊢
  cases hmoved with
  | kept | asked | granted | opened | failed | driven | served => exact h.epoch
  | ticked elapsed => exact Int.add_nonneg h.epoch (Int.natCast_nonneg elapsed)

/-- What the policy of a held lease allows. -/
theorem Reachable.every (h : Reachable f) (hm : f.machine i = some m) :
    0 ≤ m.handle.policy.renewEvery.toInt := by
  obtain ⟨s, hi, hholder⟩ := Fleet.holding_of_machine hm
  obtain ⟨_, _, hholds⟩ := (h.cover.sessions i s hi).holding m hholder
  obtain ⟨options, hpolicy, hadmissible⟩ := s.policy.admissible
  rw [hholds.policy_eq, hpolicy]
  rcases hadmissible.renewal with hzero | ⟨hpos, _⟩
  · exact Int.le_of_eq hzero.symm
  · exact Int.le_of_lt hpos

/-- The lease is acquired and its renewer started at the epoch. -/
def managed : List Fleet.Event :=
  [.dispatchAcquire ⟨[107]⟩ [97] Policy.renewable 0, .executeAcquire 0 none, .completeAcquire 0,
    .inside 0 (.startManaged ⟨0, 0⟩ true)]

/-- One cycle of the renewer, with the number of its call and its message. -/
def cycle (n : Nat) (now : Int) : List Fleet.Event :=
  [.tick 300, .inside 0 (.wake 0 none), .inside 0 (.renew 0 ⟨now, 0⟩), .dispatch 0 n now, .execute n none,
    .deliver n, .inside 0 (.finish n ⟨now, 0⟩), .inside 0 (.resume 0)]

end GoLease.Keepalive
