import GoLease.Keepalive.Anchored

namespace GoLease.Keepalive

open Lifecycle Pool Traces Coverage Honest Identity

/-- How late a managed renewer may be: in waking up after RenewEvery, and from
waking up to the return of its Renew. -/
structure Timing where
  oversleep : Nat
  latency : Nat

/-- A fleet with the instant at which the renewer that is watched last fell
asleep or woke up. -/
structure Watch where
  fleet : Fleet Memory.Store
  mark : Int

section Semantics

variable (i r : Nat) (timing : Timing)

def asleep (f : Fleet Memory.Store) : Bool :=
  match f.machine i with
  | some m => m.renewers[r]? == some .sleeping
  | none => false

def Watch.step (k : Watch) (event : Fleet.Event) : Watch :=
  let fleet := k.fleet.step Memory.Store.exec event
  ⟨fleet, if asleep i r fleet = asleep i r k.fleet then k.mark else fleet.now⟩

/-- How long the renewer may stay in its present phase. -/
def Timing.patience (policy : Policy) : Renewer → Int
  | .sleeping => policy.renewEvery.toInt + timing.oversleep
  | _ => timing.latency

/-- The renewer is the only one that calls methods of the handle but State, its
sleeper returns no error, and the injected clock reads the present. -/
def Undisturbed (now : Int) : Lifecycle.Event → Prop
  | .state reading | .finish _ reading | .startManaged reading _ => reading.clock = now
  | .renew renewer reading => renewer = r ∧ reading.clock = now
  | .wake renewer err => renewer = r ∧ err = none
  | .resume renewer | .lose renewer _ | .exit renewer => renewer = r
  | .invoke _ _ => False
  | .dispatch _ _ | .reply _ _ => True

instance (now : Int) : DecidablePred (Undisturbed r now)
  | .state reading | .finish _ reading | .startManaged reading _ =>
    inferInstanceAs (Decidable (reading.clock = now))
  | .renew renewer reading => inferInstanceAs (Decidable (renewer = r ∧ reading.clock = now))
  | .wake renewer err => inferInstanceAs (Decidable (renewer = r ∧ err = none))
  | .resume renewer | .lose renewer _ | .exit renewer => inferInstanceAs (Decidable (renewer = r))
  | .invoke _ _ => inferInstanceAs (Decidable False)
  | .dispatch _ _ | .reply _ _ => inferInstanceAs (Decidable True)

/-- Time passes only as far as the phase of the renewer allows, and its calls
reach the store and return. Nothing is asked of the other sessions. -/
def Timely (k : Watch) : Fleet.Event → Prop
  | .tick elapsed => ∀ m ∈ k.fleet.machine i, ∀ renewer ∈ m.renewers[r]?,
      k.fleet.now + elapsed ≤ k.mark + timing.patience m.handle.policy renewer
  | .inside j event => j = i → Undisturbed r k.fleet.now event
  | .dispatch j _ clock => j = i → clock = k.fleet.now
  | .execute n ctx => ∀ msg ∈ k.fleet.messages[n]?, msg.session = i → ctx = none
  | .abandon n _ => ∀ msg ∈ k.fleet.messages[n]?, msg.session ≠ i
  | .dispatchAcquire _ _ _ _ | .executeAcquire _ _ | .completeAcquire _ | .abandonAcquire _ _
  | .deliver _ => True

instance (k : Watch) : DecidablePred (Timely i r timing k)
  | .tick elapsed => inferInstanceAs (Decidable (∀ m ∈ k.fleet.machine i, ∀ renewer ∈ m.renewers[r]?,
      k.fleet.now + elapsed ≤ k.mark + timing.patience m.handle.policy renewer))
  | .inside j event => inferInstanceAs (Decidable (j = i → Undisturbed r k.fleet.now event))
  | .dispatch j _ clock => inferInstanceAs (Decidable (j = i → clock = k.fleet.now))
  | .execute n ctx =>
    inferInstanceAs (Decidable (∀ msg ∈ k.fleet.messages[n]?, msg.session = i → ctx = none))
  | .abandon n _ => inferInstanceAs (Decidable (∀ msg ∈ k.fleet.messages[n]?, msg.session ≠ i))
  | .dispatchAcquire _ _ _ _ | .executeAcquire _ _ | .completeAcquire _ | .abandonAcquire _ _
  | .deliver _ => inferInstanceAs (Decidable True)

end Semantics

section Phases

/-- The handle still admits work at the instant. -/
def Ahead (m : Machine) (instant : Int) : Prop :=
  instant < m.handle.deadline ∧ instant < m.handle.wallDeadline

def Good (record : Record) (reply : Reply) : Prop :=
  reply.err = none ∧ sameAcquisition record reply.record = true

/-- Time enough for a whole cycle of the renewer that begins to sleep at the
instant. -/
def Timing.cycle (timing : Timing) (policy : Policy) : Int :=
  policy.renewEvery.toInt + timing.oversleep + timing.latency

/-- Where the renewal of a call stands. A call that the store has not executed
will find the lease held, since all deadlines are ahead. -/
inductive Underway (i : Nat) (timing : Timing) (messages : List Message) (mark : Int) (m : Machine)
    (c : Nat) : Lifecycle.Stage → Prop
  | reserved (hahead : Ahead m (mark + timing.latency)) :
      Underway i timing messages mark m c (.reserved m.handle.record)
  | dispatched {started : Reading} (hahead : Ahead m (mark + timing.latency))
      (hstarted : started.clock = started.wall ∧ mark ≤ started.wall ∧ 0 ≤ started.wall)
      (hsent : ∀ msg ∈ messages, msg.session = i → msg.call = c →
        msg.request = .renew m.handle.record m.handle.policy.ttl.toInt ∧
          ∀ reply, msg.reply = some reply → Good m.handle.record reply) :
      Underway i timing messages mark m c (.dispatched m.handle.record started)
  | replied {started : Reading} {reply : Reply} (hahead : Ahead m (mark + timing.latency))
      (hstarted : started.clock = started.wall ∧ mark ≤ started.wall ∧ 0 ≤ started.wall)
      (hgood : Good m.handle.record reply) :
      Underway i timing messages mark m c (.replied m.handle.record started reply)
  | returned (hahead : Ahead m (mark + timing.latency + timing.cycle m.handle.policy))
      (hfree : m.handle.busy = false) : Underway i timing messages mark m c (.returned none)

inductive Phase (i : Nat) (timing : Timing) (messages : List Message) (mark : Int) (m : Machine) :
    Renewer → Prop
  | sleeping (hahead : Ahead m (mark + timing.cycle m.handle.policy)) (hfree : m.handle.busy = false)
      (hquiet : ∀ call ∈ m.calls, call.inFlight = false) : Phase i timing messages mark m .sleeping
  | awake (hahead : Ahead m (mark + timing.latency)) (hfree : m.handle.busy = false)
      (hquiet : ∀ call ∈ m.calls, call.inFlight = false) : Phase i timing messages mark m .awake
  | renewing {c : Nat} {stage : Lifecycle.Stage} (hc : m.calls[c]? = some ⟨.renew, stage⟩)
      (hothers : ∀ (c' : Nat) call, m.calls[c']? = some call → c' ≠ c → call.inFlight = false)
      (hstage : Underway i timing messages mark m c stage) :
      Phase i timing messages mark m (.renewing c)

variable {i r : Nat} {timing : Timing} {messages messages' : List Message} {mark : Int} {m : Machine}
  {renewer : Renewer}

theorem Ahead.mono {instant earlier : Int} (h : Ahead m instant) (hle : earlier ≤ instant) : Ahead m earlier :=
  ⟨Int.lt_of_le_of_lt hle h.1, Int.lt_of_le_of_lt hle h.2⟩

/-- The phases allow for the renewer's patience. -/
theorem Phase.ahead (h : Phase i timing messages mark m renewer) (hevery : 0 ≤ m.handle.policy.renewEvery.toInt) :
    Ahead m (mark + timing.patience m.handle.policy renewer) := by
  cases h with
  | sleeping hahead | awake hahead =>
      apply hahead.mono
      simp only [Timing.patience, Timing.cycle]
      omega
  | renewing hc hothers hstage =>
      cases hstage with
      | reserved hahead | dispatched hahead | replied hahead => exact hahead
      | returned hahead =>
          apply hahead.mono
          simp only [Timing.patience, Timing.cycle]
          omega

/-- Messages of other sessions make no difference. -/
theorem Phase.of_messages (h : Phase i timing messages mark m renewer)
    (hsub : ∀ msg ∈ messages', msg.session = i → msg ∈ messages) :
    Phase i timing messages' mark m renewer := by
  cases h with
  | sleeping hahead hfree hquiet => exact .sleeping hahead hfree hquiet
  | awake hahead hfree hquiet => exact .awake hahead hfree hquiet
  | renewing hc hothers hstage =>
      refine .renewing hc hothers ?_
      cases hstage with
      | reserved hahead => exact .reserved hahead
      | dispatched hahead hstarted hsent =>
          refine .dispatched hahead hstarted ?_
          intro msg hmem hsession
          exact hsent msg (hsub msg hmem hsession) hsession
      | replied hahead hstarted hgood => exact .replied hahead hstarted hgood
      | returned hahead hfree => exact .returned hahead hfree

/-- A renewal that is accepted moves both deadlines. -/
theorem finish_extends {handle : Handle} {now : Int} {record : Record} {started : Reading} {reply : Reply}
    (hgood : Good record reply) (hactive : handle.state = .active) (hclock : now < handle.deadline)
    (hwall : now < handle.wallDeadline) (hzero : started.clock + handle.policy.budget ≠ zeroTime) :
    handle.finish ⟨now, now⟩ record started reply .renew =
      ({ handle with
          busy := false, record := reply.record, deadline := started.clock + handle.policy.budget,
          wallDeadline := started.wall + handle.policy.budget }, none) := by
  have herr : Handle.replyErr record reply .renew = none := (Handle.replyErr_eq_none (by decide)).mpr hgood
  have hopen : ({ handle with busy := false } : Handle).expireLocked ⟨now, now⟩ =
      { handle with busy := false } := Handle.expireLocked_of_lt _ hclock hwall
  unfold Handle.finish Handle.finishActiveOperation
  rw [hopen, herr]
  unfold Handle.acceptLocked
  dsimp only
  rw [if_neg (not_not.mpr hactive), if_pos hzero]

/-- The machine has gone on to another phase of the renewer. -/
def Goes (i r : Nat) (timing : Timing) (messages : List Message) (now mark : Int) (m : Machine)
    (renewer : Renewer) (m' : Machine) : Prop :=
  ∃ renewer', m'.renewers[r]? = some renewer' ∧ m'.handle.state = .active ∧ m'.handle.managed = true ∧
    m'.handle.policy = m.handle.policy ∧ Continues m.handle.record m'.handle.record ∧
    Phase i timing messages (if renewer' = .sleeping ↔ renewer = .sleeping then mark else now) m' renewer'

/-- The premises under which every step of the renewer is in time. -/
structure OnTime (timing : Timing) (now mark : Int) (m : Machine) (renewer : Renewer) : Prop where
  active : m.handle.state = .active
  managed : m.handle.managed = true
  epoch : 0 ≤ now
  every : 0 ≤ m.handle.policy.renewEvery.toInt
  room : timing.latency + timing.cycle m.handle.policy < m.handle.policy.budget
  since : mark ≤ now
  within : now ≤ mark + timing.patience m.handle.policy renewer

section Steps

variable {now : Int} {event inner : Lifecycle.Event}

theorem Goes.stay (h : Phase i timing messages mark m renewer) (ho : OnTime timing now mark m renewer)
    (hr : m.renewers[r]? = some renewer) : Goes i r timing messages now mark m renewer m :=
  ⟨renewer, hr, ho.active, ho.managed, rfl, ⟨rfl, rfl, rfl⟩, by rwa [if_pos Iff.rfl]⟩

theorem OnTime.ahead (ho : OnTime timing now mark m renewer) (h : Phase i timing messages mark m renewer) :
    Ahead m now := (h.ahead ho.every).mono ho.within

/-- A call in flight is the renewal of the renewer. -/
theorem Phase.inFlight (h : Phase i timing messages mark m renewer) {c : Nat} {call : Invocation}
    (hc : m.calls[c]? = some call) (hflight : call.inFlight = true) :
    renewer = .renewing c ∧ call.op = .renew ∧ Underway i timing messages mark m c call.stage ∧
      ∀ (c' : Nat) call', m.calls[c']? = some call' → c' ≠ c → call'.inFlight = false := by
  cases h with
  | sleeping hahead hfree hquiet | awake hahead hfree hquiet =>
      rw [hquiet call (List.mem_of_getElem? hc)] at hflight
      cases hflight
  | @renewing c' stage hc' hothers hstage =>
      by_cases hcc : c = c'
      · subst hcc
        cases hc.symm.trans hc'
        exact ⟨rfl, rfl, hstage, hothers⟩
      · rw [hothers c call hc hcc] at hflight
        cases hflight

theorem Phase.finish (h : Phase i timing messages mark m renewer) (ho : OnTime timing now mark m renewer)
    (hr : m.renewers[r]? = some renewer) (c : Nat) :
    Goes i r timing messages now mark m renewer (m.finish c ⟨now, now⟩) := by
  have hahead := ho.ahead h
  unfold Machine.finish
  split
  next op record started reply hc =>
    obtain ⟨rfl, rfl, hstage, hothers⟩ := h.inFlight hc rfl
    cases hstage with
    | replied _ hstarted hgood =>
        have hroom := ho.room
        have hzero : started.clock + m.handle.policy.budget ≠ zeroTime := by
          simp only [zeroTime, Timing.cycle] at hroom ⊢
          have := ho.every
          omega
        simp only [finish_extends hgood ho.active hahead.1 hahead.2 hzero]
        have hsame := continues_of_sameAcquisition ⟨rfl, rfl, rfl⟩ hgood.2
        refine ⟨.renewing c, hr, ho.active, ho.managed, rfl, hsame, ?_⟩
        rw [if_pos Iff.rfl]
        refine .renewing (getElem?_set_of_some hc _) ?_ (.returned ?_ rfl)
        · intro c' call' hc' hne
          rw [List.getElem?_set_ne hne.symm] at hc'
          exact hothers c' call' hc' hne
        · constructor
          · dsimp only
            omega
          · dsimp only
            omega
  next => exact .stay h ho hr

theorem Phase.renew (h : Phase i timing messages mark m renewer) (ho : OnTime timing now mark m renewer)
    (hr : m.renewers[r]? = some renewer) :
    Goes i r timing messages now mark m renewer (m.renew r ⟨now, now⟩) := by
  have hahead := ho.ahead h
  unfold Machine.renew
  split
  next hawake =>
    rw [hr] at hawake
    cases hawake
    cases h with
    | awake hlimit hfree hquiet =>
        have hstart := @Handle.start_admits m.handle .renew ⟨now, now⟩ (by decide) ho.active hfree
          hahead.1 hahead.2
        simp only [Machine.invoke, hstart]
        refine ⟨.renewing m.calls.length, getElem?_set_of_some hr _, ho.active, ho.managed, rfl, ⟨rfl, rfl, rfl⟩, ?_⟩
        rw [if_pos (by simp)]
        refine .renewing List.getElem?_concat_length ?_ (.reserved hlimit)
        intro c' call' hc' hne
        rcases getElem?_concat hc' with hc' | ⟨heq, _⟩
        · exact hquiet call' (List.mem_of_getElem? hc')
        · exact absurd heq hne
  next => exact .stay h ho hr

theorem Phase.wake (h : Phase i timing messages mark m renewer) (ho : OnTime timing now mark m renewer)
    (hr : m.renewers[r]? = some renewer) :
    Goes i r timing messages now mark m renewer (m.wake r none) := by
  unfold Machine.wake
  split
  next hasleep =>
    rw [hr] at hasleep
    cases hasleep
    cases h with
    | sleeping hlimit hfree hquiet =>
        refine ⟨.awake, getElem?_set_of_some hr _, ho.active, ho.managed, rfl, ⟨rfl, rfl, rfl⟩, ?_⟩
        rw [if_neg (by simp)]
        refine .awake (hlimit.mono ?_) hfree hquiet
        have hwithin := ho.within
        simp only [Timing.patience, Timing.cycle] at hwithin ⊢
        omega
  next => exact .stay h ho hr

theorem Phase.resume (h : Phase i timing messages mark m renewer) (ho : OnTime timing now mark m renewer)
    (hr : m.renewers[r]? = some renewer) :
    Goes i r timing messages now mark m renewer (m.resume r) := by
  unfold Machine.resume
  split
  next c hrenewing =>
    rw [hr] at hrenewing
    cases hrenewing
    have hwithin := ho.within
    simp only [Timing.patience] at hwithin
    split
    next op hc =>
      cases h with
      | renewing hc' hothers hstage =>
          cases hc.symm.trans hc'
          cases hstage with
          | returned hlimit hfree =>
              refine ⟨.sleeping, getElem?_set_of_some hr _, ho.active, ho.managed, rfl, ⟨rfl, rfl, rfl⟩, ?_⟩
              rw [if_neg (by simp)]
              have hle : now + timing.cycle m.handle.policy ≤
                  mark + timing.latency + timing.cycle m.handle.policy := by omega
              refine .sleeping (hlimit.mono hle) hfree ?_
              intro call hmem
              obtain ⟨n, hn⟩ := List.getElem?_of_mem hmem
              by_cases hnc : n = c
              · subst hnc
                cases hc.symm.trans hn
                rfl
              · exact hothers n call hn hnc
    next op err hc =>
      cases h with
      | renewing hc' hothers hstage =>
          cases hc.symm.trans hc'
          cases hstage
    next => exact .stay h ho hr
  next => exact .stay h ho hr

theorem Phase.startManaged (h : Phase i timing messages mark m renewer)
    (ho : OnTime timing now mark m renewer) (hr : m.renewers[r]? = some renewer) (slot : Bool) :
    Goes i r timing messages now mark m renewer (m.startManaged ⟨now, now⟩ slot) := by
  have hahead := ho.ahead h
  have hrequire : m.handle.requireActiveLocked ⟨now, now⟩ = (m.handle, none) := by
    simp [Handle.requireActiveLocked, @Handle.expireLocked_of_lt m.handle ⟨now, now⟩ hahead.1 hahead.2,
      ho.active]
  have hrefused : m.handle.startManaged ⟨now, now⟩ slot =
      (m.handle, some (wrap .errInvalidState "managed renewal")) := by
    simp [Handle.startManaged, hrequire, ho.managed]
  simp only [Machine.startManaged, hrefused]
  exact .stay h ho hr

/-- The renewer is in none of the phases that end it. -/
theorem Phase.live (h : Phase i timing messages mark m renewer) :
    (∀ err, renewer ≠ .failed err) ∧ (∀ loss, renewer ≠ .exiting loss) ∧ ∀ loss, renewer ≠ .exited loss := by
  cases h <;> simp

theorem Phase.inside (h : Phase i timing messages mark m renewer) (ho : OnTime timing now mark m renewer)
    (hr : m.renewers[r]? = some renewer) (hu : Undisturbed r now event)
    (hstamp : Fleet.stamp now event = some inner) :
    Goes i r timing messages now mark m renewer (m.step inner) := by
  have hahead := ho.ahead h
  cases event with
  | state reading =>
      cases hstamp
      rw [show reading.clock = now from hu]
      simp only [Machine.step, Handle.observe, @Handle.expireLocked_of_lt m.handle ⟨now, now⟩ hahead.1 hahead.2]
      exact .stay h ho hr
  | invoke => exact hu.elim
  | finish c reading =>
      cases hstamp
      rw [show reading.clock = now from hu]
      exact h.finish ho hr c
  | startManaged reading slot =>
      cases hstamp
      rw [show reading.clock = now from hu]
      exact h.startManaged ho hr slot
  | wake renewer err =>
      cases hstamp
      obtain ⟨rfl, rfl⟩ := hu
      exact h.wake ho hr
  | renew renewer reading =>
      cases hstamp
      obtain ⟨rfl, hclock⟩ := hu
      rw [hclock]
      exact h.renew ho hr
  | resume renewer =>
      cases hstamp
      obtain rfl := hu
      exact h.resume ho hr
  | lose renewer reading =>
      cases hstamp
      obtain rfl := hu
      simp only [Machine.step, Machine.lose]
      split
      next err hfailed => exact absurd (Option.some.inj (hr.symm.trans hfailed)) (h.live.1 err)
      next => exact .stay h ho hr
  | exit renewer =>
      cases hstamp
      obtain rfl := hu
      simp only [Machine.step, Machine.exit]
      split
      next loss hexiting => exact absurd (Option.some.inj (hr.symm.trans hexiting)) (h.live.2.1 loss)
      next => exact .stay h ho hr
  | dispatch | reply => cases hstamp

end Steps

end Phases

end GoLease.Keepalive
