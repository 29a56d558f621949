import GoLease.Client
import GoLease.Lifecycle

namespace GoLease.AdmissionBound

open Lifecycle Traces Pool
open Client (Obtained)

/-- The readings before the last Renew that returned nil, or before the
acquisition: a step replaces them when it completes such a Renew. -/
def anchored (m : Machine) (anchor : Reading) : Event → Reading
  | .finish call reading =>
    match m.calls[call]? with
    | some ⟨.renew, .replied record started reply⟩ =>
      if (m.handle.finish reading record started reply .renew).2 = none then started else anchor
    | _ => anchor
  | _ => anchor

def advance (state : Machine × Reading) (event : Event) : Machine × Reading :=
  (state.1.step event, anchored state.1 state.2 event)

/-- No Renew is dispatched at a reading whose deadline would be the zero time. -/
def Nonzero (policy : Policy) (m : Machine) : Event → Prop
  | .dispatch call reading => ∀ record, m.calls[call]? = some ⟨.renew, .reserved record⟩ →
      reading.clock + policy.budget ≠ zeroTime
  | _ => True

/-- The readings a Renew was dispatched at give a deadline that is not zero. -/
def Anchors (policy : Policy) (call : Invocation) : Prop :=
  match call.stage with
  | .dispatched _ started | .replied _ started _ =>
    call.op = .renew → started.clock + policy.budget ≠ zeroTime
  | .reserved _ | .returned _ => True

structure Bounded (policy : Policy) (m : Machine) (anchor : Reading) : Prop where
  policy_eq : m.handle.policy = policy
  deadline : m.handle.deadline = anchor.clock + policy.budget
  wallDeadline : m.handle.wallDeadline = anchor.wall + policy.budget
  calls : ∀ call ∈ m.calls, Anchors policy call

section Run

variable {policy : Policy} {m : Machine} {anchor : Reading}

theorem Bounded.expireLocked (h : Bounded policy m anchor) (reading : Reading) {calls : List Invocation}
    (hcalls : ∀ call ∈ calls, Anchors policy call) (renewers : List Renewer) :
    Bounded policy ⟨m.handle.expireLocked reading, calls, renewers⟩ anchor := by
  obtain ⟨state, managed, he, _⟩ := idles_expireLocked m.handle reading
  rw [he]
  exact ⟨h.policy_eq, h.deadline, h.wallDeadline, hcalls⟩

theorem anchored_finish {call : Nat} {op : Op} {record : Record} {started : Reading} {reply : Reply}
    (hc : m.calls[call]? = some ⟨op, .replied record started reply⟩) (reading : Reading) :
    anchored m anchor (.finish call reading) =
      if op = .renew ∧ (m.handle.finish reading record started reply op).2 = none then started
      else anchor := by
  cases op with
  | renew => simp [anchored, hc]
  | validate | release => simp [anchored, hc]

theorem Bounded.finish (h : Bounded policy m anchor) (call : Nat) (reading : Reading) :
    Bounded policy (m.step (.finish call reading)) (anchored m anchor (.finish call reading)) := by
  simp only [Machine.step, Machine.finish]
  split
  next op record started reply hc =>
    have hcall := h.calls _ (List.mem_of_getElem? hc)
    have hcalls (err : Option Error) :
        ∀ c ∈ m.calls.set call ⟨op, .returned err⟩, Anchors policy c := forall_mem_set h.calls trivial
    have hf := m.handle.finish_finished reading record started reply op
    rw [anchored_finish hc]
    generalize m.handle.finish reading record started reply op = result at hf ⊢
    obtain ⟨handle, err⟩ := result
    dsimp only at hf ⊢
    have hclosed : ¬(op = .renew ∧ err = none) → handle.policy = policy →
        handle.deadline = m.handle.deadline → handle.wallDeadline = m.handle.wallDeadline →
        Bounded policy ⟨handle, m.calls.set call ⟨op, .returned err⟩, m.renewers⟩
          (if op = .renew ∧ err = none then started else anchor) := by
      intro hnot hp hd hw
      rw [if_neg hnot]
      exact ⟨hp, hd.trans h.deadline, hw.trans h.wallDeadline, hcalls _⟩
    cases hf with
    | closed op state err hstate hedge => exact hclosed (by simp) h.policy_eq rfl rfl
    | renewed hreply hsame hactive hclock hwall hzero =>
        rw [if_pos ⟨rfl, rfl⟩]
        exact ⟨h.policy_eq, by rw [h.policy_eq], by rw [h.policy_eq], hcalls _⟩
    | confirmed op hop hreply hsame hactive hclock hwall hzero =>
        apply hclosed _ h.policy_eq rfl rfl
        rintro ⟨rfl, _⟩
        have hz := hzero rfl
        rw [h.policy_eq] at hz
        exact hcall rfl hz
    | released hreply => exact hclosed (by simp) h.policy_eq rfl rfl
  next hno =>
    have ha : anchored m anchor (.finish call reading) = anchor := by
      simp only [anchored]
      split
      next record started reply hc => exact absurd hc (hno _ _ _ _)
      next => rfl
    rw [ha]
    exact h

/-- Every other step leaves both deadlines as they are. -/
theorem Bounded.other (h : Bounded policy m anchor) {event : Event} (hz : Nonzero policy m event)
    (hne : ∀ call reading, event ≠ .finish call reading) : Bounded policy (m.step event) anchor := by
  have hs := step_stepped m event
  generalize m.step event = m' at hs ⊢
  cases hs with
  | idle event hi renewers =>
      obtain ⟨state, managed, rfl, _⟩ := hi
      exact ⟨h.policy_eq, h.deadline, h.wallDeadline, h.calls⟩
  | invoked event hs renewers =>
      have hcalls (op : Op) (admission : Admission) :
          ∀ call ∈ m.calls ++ [⟨op, .ofAdmission admission⟩], Anchors policy call := by
        apply forall_mem_append h.calls
        cases admission <;> trivial
      cases hs with
      | refused | already | admitted | releasing =>
          exact ⟨h.policy_eq, h.deadline, h.wallDeadline, hcalls _ _⟩
      | expired => exact h.expireLocked _ (hcalls _ _) renewers
  | @dispatched call op record reading hc =>
      refine ⟨h.policy_eq, h.deadline, h.wallDeadline, forall_mem_set h.calls ?_⟩
      rintro rfl
      exact hz record hc
  | replied reply hc =>
      have hcall := h.calls _ (List.mem_of_getElem? hc)
      exact ⟨h.policy_eq, h.deadline, h.wallDeadline, forall_mem_set h.calls hcall⟩
  | finished hc hf => exact absurd rfl (hne _ _)

theorem Bounded.step (h : Bounded policy m anchor) {event : Event} (hz : Nonzero policy m event) :
    Bounded policy (m.step event) (anchored m anchor event) := by
  cases event with
  | finish call reading => exact h.finish call reading
  | state | invoke | dispatch | reply | startManaged | wake | renew | resume | lose | exit =>
      apply h.other hz
      intro call reading he
      cases he

theorem Bounded.run (h : Bounded policy m anchor) {events : List Event}
    (hz : Along Machine.step (Nonzero policy) m events) :
    Bounded policy (events.foldl advance (m, anchor)).1 (events.foldl advance (m, anchor)).2 := by
  induction events generalizing m anchor with
  | nil => exact h
  | cons event events ih => exact ih (h.step hz.1) hz.2

theorem Bounded.admits (h : Bounded policy m anchor) {reading : Reading}
    (ha : (m.handle.observe reading).state = .active) :
    reading.clock < anchor.clock + policy.budget ∧ reading.wall < anchor.wall + policy.budget := by
  obtain ⟨_, _, hclock, hwall⟩ := m.handle.expireLocked_active ha
  rw [h.deadline] at hclock
  rw [h.wallDeadline] at hwall
  exact ⟨hclock, hwall⟩

end Run

theorem bounded_obtained {key : Key} {owner : Bytes} {policy : Policy} {granted : Record} {handle : Handle}
    {started : Reading} (h : Obtained key owner policy granted started handle) :
    Bounded policy (initial handle) started := by
  obtain ⟨-, rfl⟩ := h.accepted
  refine ⟨rfl, rfl, rfl, ?_⟩
  intro call hc
  cases hc

/-- Admission is bounded by local time alone. Whatever the backend answers and
whatever the clocks read, State returns active only within TTL minus the
safety margin of the readings taken before the acquisition or before the last
Renew that returned nil, and neither a Validate or Release, nor a failed
Renew, nor one answered past the bound moves those readings. -/
theorem admission_bounded (policy : Policy.Accepted) {key : Key} {owner : Bytes} {granted : Record}
    {handle : Handle} {started : Reading}
    (hobtained : Obtained key owner policy.1 granted started handle) (events : List Event)
    (hzero : Along Machine.step (Nonzero policy.1) (initial handle) events) :
    let m := (events.foldl advance (initial handle, started)).1
    let anchor := (events.foldl advance (initial handle, started)).2
    let budget := policy.1.ttl.toInt - policy.1.safetyMargin.toInt
    (∀ reading, (m.handle.observe reading).state = .active →
      reading.clock < anchor.clock + budget ∧ reading.wall < anchor.wall + budget) ∧
    ∀ (call : Nat) reading op record sent reply,
      m.calls[call]? = some ⟨op, .replied record sent reply⟩ →
      (op ≠ .renew ∨ reply.err ≠ none ∨ anchor.clock + budget ≤ reading.clock ∨
        anchor.wall + budget ≤ reading.wall) →
      anchored m anchor (.finish call reading) = anchor := by
  intro m anchor budget
  have h : Bounded policy.1 m anchor := (bounded_obtained hobtained).run hzero
  have hb : policy.1.budget = budget := policy.valid.budget_eq
  refine ⟨?_, ?_⟩
  · intro reading ha
    rw [← hb]
    exact h.admits ha
  · intro call reading op record sent reply hc hcause
    rw [anchored_finish hc, if_neg]
    rintro ⟨rfl, hnil⟩
    have hf := m.handle.finish_finished reading record sent reply .renew
    generalize m.handle.finish reading record sent reply .renew = result at hf hnil
    obtain ⟨handle', err⟩ := result
    dsimp only at hf hnil
    subst hnil
    have haccepted : reply.err = none ∧ reading.clock < m.handle.deadline ∧
        reading.wall < m.handle.wallDeadline := by
      cases hf with
      | renewed hreply hsame hactive hclock hwall => exact ⟨hreply, hclock, hwall⟩
      | confirmed op hop hreply hsame hactive hclock hwall => exact ⟨hreply, hclock, hwall⟩
    obtain ⟨hreply, hclock, hwall⟩ := haccepted
    rw [h.deadline, hb] at hclock
    rw [h.wallDeadline, hb] at hwall
    rcases hcause with hop | herr | hlate | hlate
    · exact hop rfl
    · exact herr hreply
    · omega
    · omega

def renewedOnce : List Event :=
  [.invoke .renew ⟨300, 300⟩, .dispatch 0 ⟨310, 305⟩,
    .reply 0 ⟨{ firstGrant with expiresAt := 9000 }, none⟩, .finish 0 ⟨320, 320⟩]

/-- The backend grants far more than the TTL, and the bound still counts from
the readings before the renewal. -/
theorem admission_bounded_renewed_once :
    let handle := Handle.newHandleAt Policy.renewable.1 firstGrant ⟨5, 0⟩
    let run := renewedOnce.foldl advance (initial handle, ⟨5, 0⟩)
    (run.1.handle.observe ⟨1209, 1204⟩).state = .active ∧ run.2 = ⟨310, 305⟩ ∧
      1209 < run.2.clock +
        (Policy.renewable.1.ttl.toInt - Policy.renewable.1.safetyMargin.toInt) ∧
      (run.1.handle.observe ⟨1210, 0⟩).state = .expired := by
  intro handle run
  have hobtained : Obtained ⟨[107]⟩ [97] Policy.renewable.1 firstGrant ⟨5, 0⟩ handle :=
    @Obtained.tryAcquire _ _ _ (some none) (.ok [97]) ⟨5, 0⟩ (fun _ => ⟨firstGrant, none⟩) _ rfl rfl
  have hactive : (run.1.handle.observe ⟨1209, 1204⟩).state = .active := by decide
  have hzero : Along Machine.step (Nonzero Policy.renewable.1) (initial handle) renewedOnce := by
    simp only [renewedOnce, Along, Nonzero, and_true, true_and]
    intro _ _
    decide
  have hbound := (admission_bounded Policy.renewable hobtained renewedOnce hzero).1 _ hactive
  exact ⟨hactive, by decide, hbound.1, by decide⟩

end GoLease.AdmissionBound
