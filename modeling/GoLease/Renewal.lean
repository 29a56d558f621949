import GoLease.Lifecycle

namespace GoLease.Renewal

open Lifecycle Traces Pool

/-- The loss that a renewer has sent. -/
def delivered : Renewer → Option Loss
  | .exiting loss | .exited loss => loss
  | _ => none

variable {m : Machine}

/-- Everything one step can make of the renewer at an index. -/
inductive Turned (m : Machine) (i : Nat) : Event → Renewer → Renewer → Prop
  | kept (event : Event) (r : Renewer) : Turned m i event r r
  | woke : Turned m i (.wake i none) .sleeping .awake
  | interrupted (err : Error) : Turned m i (.wake i (some err)) .sleeping (.exiting none)
  | began (reading : Reading) (ha : m.renewers[i]? = some .awake) :
      Turned m i (.renew i reading) .awake (.renewing m.calls.length)
  | slept {call : Nat} {op : Op} (hc : m.calls[call]? = some ⟨op, .returned none⟩) :
      Turned m i (.resume i) (.renewing call) .sleeping
  | gaveUp {call : Nat} {op : Op} {err : Error}
      (hc : m.calls[call]? = some ⟨op, .returned (some err)⟩) :
      Turned m i (.resume i) (.renewing call) (.failed err)
  | lost (reading : Reading) (err : Error) :
      Turned m i (.lose i reading) (.failed err)
        (.exiting (some ⟨reading.clock, (m.handle.observe reading).state, err⟩))
  | left (loss : Option Loss) : Turned m i (.exit i) (.exiting loss) (.exited loss)

theorem turned_set {event : Event} {j : Nat} {old new : Renewer} (hj : m.renewers[j]? = some old)
    (ht : Turned m j event old new) {i : Nat} {r : Renewer}
    (h : (m.renewers.set j new)[i]? = some r) :
    ∃ r', m.renewers[i]? = some r' ∧ Turned m i event r' r := by
  rcases getElem?_set_cases h with ⟨rfl, rfl⟩ | ⟨_, h⟩
  · exact ⟨old, hj, ht⟩
  · exact ⟨r, h, .kept event r⟩

/-- A step turns at most one renewer, or a successful StartManaged starts one
more. -/
theorem renewers_cases (m : Machine) (event : Event) :
    (m.step event).renewers = m.renewers ∨
      (∃ j old new, m.renewers[j]? = some old ∧ (m.step event).renewers = m.renewers.set j new ∧
        Turned m j event old new) ∨
      ∃ reading slot, event = .startManaged reading slot ∧
        (m.handle.startManaged reading slot).2 = none ∧
        (m.step event).renewers = m.renewers ++ [.sleeping] := by
  cases event with
  | state | invoke => exact .inl rfl
  | dispatch call reading =>
      simp only [Machine.step, Machine.dispatch]
      split <;> exact .inl rfl
  | reply call reply =>
      simp only [Machine.step, Machine.reply]
      split <;> exact .inl rfl
  | finish call reading =>
      simp only [Machine.step, Machine.finish]
      split <;> exact .inl rfl
  | startManaged reading slot =>
      simp only [Machine.step, Machine.startManaged]
      split
      next hok => exact .inr (.inr ⟨reading, slot, rfl, hok, rfl⟩)
      next => exact .inl rfl
  | wake j err =>
      simp only [Machine.step, Machine.wake]
      split
      next hj =>
        cases err with
        | none => exact .inr (.inl ⟨j, _, _, hj, rfl, .woke⟩)
        | some err => exact .inr (.inl ⟨j, _, _, hj, rfl, .interrupted err⟩)
      next => exact .inl rfl
  | renew j reading =>
      simp only [Machine.step, Machine.renew]
      split
      next hj => exact .inr (.inl ⟨j, _, _, hj, rfl, .began reading hj⟩)
      next => exact .inl rfl
  | resume j =>
      simp only [Machine.step, Machine.resume]
      split
      next hj =>
        split
        next hc => exact .inr (.inl ⟨j, _, _, hj, rfl, .slept hc⟩)
        next hc => exact .inr (.inl ⟨j, _, _, hj, rfl, .gaveUp hc⟩)
        next => exact .inl rfl
      next => exact .inl rfl
  | lose j reading =>
      simp only [Machine.step, Machine.lose]
      split
      next err hj => exact .inr (.inl ⟨j, _, _, hj, rfl, .lost reading err⟩)
      next => exact .inl rfl
  | exit j =>
      simp only [Machine.step, Machine.exit]
      split
      next loss hj => exact .inr (.inl ⟨j, _, _, hj, rfl, .left loss⟩)
      next => exact .inl rfl

/-- A renewer is one that was there, turned by the step, or the one that a
successful StartManaged has started. -/
theorem renewers_step (m : Machine) (event : Event) {i : Nat} {r : Renewer}
    (h : (m.step event).renewers[i]? = some r) :
    (∃ r', m.renewers[i]? = some r' ∧ Turned m i event r' r) ∨
      i = m.renewers.length ∧ r = .sleeping ∧ ∃ reading slot, event = .startManaged reading slot ∧
        (m.handle.startManaged reading slot).2 = none := by
  rcases renewers_cases m event with he | ⟨j, old, new, hj, he, ht⟩ | ⟨reading, slot, rfl, hok, he⟩
  · rw [he] at h
    exact .inl ⟨r, h, .kept event r⟩
  · rw [he] at h
    exact .inl (turned_set hj ht h)
  · rw [he] at h
    rcases getElem?_concat h with h | ⟨hi, hr⟩
    · exact .inl ⟨r, h, .kept _ r⟩
    · exact .inr ⟨hi, hr, reading, slot, rfl, hok⟩

theorem closed_step (h : Inv m) (event : Event) (hs : m.handle.state ≠ .active) :
    (m.step event).handle.state ≠ .active := by
  rcases h.step_edge event with he | he
  · rw [he]
    exact hs
  · exact edge_closes he

theorem calls_length_le (m : Machine) (event : Event) : m.calls.length ≤ (m.step event).calls.length := by
  have hs := step_stepped m event
  generalize m.step event = m' at hs ⊢
  cases hs with
  | idle => exact Nat.le_refl _
  | invoked =>
      rw [List.length_append]
      exact Nat.le_add_right _ _
  | dispatched | replied | finished => exact Nat.le_of_eq List.length_set.symm

/-- A step adds at most one call, a Renew unless a user made it, and goes on
with at most one. -/
theorem calls_cases (m : Machine) (event : Event) :
    (m.step event).calls = m.calls ∨
      (∃ op stage, (m.step event).calls = m.calls ++ [⟨op, stage⟩] ∧
        (op = .renew ∨ ∃ reading, event = .invoke op reading)) ∨
      ∃ call op old new, m.calls[call]? = some ⟨op, old⟩ ∧
        (m.step event).calls = m.calls.set call ⟨op, new⟩ := by
  cases event with
  | state | startManaged => exact .inl rfl
  | invoke op reading => exact .inr (.inl ⟨op, _, rfl, .inr ⟨reading, rfl⟩⟩)
  | dispatch call reading =>
      simp only [Machine.step, Machine.dispatch]
      split
      next hc => exact .inr (.inr ⟨call, _, _, _, hc, rfl⟩)
      next => exact .inl rfl
  | reply call reply =>
      simp only [Machine.step, Machine.reply]
      split
      next hc => exact .inr (.inr ⟨call, _, _, _, hc, rfl⟩)
      next => exact .inl rfl
  | finish call reading =>
      simp only [Machine.step, Machine.finish]
      split
      next hc => exact .inr (.inr ⟨call, _, _, _, hc, rfl⟩)
      next => exact .inl rfl
  | renew i reading =>
      simp only [Machine.step, Machine.renew]
      split
      next => exact .inr (.inl ⟨.renew, _, rfl, .inl rfl⟩)
      next => exact .inl rfl
  | wake i err =>
      simp only [Machine.step, Machine.wake]
      split <;> exact .inl rfl
  | resume i =>
      simp only [Machine.step, Machine.resume]
      split
      next => split <;> exact .inl rfl
      next => exact .inl rfl
  | lose i reading =>
      simp only [Machine.step, Machine.lose]
      split <;> exact .inl rfl
  | exit i =>
      simp only [Machine.step, Machine.exit]
      split <;> exact .inl rfl

/-- The call that a renewer waits for is in the list of calls. -/
theorem renewing_lt (event : Event) {i call : Nat}
    (h : ∀ (i call : Nat), m.renewers[i]? = some (.renewing call) → call < m.calls.length)
    (hi : (m.step event).renewers[i]? = some (.renewing call)) : call < (m.step event).calls.length := by
  have hle := calls_length_le m event
  rcases renewers_step m event hi with ⟨r, hr, ht⟩ | ⟨_, hs, _⟩
  · cases ht with
    | kept => exact Nat.lt_of_lt_of_le (h i call hr) hle
    | began reading ha =>
        simp [Machine.step, Machine.renew, ha, Machine.invoke]
  · cases hs

/-- A call in the list returns an error only in the step that closes the
handle. -/
theorem returned_step (event : Event) {call : Nat} {op : Op} {err : Error} (hlt : call < m.calls.length)
    (hc : (m.step event).calls[call]? = some ⟨op, .returned (some err)⟩) :
    m.calls[call]? = some ⟨op, .returned (some err)⟩ ∨ (m.step event).handle.state ≠ .active := by
  have hs := step_stepped m event
  generalize m.step event = m' at hs hc ⊢
  cases hs with
  | idle => exact .inl hc
  | invoked =>
      rw [List.getElem?_append_left hlt] at hc
      exact .inl hc
  | dispatched | replied =>
      rcases getElem?_set_cases hc with ⟨_, he⟩ | ⟨_, hc⟩
      · cases he
      · exact .inl hc
  | finished _ hf =>
      rcases getElem?_set_cases hc with ⟨_, he⟩ | ⟨_, hc⟩
      · cases he
        cases hf with
        | closed _ state _ hstate => exact .inr hstate
      · exact .inl hc

/-- The renewer's Renew has failed. -/
def GaveUp (m : Machine) : Renewer → Prop
  | .renewing call => ∃ op err, m.calls[call]? = some ⟨op, .returned (some err)⟩
  | .failed _ => True
  | r => delivered r ≠ none

structure Sound (m : Machine) : Prop where
  lifecycle : Inv m
  calls : ∀ (i call : Nat), m.renewers[i]? = some (.renewing call) → call < m.calls.length
  closed : ∀ (i : Nat) r, m.renewers[i]? = some r → GaveUp m r → m.handle.state ≠ .active
  losses : ∀ (i : Nat) r loss, m.renewers[i]? = some r → delivered r = some loss → loss.state ≠ .active

theorem sound_initial (policy : Policy) (record : Record) (started : Reading) :
    Sound (initial (Handle.newHandleAt policy record started)) := by
  refine ⟨inv_initial policy record started, ?_, ?_, ?_⟩
  · intro i call h
    cases h
  · intro i r h
    cases h
  · intro i r loss h
    cases h

/-- No renewer starts its Renew while another call holds the operation of a
handle that still admits work. -/
def Unhindered (m : Machine) : Event → Prop
  | .renew i reading => m.renewers[i]? = some .awake → m.handle.state = .active →
      reading.clock < m.handle.deadline → reading.wall < m.handle.wallDeadline →
      m.handle.busy = false
  | _ => True

theorem renew_closes {i : Nat} {reading : Reading} (hu : Unhindered m (.renew i reading))
    (ha : m.renewers[i]? = some .awake) {op : Op} {err : Error}
    (hc : (m.step (.renew i reading)).calls[m.calls.length]? = some ⟨op, .returned (some err)⟩) :
    (m.step (.renew i reading)).handle.state ≠ .active := by
  simp only [Machine.step, Machine.renew, ha, Machine.invoke] at hc ⊢
  simp only [List.getElem?_concat_length, Option.some.injEq, Invocation.mk.injEq] at hc
  generalize hstart : m.handle.start .renew reading = result at hc ⊢
  obtain ⟨handle, admission⟩ := result
  cases admission with
  | reserved => cases hc.2
  | returned err' =>
      cases hc.2
      rcases m.handle.start_refuses (by decide) hstart with hs | ⟨hbusy, hactive, hclock, hwall⟩
      · exact hs
      · rw [hu ha hactive hclock hwall] at hbusy
        cases hbusy

theorem Sound.step (h : Sound m) (event : Event) (hu : Unhindered m event) : Sound (m.step event) := by
  have hstays := closed_step h.lifecycle event
  refine ⟨h.lifecycle.step event, ?_, ?_, ?_⟩
  · intro i call
    exact renewing_lt event h.calls
  · intro i r hi hg
    rcases renewers_step m event hi with ⟨r', hr, ht⟩ | ⟨_, rfl, _⟩
    · cases ht with
      | kept =>
          cases r with
          | renewing call =>
              obtain ⟨op, err, hc⟩ := hg
              rcases returned_step event (h.calls i call hr) hc with hc | hs
              · exact hstays (h.closed i _ hr ⟨op, err, hc⟩)
              · exact hs
          | sleeping | awake => exact absurd rfl hg
          | failed err => exact hstays (h.closed i _ hr trivial)
          | exiting loss | exited loss => exact hstays (h.closed i _ hr hg)
      | woke | interrupted | slept => exact absurd rfl hg
      | began reading ha =>
          obtain ⟨op, err, hc⟩ := hg
          exact renew_closes hu ha hc
      | gaveUp hc => exact hstays (h.closed i _ hr ⟨_, _, hc⟩)
      | lost reading err => exact hstays (h.closed i _ hr trivial)
      | left loss => exact hstays (h.closed i _ hr hg)
    · exact absurd rfl hg
  · intro i r loss hi hd
    rcases renewers_step m event hi with ⟨r', hr, ht⟩ | ⟨_, rfl, _⟩
    · cases ht with
      | kept => exact h.losses i _ loss hr hd
      | woke | interrupted | began | slept | gaveUp => cases hd
      | lost reading err =>
          cases hd
          -- The handle was closed before, and State evaluated for the loss keeps it closed.
          exact closed_step h.lifecycle (.state reading) (h.closed i _ hr trivial)
      | left loss' => exact h.losses i _ loss hr hd
    · cases hd

/-- In every run in which no renewer's Renew meets the operation of another
call on a handle that still admits work, a delivered loss names a closed
state, and the handle never reports active again. -/
theorem loss_is_real (policy : Policy) (record : Record) (started : Reading) (events : List Event)
    (hrun : Along Machine.step Unhindered (initial (Handle.newHandleAt policy record started)) events) :
    let m := events.foldl Machine.step (initial (Handle.newHandleAt policy record started))
    ∀ (i : Nat) r loss, m.renewers[i]? = some r → delivered r = some loss →
      loss.state ≠ .active ∧ ∀ (later : List Event) (reading : Reading),
        ((later.foldl Machine.step m).handle.observe reading).state ≠ .active := by
  intro m i r loss hi hd
  have h : Sound m := along_rule (sound_initial policy record started)
    (fun _ event hs hu => hs.step event hu) hrun
  refine ⟨h.losses i r loss hi hd, ?_⟩
  intro later reading
  have hg : GaveUp m r := by
    cases r with
    | exiting | exited =>
        intro hn
        rw [hn] at hd
        cases hd
    | sleeping | awake | renewing | failed => cases hd
  have hclosed := h.lifecycle.run_closed (S := (· ≠ .active)) (h.closed i r hi hg)
    (fun _ _ _ he => edge_closes he) later
  exact closed_step hclosed.1 (.state reading) hclosed.2

/-- The renewer wakes while a Validate of the user is in flight: its Renew is
refused, it delivers a loss and exits, and the handle still admits work. -/
theorem loss_while_active :
    let m := [.startManaged ⟨0, 0⟩ true, .wake 0 none, .invoke .validate ⟨300, 300⟩,
      .renew 0 ⟨300, 300⟩, .resume 0, .lose 0 ⟨300, 300⟩, .exit 0].foldl Machine.step
        (initial (Handle.newHandleAt Policy.renewable.1 firstGrant ⟨0, 0⟩))
    m.renewers[0]? =
        some (.exited (some ⟨300, .active, wrap .errInvalidState "handle operation"⟩)) ∧
      (m.handle.observe ⟨400, 400⟩).state = .active := by
  decide

/-- A renewal that fails at the backend. -/
def ambiguousRenewal : List Event :=
  [.startManaged ⟨0, 0⟩ true, .wake 0 none, .renew 0 ⟨300, 300⟩, .dispatch 0 ⟨300, 300⟩,
    .reply 0 (.ofErr (some (wrap .errAmbiguousOutcome "renew"))), .finish 0 ⟨310, 310⟩, .resume 0,
    .lose 0 ⟨310, 310⟩]

theorem loss_is_real_ambiguous :
    ((ambiguousRenewal.foldl Machine.step
      (initial (Handle.newHandleAt Policy.renewable.1 firstGrant ⟨0, 0⟩))).handle.observe ⟨320, 320⟩).state ≠
        .active := by
  have hrun : Along Machine.step Unhindered (initial (Handle.newHandleAt Policy.renewable.1 firstGrant ⟨0, 0⟩))
      ambiguousRenewal := by
    simp only [ambiguousRenewal, Along, Unhindered, and_true, true_and]
    intro _ _ _ _
    decide
  have hloss : (ambiguousRenewal.foldl Machine.step
      (initial (Handle.newHandleAt Policy.renewable.1 firstGrant ⟨0, 0⟩))).renewers[0]? =
      some (.exiting (some ⟨310, .uncertain, wrap .errAmbiguousOutcome "renew"⟩)) := by decide
  exact (loss_is_real Policy.renewable.1 firstGrant ⟨0, 0⟩ ambiguousRenewal hrun 0 _ _ hloss rfl).2 [] ⟨320, 320⟩

end GoLease.Renewal
