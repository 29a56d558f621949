import GoLease.Lifecycle

/-!
What a whole Renew or Validate, from its first locked section to its last and
with anything happening in between, does to the record and the deadlines.
-/

namespace GoLease.Deadlines

open Lifecycle Traces Pool

structure Kept (handle handle' : Handle) : Prop where
  policy : handle'.policy = handle.policy
  record : handle'.record = handle.record
  deadline : handle'.deadline = handle.deadline
  wallDeadline : handle'.wallDeadline = handle.wallDeadline

section Kept

variable {handle handle' handle'' : Handle}

theorem Kept.refl (handle : Handle) : Kept handle handle := ⟨rfl, rfl, rfl, rfl⟩

theorem Kept.trans (h : Kept handle handle') (h' : Kept handle' handle'') : Kept handle handle'' :=
  ⟨h'.policy.trans h.policy, h'.record.trans h.record, h'.deadline.trans h.deadline,
    h'.wallDeadline.trans h.wallDeadline⟩

theorem kept_idles (h : Idles handle handle') : Kept handle handle' := by
  obtain ⟨state, managed, rfl, -⟩ := h
  exact ⟨rfl, rfl, rfl, rfl⟩

theorem kept_started {reading : Reading} {op : Op} {admission : Admission}
    (h : handle.Started reading op handle' admission) : Kept handle handle' := by
  cases h with
  | refused | already => exact .refl handle
  | expired => exact kept_idles (idles_expireLocked handle reading)
  | admitted | releasing => exact ⟨rfl, rfl, rfl, rfl⟩

end Kept

/-- The call is in flight and the handle is as it was, or the call returned. -/
structure Pending (handle : Handle) (call : Nat) (m : Machine) : Prop where
  lifecycle : Inv m
  kept : ∀ inv, m.calls[call]? = some inv → inv.inFlight = true → Kept handle m.handle
  present : call < m.calls.length

section Run

variable {m : Machine} {handle : Handle} {call : Nat}

theorem Pending.step (h : Pending handle call m) (event : Event) :
    Pending handle call (m.step event) := by
  have hnext := h.lifecycle.step event
  have hs := step_stepped m event
  generalize m.step event = m' at hs hnext ⊢
  cases hs with
  | idle event hi renewers =>
      exact ⟨hnext, fun inv hc hf => (h.kept inv hc hf).trans (kept_idles hi), h.present⟩
  | invoked event hs renewers =>
      refine ⟨hnext, ?_, ?_⟩
      · intro inv hc hf
        rw [List.getElem?_append_left h.present] at hc
        exact (h.kept inv hc hf).trans (kept_started hs)
      · rw [List.length_append]
        exact Nat.lt_add_right 1 h.present
  | dispatched reading hc | replied reply hc =>
      refine ⟨hnext, ?_, ?_⟩
      · intro inv hset hf
        rcases getElem?_set_cases hset with ⟨rfl, -⟩ | ⟨-, hother⟩
        · exact h.kept _ hc rfl
        · exact h.kept inv hother hf
      · rw [List.length_set]
        exact h.present
  | @finished other op record started reading reply handle' err hc hf =>
      refine ⟨hnext, ?_, ?_⟩
      · intro inv hset hflight
        rcases getElem?_set_cases hset with ⟨rfl, rfl⟩ | ⟨hne, hother⟩
        · cases hflight
        · -- only one call is in flight, and the one that finishes was
          exact absurd (h.lifecycle.inFlight_unique hother hflight hc rfl) hne
      · rw [List.length_set]
        exact h.present

/-- A call that some step began in one state stands, with its reply, before
its last locked section in another. Between the two anything may happen. -/
inductive Underway (m : Machine) (call : Nat) (op : Op) (started : Reading) (reply : Reply) :
    Machine → Prop
  | intro (event : Event) (between : List Event) (record record' : Record)
      (hcall : call = m.calls.length) (hbegun : (m.step event).calls[call]? = some ⟨op, .reserved record⟩)
      (hreplied : (between.foldl Machine.step (m.step event)).calls[call]? =
        some ⟨op, .replied record' started reply⟩) :
      Underway m call op started reply (between.foldl Machine.step (m.step event))

/-- A step that begins a call leaves the lease of the handle alone. -/
theorem kept_begun (event : Event) {inv : Invocation}
    (hbegun : (m.step event).calls[m.calls.length]? = some inv) : Kept m.handle (m.step event).handle := by
  have hs := step_stepped m event
  generalize m.step event = m' at hs hbegun ⊢
  cases hs with
  | idle event hi renewers => exact kept_idles hi
  | invoked event hs renewers => exact kept_started hs
  | dispatched | replied => exact .refl m.handle
  | finished hc hf =>
      rw [List.getElem?_eq_none (Nat.le_of_eq List.length_set)] at hbegun
      cases hbegun

theorem pending_begun (h : Inv m) (event : Event) {inv : Invocation}
    (hbegun : (m.step event).calls[m.calls.length]? = some inv) :
    Pending m.handle m.calls.length (m.step event) :=
  ⟨h.step event, fun _ _ _ => kept_begun event hbegun, (List.getElem?_eq_some_iff.mp hbegun).1⟩

theorem Underway.kept (h : Inv m) {op : Op} {started : Reading} {reply : Reply} {n : Machine}
    (hu : Underway m call op started reply n) :
    Kept m.handle n.handle ∧ ∃ record, n.calls[call]? = some ⟨op, .replied record started reply⟩ := by
  obtain ⟨event, between, record, record', rfl, hbegun, hreplied⟩ := hu
  have hp := invariant_rule (pending_begun h event hbegun) (fun m event h => h.step event) between
  exact ⟨hp.kept _ hreplied rfl, record', hreplied⟩

/-- What Renew promises: both deadlines count from its start, and the record
is the one returned. -/
structure Extended (policy : Policy) (started : Reading) (record : Record) (handle : Handle) : Prop where
  deadline : handle.deadline = started.clock + policy.budget
  wallDeadline : handle.wallDeadline = started.wall + policy.budget
  record : handle.record = record

/-- The completion of a Renew can tell its deadline from the zero time that
Validate passes, or has nothing to change. -/
def Distinct (handle : Handle) (started : Reading) : Prop :=
  started.clock + handle.policy.budget ≠ zeroTime ∨
    handle.deadline = zeroTime ∧ handle.wallDeadline = started.wall + handle.policy.budget

theorem finished_extends {reading started : Reading} {record : Record} {reply : Reply}
    {handle' : Handle} (h : handle.Finished reading record started reply .renew handle' none) :
    Extended handle.policy started reply.record handle' ↔ Distinct handle started := by
  cases h with
  | renewed hreply hsame hactive hclock hwall hzero =>
      exact iff_of_true ⟨rfl, rfl, rfl⟩ (.inl hzero)
  | confirmed op hop hreply hsame hactive hclock hwall hzero =>
      have hdeadline := hzero rfl
      constructor
      · rintro ⟨hd, hw, -⟩
        exact .inr ⟨hd.trans hdeadline, hw⟩
      · rintro (hne | ⟨hd, hw⟩)
        · exact absurd hdeadline hne
        · exact ⟨hd.trans hdeadline.symm, hw, rfl⟩

theorem finished_validates {reading started : Reading} {record : Record} {reply : Reply}
    {handle' : Handle} (h : handle.Finished reading record started reply .validate handle' none) :
    handle'.deadline = handle.deadline ∧ handle'.wallDeadline = handle.wallDeadline := by
  cases h with
  | confirmed => exact ⟨rfl, rfl⟩

theorem finished_fails {reading started : Reading} {record : Record} {reply : Reply} {op : Op}
    {handle' : Handle} {err : Error}
    (h : handle.Finished reading record started reply op handle' (some err)) : Kept handle handle' := by
  cases h with
  | closed => exact ⟨rfl, rfl, rfl, rfl⟩

/-- The last locked section of a call, with the error it returns. -/
theorem finish_returned {op : Op} {record : Record} {started : Reading} {reply : Reply}
    (hc : m.calls[call]? = some ⟨op, .replied record started reply⟩) (reading : Reading)
    {err : Option Error}
    (h : (m.step (.finish call reading)).calls[call]? = some ⟨op, .returned err⟩) :
    m.handle.Finished reading record started reply op (m.step (.finish call reading)).handle err := by
  have hf := m.handle.finish_finished reading record started reply op
  have hstep : m.step (.finish call reading) =
      { m with
        handle := (m.handle.finish reading record started reply op).1
        calls := m.calls.set call ⟨op, .returned (m.handle.finish reading record started reply op).2⟩ } := by
    simp only [Machine.step, Machine.finish, hc]
  rw [hstep] at h ⊢
  rw [getElem?_set_of_some hc] at h
  cases h
  exact hf

/-- Renew and Validate in every state a handle can reach: a failed call changes
neither record nor deadlines, a Validate no deadline, and a Renew sets both
exactly when its own deadline is not the zero time. -/
theorem deadline_effects (policy : Policy) (record : Record) (opened : Reading) (before : List Event) :
    let m := before.foldl Machine.step (initial (Handle.newHandleAt policy record opened))
    (∀ event op err, (m.step event).calls[m.calls.length]? = some ⟨op, .returned (some err)⟩ →
      Kept m.handle (m.step event).handle) ∧
      ∀ call op started reply n, Underway m call op started reply n → ∀ reading,
        let n' := n.step (.finish call reading)
        (∀ err, n'.calls[call]? = some ⟨op, .returned (some err)⟩ → Kept m.handle n'.handle) ∧
        (op = .validate → n'.calls[call]? = some ⟨op, .returned none⟩ →
          n'.handle.deadline = m.handle.deadline ∧ n'.handle.wallDeadline = m.handle.wallDeadline) ∧
        (op = .renew → n'.calls[call]? = some ⟨op, .returned none⟩ →
          (Extended m.handle.policy started reply.record n'.handle ↔ Distinct m.handle started)) := by
  intro m
  have hinv : Inv m := invariant_rule (inv_initial policy record opened) (fun m event h => h.step event) before
  refine ⟨fun event op err hbegun => kept_begun event hbegun, ?_⟩
  intro call op started reply n hu reading n'
  obtain ⟨hkept, sent, hc⟩ := hu.kept hinv
  refine ⟨?_, ?_, ?_⟩
  · intro err herr
    exact hkept.trans (finished_fails (finish_returned hc reading herr))
  · rintro rfl hnil
    obtain ⟨hd, hw⟩ := finished_validates (finish_returned hc reading hnil)
    exact ⟨hd.trans hkept.deadline, hw.trans hkept.wallDeadline⟩
  · rintro rfl hnil
    have hext := finished_extends (finish_returned hc reading hnil)
    unfold Distinct at hext ⊢
    rwa [hkept.policy, hkept.deadline, hkept.wallDeadline] at hext

/-- A Renew that starts one budget before the zero time. -/
def beforeZero : List Event :=
  [.dispatch 0 ⟨zeroTime - 900, 100⟩, .state ⟨zeroTime - 880, 120⟩,
    .reply 0 ⟨{ firstGrant with expiresAt := 2000 }, none⟩]

/-- It returns nil, takes the record and extends neither deadline. -/
theorem renew_deadline_zero :
    let m := initial (Handle.newHandleAt Policy.renewable.1 firstGrant ⟨zeroTime - 1000, 0⟩)
    let n := beforeZero.foldl Machine.step (m.step (.invoke .renew ⟨zeroTime - 910, 90⟩))
    let n' := n.step (.finish 0 ⟨zeroTime - 870, 130⟩)
    Underway m 0 .renew ⟨zeroTime - 900, 100⟩ ⟨{ firstGrant with expiresAt := 2000 }, none⟩ n ∧
      n'.calls[0]? = some ⟨.renew, .returned none⟩ ∧ n'.handle.record.expiresAt = 2000 ∧
      n'.handle.deadline = m.handle.deadline ∧ n'.handle.wallDeadline = m.handle.wallDeadline ∧
      n'.handle.deadline ≠ zeroTime - 900 + Policy.renewable.1.budget ∧
      n'.handle.wallDeadline ≠ 100 + Policy.renewable.1.budget := by
  intro m n n'
  have hu : Underway m 0 .renew ⟨zeroTime - 900, 100⟩ ⟨{ firstGrant with expiresAt := 2000 }, none⟩ n :=
    .intro (.invoke .renew ⟨zeroTime - 910, 90⟩) beforeZero firstGrant firstGrant rfl rfl rfl
  exact ⟨hu, by decide, by decide, by decide, by decide, by decide, by decide⟩

end Run

end GoLease.Deadlines
