import GoLease.FleetSteps
import GoLease.Renewal
import GoLease.World

namespace GoLease.ReleaseWindow

open Lifecycle Renewal Traces Pool

variable {σ : Type} {exec : σ → Call → σ × Reply} {f f' : Fleet σ} {event : Fleet.Event}

section Handles

/-- A handle does nothing, makes a step of its own, or is new. -/
inductive Moved (f f' : Fleet σ) (i : Nat) : Prop
  | same (h : f'.machine i = f.machine i)
  | stepped {m : Machine} (event : Event) (h : f.machine i = some m)
      (h' : f'.machine i = some (m.step event))
  | fresh (policy : Policy) (record : Record) (started : Reading) (h : f.machine i = none)
      (h' : f'.machine i = some (initial (Handle.newHandleAt policy record started)))

theorem machine_congr {i : Nat} (h : f'.sessions[i]? = f.sessions[i]?) : f'.machine i = f.machine i := by
  simp only [Fleet.machine, h]

theorem machine_of_idle {i : Nat} (h : ∀ s m, f.sessions[i]? = some s → s.holder ≠ .holding m) :
    f.machine i = none := by
  cases hm : f.machine i with
  | none => rfl
  | some m =>
      obtain ⟨s, hi, hholder⟩ := Fleet.holding_of_machine hm
      exact absurd hholder (h s m hi)

theorem machine_of_waiting {i : Nat} {s : Session} (hi : f.sessions[i]? = some s)
    (hwaiting : s.holder = .waiting) : f.machine i = none := by
  apply machine_of_idle
  intro s' m hi' hholder
  cases hi.symm.trans hi'
  rw [hwaiting] at hholder
  cases hholder

/-- The other sessions of a fleet keep their handles. -/
theorem moved_set {j : Nat} {s : Session} (hsessions : f'.sessions = f.sessions.set j s)
    (h : Moved f f' j) (i : Nat) : Moved f f' i := by
  by_cases hj : j = i
  · exact hj ▸ h
  · refine .same (machine_congr ?_)
    rw [hsessions, List.getElem?_set_ne hj]

theorem moved_step (h : Fleet.Moved exec f event f') (i : Nat) : Moved f f' i := by
  cases h with
  | kept | ticked | served => exact .same rfl
  | asked key owner policy clock =>
      cases hi : f.sessions[i]? with
      | some s => exact .same (machine_congr ((getElem?_append_of_some hi _).trans hi.symm))
      | none =>
          refine .same ((machine_of_idle ?_).trans (machine_of_idle (by simp [hi])).symm)
          intro s m hs hholder
          rcases getElem?_concat hs with hold | ⟨_, rfl⟩
          · cases hi.symm.trans hold
          · cases hholder
  | @granted j s ctx hj hnone =>
      refine moved_set rfl (.same ?_) i
      simp only [Fleet.machine, hj, getElem?_set_of_some hj]
      obtain ⟨key, owner, policy, started, reply, holder⟩ := s
      cases holder <;> rfl
  | @opened j s record handle hj hreply hwaiting haccept =>
      refine moved_set rfl (.fresh s.policy.1 record s.started (machine_of_waiting hj hwaiting) ?_) i
      rw [(Client.accept_ok haccept).2]
      exact Fleet.machine_of_holding (getElem?_set_of_some hj _) rfl
  | @failed j s _ err hj hwaiting =>
      refine moved_set rfl (.same ?_) i
      rw [machine_of_waiting hj hwaiting]
      apply machine_of_idle
      intro s' m hs hholder
      cases (getElem?_set_of_some hj _).symm.trans hs
      cases hholder
  | @driven j s m _ inner _ hj hholder _ =>
      refine moved_set rfl (.stepped inner (Fleet.machine_of_holding hj hholder) ?_) i
      exact Fleet.machine_of_holding (getElem?_set_of_some hj _) rfl

/-- A message is an old one, or the call of a handle that has just dispatched it. -/
theorem messages_step (h : Fleet.Moved exec f event f') {msg : Message} (hmem : msg ∈ f'.messages) :
    (∃ old ∈ f.messages, old.session = msg.session ∧ old.call = msg.call ∧ old.request = msg.request) ∨
      ∃ m op record started, f.machine msg.session = some m ∧
        m.calls[msg.call]? = some ⟨op, .reserved record⟩ ∧
        msg.request = op.request m.handle.policy record ∧
        f'.machine msg.session = some (m.step (.dispatch msg.call started)) := by
  have hsame (hm : msg ∈ f.messages) :
      ∃ old ∈ f.messages, old.session = msg.session ∧ old.call = msg.call ∧
        old.request = msg.request := ⟨msg, hm, rfl, rfl, rfl⟩
  cases h with
  | kept | ticked | asked | granted | opened | failed => exact .inl (hsame hmem)
  | driven hj hholder hd =>
      cases hd with
      | inside | deliver | abandon => exact .inl (hsame hmem)
      | dispatch clock hcall =>
          rcases List.mem_append.mp hmem with hold | hnew
          · exact .inl (hsame hold)
          · rw [List.mem_singleton.mp hnew]
            exact .inr ⟨_, _, _, _, Fleet.machine_of_holding hj hholder, hcall, rfl,
              Fleet.machine_of_holding (getElem?_set_of_some hj _) rfl⟩
  | served ctx hn hnone =>
      rcases List.mem_or_eq_of_mem_set hmem with hold | rfl
      · exact .inl (hsame hold)
      · exact .inl ⟨_, List.mem_of_getElem? hn, rfl, rfl, rfl⟩

end Handles

/-- The call has been sent: it is a Release in flight, or it has closed the
handle. -/
def Released (m : Machine) (call : Nat) : Prop :=
  ∃ inv, m.calls[call]? = some inv ∧ inv.op = .release ∧
    (inv.inFlight = true ∨ m.handle.state ≠ .active)

theorem Released.step {m : Machine} {call : Nat} (h : Released m call) (hi : Inv m) (event : Event) :
    Released (m.step event) call := by
  obtain ⟨inv, hc, hop, hflight⟩ := h
  have hclosed := closed_step hi event
  have hs := step_stepped m event
  generalize m.step event = m' at hs hclosed ⊢
  have hkept (hc' : m'.calls[call]? = some inv) : Released m' call :=
    ⟨inv, hc', hop, hflight.imp_right hclosed⟩
  have hset {other : Nat} {op : Op} {stage stage' : Stage} (ho : m.calls[other]? = some ⟨op, stage⟩)
      (hm : m'.calls = m.calls.set other ⟨op, stage'⟩)
      (hnew : op = .release → Invocation.inFlight ⟨op, stage'⟩ = true ∨ m'.handle.state ≠ .active) :
      Released m' call := by
    by_cases he : other = call
    · subst he
      rw [hc] at ho
      cases ho
      exact ⟨⟨op, stage'⟩, by rw [hm]; exact getElem?_set_of_some hc _, hop, hnew hop⟩
    · apply hkept
      rw [hm, List.getElem?_set_ne he, hc]
  cases hs with
  | idle => exact hkept hc
  | invoked => exact hkept (getElem?_append_of_some hc _)
  | dispatched reading ho => exact hset ho rfl (fun _ => .inl rfl)
  | replied reply ho => exact hset ho rfl (fun _ => .inl rfl)
  | finished ho hf =>
      refine hset ho rfl (fun hr => .inr ?_)
      subst hr
      cases hf with
      | closed _ state err hstate _ => exact hstate
      | confirmed _ hne => exact absurd rfl hne
      | released hreply =>
          intro ha
          cases ha

structure Quits (f : Fleet σ) : Prop where
  machines : ∀ i m, f.machine i = some m → Inv m
  released : ∀ msg ∈ f.messages, ∀ owned, msg.request = .release owned →
    ∃ m, f.machine msg.session = some m ∧ Released m msg.call

theorem Quits.step (h : Quits f) (event : Fleet.Event) : Quits (f.step exec event) := by
  have hmoved := @Fleet.step_moved _ exec f event
  refine ⟨?_, ?_⟩
  · intro i m hm
    cases moved_step hmoved i with
    | same he => exact h.machines i m (he ▸ hm)
    | stepped event' hold hnew =>
        rw [hnew] at hm
        cases hm
        exact (h.machines i _ hold).step event'
    | fresh policy record started _ hnew =>
        rw [hnew] at hm
        cases hm
        exact inv_initial policy record started
  · intro msg hmem owned hreq
    rcases messages_step hmoved hmem with ⟨old, hold, hsession, hcall, hrequest⟩ |
      ⟨m, op, record, started, hm, hc, hrequest, hnew⟩
    · obtain ⟨m, hm, hr⟩ := h.released old hold owned (hrequest.trans hreq)
      rw [hsession] at hm
      rw [hcall] at hr
      cases moved_step hmoved msg.session with
      | same he => exact ⟨m, he.trans hm, hr⟩
      | stepped event' hold hnew =>
          rw [hold] at hm
          cases hm
          exact ⟨_, hnew, hr.step (h.machines _ _ hold) event'⟩
      | fresh policy record started hnone _ =>
          rw [hnone] at hm
          cases hm
    · refine ⟨_, hnew, ⟨⟨op, .dispatched record started⟩, ?_, ?_, .inl rfl⟩⟩
      · simp only [Machine.step, Machine.dispatch, hc]
        exact getElem?_set_of_some hc _
      · rw [hrequest] at hreq
        cases op with
        | release => rfl
        | renew | validate => cases hreq

theorem quits_start (now : Int) (store : σ) : Quits (Fleet.start now store) := by
  refine ⟨?_, ?_⟩
  · intro i m hm
    simp [Fleet.machine, Fleet.start] at hm
  · intro msg hmem
    cases hmem

theorem closed_later (h : Quits f) {i : Nat} {m : Machine} (hm : f.machine i = some m)
    (hs : m.handle.state ≠ .active) (later : List Fleet.Event) :
    ∃ m', (later.foldl (Fleet.step exec) f).machine i = some m' ∧ m'.handle.state ≠ .active := by
  refine (invariant_rule (P := fun f => Quits f ∧ ∃ m, f.machine i = some m ∧
    m.handle.state ≠ .active) ⟨h, m, hm, hs⟩ ?_ later).2
  rintro f event ⟨h, m, hm, hs⟩
  have hmoved := @Fleet.step_moved _ exec f event
  refine ⟨h.step event, ?_⟩
  cases moved_step hmoved i with
  | same he => exact ⟨m, he.trans hm, hs⟩
  | stepped event' hold hnew =>
      rw [hold] at hm
      cases hm
      exact ⟨_, hnew, closed_step (h.machines i _ hold) event' hs⟩
  | fresh policy record started hnone _ =>
      rw [hnone] at hm
      cases hm

/-- Local admission ends no later than the Release that a handle has sent: as
long as State returns active that call is in flight and the safety deadline
has not passed, and once it has returned, with whatever result, State never
returns active again. -/
theorem release_ends_admission (now : Int) (store : Memory.Store) (events : List Fleet.Event) :
    let w := events.foldl World.step (World.start now store)
    ∀ msg ∈ w.messages, ∀ owned, msg.request = .release owned →
      ∃ m call, w.machine msg.session = some m ∧ m.calls[msg.call]? = some call ∧
        call.op = .release ∧
        (∀ clock, (m.handle.observe ⟨clock, w.now⟩).state = .active →
          call.inFlight = true ∧ clock < m.handle.deadline ∧ w.now < m.handle.wallDeadline) ∧
        (call.inFlight = false → ∀ later : List Fleet.Event, ∃ m',
          (later.foldl World.step w).machine msg.session = some m' ∧
            ∀ reading, (m'.handle.observe reading).state ≠ .active) := by
  intro w msg hmem owned hreq
  have h : Quits w := invariant_rule (quits_start now store) (fun _ event hq => hq.step event) events
  obtain ⟨m, hm, call, hc, hop, hflight⟩ := h.released msg hmem owned hreq
  refine ⟨m, call, hm, hc, hop, ?_, ?_⟩
  · intro clock ha
    obtain ⟨_, hactive, hclock, hwall⟩ := m.handle.expireLocked_active ha
    exact ⟨hflight.resolve_right (not_not.mpr hactive), hclock, hwall⟩
  · intro hdone later
    have hs : m.handle.state ≠ .active := by
      refine hflight.resolve_left ?_
      rw [hdone]
      decide
    obtain ⟨m', hm', hs'⟩ := closed_later h hm hs later
    refine ⟨m', hm', ?_⟩
    intro reading ha
    exact hs' (m'.handle.expireLocked_active ha).2.1

/-- The store has executed the release and granted the key to a successor, and
State of the releasing handle still returns active. -/
theorem active_after_release_executed :
    let w := [.dispatchAcquire ⟨[107]⟩ [97] Policy.renewable 0, .executeAcquire 0 none, .completeAcquire 0,
      .inside 0 (.invoke .release ⟨0, 0⟩), .dispatch 0 0 0, .execute 0 none,
      .dispatchAcquire ⟨[107]⟩ [98] Policy.renewable 0, .executeAcquire 1 none,
      .completeAcquire 1].foldl World.step (World.start 0 ⟨1, ∅⟩)
    ∃ m successor msg, w.machine 0 = some m ∧ w.machine 1 = some successor ∧
      successor.handle.record.key = m.handle.record.key ∧
      w.messages[0]? = some msg ∧ msg.session = 0 ∧ msg.request = .release m.handle.record ∧
      msg.reply = some ⟨zeroRecord, none⟩ ∧ (m.handle.observe ⟨0, w.now⟩).state = .active := by
  exact ⟨_, _, _, rfl, rfl, rfl, rfl, rfl, rfl, rfl, by decide⟩

end GoLease.ReleaseWindow
