import GoLease.Guard

namespace GoLease.StopRelease

open Guard Lifecycle Memory Memory.Store Traces Pool

/-- The fields that no renewal of an acquisition changes. -/
def Same (granted record : Record) : Prop :=
  record.key = granted.key ∧ record.owner = granted.owner ∧ record.token = granted.token ∧
    record.acquiredAt = granted.acquiredAt

/-- The handle is active and so is the store's entry for its acquisition. -/
def Open (granted : Record) (s : Run) : Prop :=
  s.machine.handle.state = .active ∧ ∃ entry, s.store.lookup granted.key = some entry ∧
    entry.active = true ∧ Same granted entry.record

def Shut (granted : Record) (s : Run) : Prop :=
  ∃ entry, s.store.lookup granted.key = some entry ∧ entry.active = false

def RenewOk (granted : Record) (cancelled : Bool) : Stage → Prop
  | .reserved record | .dispatched record _ => Same granted record ∧ cancelled = false
  | .replied record _ reply => reply.err = none ∧ sameAcquisition record reply.record = true ∧
    Same granted reply.record
  | .returned err => err = none

def RenewerOk (granted : Record) (s : Run) : Renewer → Prop
  | .sleeping | .exiting none | .exited none => True
  | .awake => s.cancelled = false
  | .renewing call => ∃ stage, s.machine.calls[call]? = some ⟨.renew, stage⟩ ∧
    RenewOk granted s.cancelled stage
  | .failed _ | .exiting (some _) | .exited (some _) => False

def ReleaseOk (granted : Record) (s : Run) : Stage → Prop
  | .reserved record | .dispatched record _ => Open granted s ∧ Same granted record
  | .replied _ _ reply => reply.err = none ∧ Shut granted s
  | .returned err => err = none ∧ Shut granted s

def Gone (s : Run) : Prop := s.machine.renewers = [.exited none]

def PhaseOk (granted : Record) (s : Run) : Phase → Prop
  | .working => Open granted s
  | .stopping => Open granted s ∧ s.cancelled = true
  | .draining => Open granted s ∧ Gone s ∧ s.watcher ≠ none
  | .releasing loss => Open granted s ∧ Gone s ∧ loss = none
  | .awaiting loss call => Gone s ∧ loss = none ∧ ∃ stage,
    s.machine.calls[call]? = some ⟨.release, stage⟩ ∧ ReleaseOk granted s stage
  | .returned err => err = none ∧ Gone s ∧ Shut granted s

structure Inv (granted : Record) (policy : Policy) (s : Run) : Prop where
  valid : Memory.validate none granted.key granted.owner policy.ttl.toInt = none
  token : granted.token ≠ 0
  core : Lifecycle.Inv s.machine
  policy_eq : s.machine.handle.policy = policy
  record : Same granted s.machine.handle.record
  renewer : ∃ r, s.machine.renewers = [r] ∧ RenewerOk granted s r
  flights : ∀ (call : Nat) inv, s.machine.calls[call]? = some inv → inv.inFlight = true →
    s.machine.renewers = [.renewing call] ∨ ∃ loss, s.phase = .awaiting loss call
  watcher : s.watcher = none ∨ s.watcher = some .watching ∨ s.watcher = some (.closed none)
  phase : PhaseOk granted s s.phase

variable {granted : Record} {policy : Policy} {s : Run}

theorem Inv.renewer_ok (h : Inv granted policy s) {r : Renewer} (hr : s.machine.renewers = [r]) :
    RenewerOk granted s r := by
  obtain ⟨r', hr', hok⟩ := h.renewer
  rw [hr] at hr'
  cases hr'
  exact hok

theorem Inv.phase_at (h : Inv granted policy s) {phase : Phase} (hp : s.phase = phase) :
    PhaseOk granted s phase := by
  rw [← hp]
  exact h.phase

/-- Until the renewer is gone the stopping code is at most inside Stop. -/
theorem Inv.open_of_not_gone (h : Inv granted policy s) (hr : ¬Gone s) :
    Open granted s ∧ (s.phase = .working ∨ s.phase = .stopping ∧ s.cancelled = true) := by
  cases hphase : s.phase with
  | working => exact ⟨h.phase_at hphase, .inl rfl⟩
  | stopping =>
      obtain ⟨ho, hc⟩ := h.phase_at hphase
      exact ⟨ho, .inr ⟨rfl, hc⟩⟩
  | draining | releasing | returned => exact absurd (h.phase_at hphase).2.1 hr
  | awaiting => exact absurd (h.phase_at hphase).1 hr

theorem not_gone {r : Renewer} (hr : s.machine.renewers = [r]) (hne : r ≠ .exited none) : ¬Gone s := by
  intro hg
  rw [hg] at hr
  cases hr
  exact hne rfl

theorem not_awaiting (hp : s.phase = .working ∨ s.phase = .stopping ∧ s.cancelled = true)
    (loss : Option Error) (call : Nat) : s.phase ≠ .awaiting loss call := by
  intro he
  rcases hp with hp | ⟨hp, _⟩
  · rw [he] at hp
    cases hp
  · rw [he] at hp
    cases hp

theorem phaseOk_of_open {s' : Run} (ho : Open granted s')
    (hp : s'.phase = .working ∨ s'.phase = .stopping ∧ s'.cancelled = true) :
    PhaseOk granted s' s'.phase := by
  rcases hp with hp | ⟨hp, hc⟩
  · rw [hp]
    exact ho
  · rw [hp]
    exact ⟨ho, hc⟩

theorem Inv.free (h : Inv granted policy s)
    (hr : ∀ call inv, s.machine.renewers = [.renewing call] → s.machine.calls[call]? = some inv →
      inv.inFlight = false)
    (hp : ∀ loss call, s.phase ≠ .awaiting loss call) :
    s.machine.handle.busy = false ∧
      ∀ (call : Nat) inv, s.machine.calls[call]? = some inv → inv.inFlight = false := by
  have hnone (call : Nat) (inv : Invocation) (hc : s.machine.calls[call]? = some inv) :
      inv.inFlight = false := by
    cases hf : inv.inFlight with
    | false => rfl
    | true =>
        rcases h.flights call inv hc hf with hren | ⟨loss, hph⟩
        · rw [hr call inv hren hc] at hf
          cases hf
        · exact absurd hph (hp loss call)
  refine ⟨?_, hnone⟩
  have hcount : s.machine.calls.countP Invocation.inFlight = 0 := by
    rw [List.countP_eq_zero]
    intro inv hm
    obtain ⟨call, hc⟩ := List.getElem?_of_mem hm
    rw [hnone call inv hc]
    exact Bool.false_ne_true
  have hb := h.core.reserved
  rw [hcount] at hb
  cases hbusy : s.machine.handle.busy with
  | false => rfl
  | true =>
      rw [hbusy] at hb
      cases hb

theorem sameAcquisition_renewed {record current : Record} {now ttl : Int} (hr : Same granted record)
    (hc : Same granted current) (hlt : granted.acquiredAt < now + ttl) :
    sameAcquisition record { current with expiresAt := now + ttl } = true := by
  obtain ⟨hk, ho, ht, ha⟩ := hr
  obtain ⟨hk', ho', ht', ha'⟩ := hc
  simp only [sameAcquisition, hk, ho, ht, ha, hk', ho', ht', ha', beq_self_eq_true, Bool.true_and,
    decide_eq_true_eq]
  exact hlt

/-- The run keeps its invariant and, once the renewal is cancelled, comes
closer to the return. -/
def Advances (granted : Record) (policy : Policy) (s s' : Run) : Prop :=
  Inv granted policy s' ∧ (s.phase ≠ .working → remaining s' < remaining s)

theorem remaining_eq {r : Renewer} (hr : s.machine.renewers = [r]) :
    remaining s = renewerRank s (some r) + watcherRank s.watcher + phaseRank s s.phase := by
  unfold remaining Run.renewer
  rw [hr]
  rfl

theorem phaseRank_of_open {s' : Run} (hp : s.phase = .working ∨ s.phase = .stopping ∧ s.cancelled = true) :
    phaseRank s' s.phase = phaseRank s s.phase := by
  rcases hp with hp | ⟨hp, _⟩ <;> rw [hp] <;> rfl

theorem Inv.setRenewer (h : Inv granted policy s) (hng : ¬Gone s) (r : Renewer) (managed : Bool)
    (hfree : ∀ call inv, s.machine.renewers = [.renewing call] → s.machine.calls[call]? = some inv →
      inv.inFlight = false)
    (hok : RenewerOk granted s r) :
    Inv granted policy { s with
      machine := ⟨{ s.machine.handle with managed }, s.machine.calls, [r]⟩ } := by
  obtain ⟨ho, hp⟩ := h.open_of_not_gone hng
  have hnone := (h.free hfree (not_awaiting hp)).2
  refine ⟨h.valid, h.token, h.core.idle (idles_managed _ managed) [r], h.policy_eq, h.record,
    ⟨r, rfl, ?_⟩, ?_, h.watcher, phaseOk_of_open ho hp⟩
  · exact hok
  · intro call inv hc hf
    rw [hnone call inv hc] at hf
    cases hf

theorem Inv.wake (h : Inv granted policy s) (hr : s.machine.renewers = [.sleeping])
    {err : Option Error} (hq : Quiet s (.wake err)) :
    Advances granted policy s (s.step (.wake err)) := by
  have hng := not_gone hr (by simp)
  have hs : s.step (.wake err) = { s with machine := ⟨s.machine.handle, s.machine.calls,
      [if err = none then .awake else .exiting none]⟩ } := by
    simp [Run.step, Run.drive, Machine.step, Machine.wake, hr]
  rw [hs]
  refine ⟨h.setRenewer hng _ s.machine.handle.managed ?_ ?_, ?_⟩
  · intro call inv hc
    rw [hr] at hc
    cases hc
  · cases err with
    | none => exact hq
    | some err => trivial
  · intro hw
    rcases (h.open_of_not_gone hng).2 with hp | ⟨hp, hc⟩
    · exact absurd hp hw
    · cases err with
      | none =>
          rw [Quiet, hc] at hq
          cases hq
      | some err =>
          rw [remaining_eq hr, remaining_eq rfl, phaseRank_of_open (.inr ⟨hp, hc⟩)]
          simp [renewerRank]

theorem Inv.renew (h : Inv granted policy s) (hr : s.machine.renewers = [.awake]) {reading : Reading}
    (ht : Timely granted policy.ttl.toInt s (.renew reading)) :
    Advances granted policy s (s.step (.renew reading)) := by
  have hng := not_gone hr (by simp)
  obtain ⟨ho, hp⟩ := h.open_of_not_gone hng
  have hcancel : s.cancelled = false := h.renewer_ok hr
  obtain ⟨hbusy, hnone⟩ := h.free (by intro call inv hc; rw [hr] at hc; cases hc) (not_awaiting hp)
  have hstart : s.machine.handle.start .renew reading = _ :=
    s.machine.handle.start_admits (by decide) ho.1 hbusy ht.1 ht.2
  have hm : s.machine.step (.renew 0 reading) = ⟨{ s.machine.handle with busy := true },
      s.machine.calls ++ [⟨.renew, .reserved s.machine.handle.record⟩],
      [.renewing s.machine.calls.length]⟩ := by
    simp [Machine.step, Machine.renew, hr, Machine.invoke, hstart, Stage.ofAdmission]
  have hcore := h.core.step (.renew 0 reading)
  have hs : s.step (.renew reading) = { s with machine := s.machine.step (.renew 0 reading) } := rfl
  rw [hs]
  rw [hm] at hcore ⊢
  refine ⟨⟨h.valid, h.token, hcore, h.policy_eq, h.record,
    ⟨_, rfl, _, List.getElem?_concat_length, h.record, hcancel⟩, ?_, h.watcher,
    phaseOk_of_open ho hp⟩, ?_⟩
  · intro call inv hc hf
    rcases getElem?_concat hc with hc | ⟨rfl, _⟩
    · rw [hnone call inv hc] at hf
      cases hf
    · exact .inl rfl
  · intro hw
    rcases hp with hp | ⟨_, hc⟩
    · exact absurd hp hw
    · rw [hcancel] at hc
      cases hc

theorem Inv.resume (h : Inv granted policy s) {call : Nat} {op : Op} {err : Option Error}
    (hr : s.machine.renewers = [.renewing call])
    (hc : s.machine.calls[call]? = some ⟨op, .returned err⟩) :
    Advances granted policy s (s.step .resume) := by
  have hng := not_gone hr (by simp)
  obtain ⟨stage, hstage, hok⟩ := h.renewer_ok hr
  rw [hc] at hstage
  cases hstage
  obtain rfl : err = none := hok
  have hs : s.step .resume = { s with machine := ⟨s.machine.handle, s.machine.calls, [.sleeping]⟩ } := by
    simp [Run.step, Run.drive, Machine.step, Machine.resume, hr, hc]
  rw [hs]
  refine ⟨h.setRenewer hng .sleeping s.machine.handle.managed ?_ trivial, ?_⟩
  · intro call' inv hren hc'
    rw [hr] at hren
    cases hren
    rw [hc] at hc'
    cases hc'
    rfl
  · intro _
    rw [remaining_eq hr, remaining_eq rfl, phaseRank_of_open (h.open_of_not_gone hng).2]
    simp [renewerRank, hc, stageRank]

theorem Inv.exit (h : Inv granted policy s) {loss : Option Loss}
    (hr : s.machine.renewers = [.exiting loss]) : Advances granted policy s (s.step .exit) := by
  have hng := not_gone hr (by simp)
  obtain rfl : loss = none := by
    have hok := h.renewer_ok hr
    cases loss with
    | none => rfl
    | some loss => exact hok.elim
  have hs : s.step .exit = { s with machine :=
      ⟨{ s.machine.handle with managed := false }, s.machine.calls, [.exited none]⟩ } := by
    simp [Run.step, Run.drive, Machine.step, Machine.exit, hr]
  rw [hs]
  refine ⟨h.setRenewer hng (.exited none) false ?_ trivial, ?_⟩
  · intro call inv hc
    rw [hr] at hc
    cases hc
  · intro _
    rw [remaining_eq hr, remaining_eq rfl, phaseRank_of_open (h.open_of_not_gone hng).2]
    simp [renewerRank]

/-- The call in flight, of the renewer or of the stopping code, moves on. -/
theorem Inv.setCall (h : Inv granted policy s) {call : Nat} {op : Op} {stage stage' : Stage}
    {handle : Handle} {store : Store} (hc : s.machine.calls[call]? = some ⟨op, stage⟩)
    (hf : Invocation.inFlight ⟨op, stage⟩ = true)
    (hcore : Lifecycle.Inv ⟨handle, s.machine.calls.set call ⟨op, stage'⟩, s.machine.renewers⟩)
    (hpolicy : handle.policy = policy) (hrecord : Same granted handle.record)
    (hrank : stageRank (some ⟨op, stage'⟩) < stageRank (some ⟨op, stage⟩))
    (hrenew : op = .renew → RenewOk granted s.cancelled stage → Open granted s →
      RenewOk granted s.cancelled stage' ∧ Open granted { s with store, machine :=
        ⟨handle, s.machine.calls.set call ⟨op, stage'⟩, s.machine.renewers⟩ })
    (hrelease : op = .release → ReleaseOk granted s stage →
      ReleaseOk granted { s with store, machine :=
        ⟨handle, s.machine.calls.set call ⟨op, stage'⟩, s.machine.renewers⟩ } stage') :
    Advances granted policy s { s with store, machine :=
      ⟨handle, s.machine.calls.set call ⟨op, stage'⟩, s.machine.renewers⟩ } := by
  have hflights : ∀ (call' : Nat) inv, (s.machine.calls.set call ⟨op, stage'⟩)[call']? = some inv →
      inv.inFlight = true → s.machine.renewers = [.renewing call'] ∨
        ∃ loss, s.phase = .awaiting loss call' := by
    intro call' inv hc' hf'
    rcases getElem?_set_cases hc' with ⟨rfl, rfl⟩ | ⟨_, hc'⟩
    · exact h.flights call _ hc hf
    · exact h.flights call' inv hc' hf'
  have hset := getElem?_set_of_some hc ⟨op, stage'⟩
  -- In flight is the renewer's Renew or the Release of the stopping code.
  rcases h.flights call _ hc hf with hren | ⟨loss, hph⟩
  · obtain ⟨ho, hp⟩ := h.open_of_not_gone (not_gone hren (by simp))
    obtain ⟨_, hst, hok⟩ := h.renewer_ok hren
    rw [hc] at hst
    cases hst
    obtain ⟨hok', ho'⟩ := hrenew rfl hok ho
    refine ⟨⟨h.valid, h.token, hcore, hpolicy, hrecord, ⟨_, hren, stage', hset, hok'⟩, hflights,
      h.watcher, phaseOk_of_open ho' hp⟩, fun _ => ?_⟩
    have hrem := remaining_eq (s := { s with store, machine :=
      ⟨handle, s.machine.calls.set call ⟨.renew, stage'⟩, s.machine.renewers⟩ }) hren
    rw [remaining_eq hren, hrem, phaseRank_of_open hp]
    simp only [renewerRank, hset, hc]
    omega
  · obtain ⟨hg, hloss, _, hst, hok⟩ := h.phase_at hph
    rw [hc] at hst
    cases hst
    refine ⟨⟨h.valid, h.token, hcore, hpolicy, hrecord, ⟨_, hg, trivial⟩, hflights, h.watcher, ?_⟩,
      fun _ => ?_⟩
    · dsimp only
      rw [hph]
      exact ⟨hg, hloss, stage', hset, hrelease rfl hok⟩
    · have hrem := remaining_eq (s := { s with store, machine :=
        ⟨handle, s.machine.calls.set call ⟨.release, stage'⟩, s.machine.renewers⟩ }) hg
      rw [remaining_eq hg, hrem]
      simp only [hph, phaseRank, renewerRank, hset, hc]
      omega

theorem Inv.dispatch (h : Inv granted policy s) {call : Nat} {op : Op} {record : Record}
    (hc : s.machine.calls[call]? = some ⟨op, .reserved record⟩) (reading : Reading) :
    Advances granted policy s (s.step (.dispatch call reading)) := by
  have hm : s.machine.step (.dispatch call reading) = ⟨s.machine.handle,
      s.machine.calls.set call ⟨op, .dispatched record reading⟩, s.machine.renewers⟩ := by
    simp [Machine.step, Machine.dispatch, hc]
  have hcore := h.core.step (.dispatch call reading)
  have hs : s.step (.dispatch call reading) =
    { s with machine := s.machine.step (.dispatch call reading) } := rfl
  rw [hs]
  rw [hm] at hcore ⊢
  exact h.setCall hc rfl hcore h.policy_eq h.record (Nat.lt_succ_self _) (fun _ hok ho => ⟨hok, ho⟩)
    (fun _ hok => hok)

theorem Inv.execute (h : Inv granted policy s) {call : Nat} {op : Op} {record : Record}
    {started : Reading} (hc : s.machine.calls[call]? = some ⟨op, .dispatched record started⟩)
    {now : Int} (ht : Timely granted policy.ttl.toInt s (.execute call now)) :
    Advances granted policy s (s.step (.execute call now)) := by
  have hs : s.step (.execute call now) = { s with
      store := (s.store.exec ⟨now, s.context op, op.request policy record⟩).1
      machine := s.machine.step (.reply call
        (s.store.exec ⟨now, s.context op, op.request policy record⟩).2) } := by
    simp [Run.step, Run.execute, hc, h.policy_eq]
  have hm (reply : Reply) : s.machine.step (.reply call reply) = ⟨s.machine.handle,
      s.machine.calls.set call ⟨op, .replied record started reply⟩, s.machine.renewers⟩ := by
    simp [Machine.step, Machine.reply, hc]
  have hcore := h.core.step (.reply call (s.store.exec ⟨now, s.context op, op.request policy record⟩).2)
  rw [hs]
  rw [hm] at hcore ⊢
  refine h.setCall hc rfl hcore h.policy_eq h.record (Nat.lt_succ_self _) ?_ ?_
  · rintro rfl ⟨hsame, hcancel⟩ ⟨hactive, entry, hl, ha, hentry⟩
    obtain ⟨hlt, hexpiry⟩ := ht record started hc
    obtain ⟨hk, ho, htok, _⟩ := hsame
    have hheld : s.store.Held record.key record.owner record.token now entry := by
      rw [hk, ho, htok]
      exact ⟨hl, ha, hentry.2.1, hentry.2.2.1, hexpiry entry hl⟩
    have hctx : s.context .renew = none := by simp [Run.context, hcancel]
    have hexec : s.store.exec ⟨now, none, Op.renew.request policy record⟩ = _ :=
      s.store.exec_renew_of_held (by rw [hk, ho]; exact h.valid) (by rw [htok]; exact h.token) hheld
    rw [hctx, hexec]
    refine ⟨⟨rfl, sameAcquisition_renewed ⟨hk, ho, htok, by assumption⟩ hentry hlt, hentry⟩,
      hactive, ⟨{ entry.record with expiresAt := now + policy.ttl.toInt }, true⟩, ?_, rfl, hentry⟩
    rw [hk]
    exact lookup_put_self _ _ _
  · rintro rfl ⟨⟨hactive, entry, hl, ha, hentry⟩, hsame⟩
    obtain ⟨hk, ho, htok, _⟩ := hsame
    have hexec : s.store.exec ⟨now, s.context .release, Op.release.request policy record⟩ = _ :=
      s.store.exec_release_of_active
        (by rw [hk, ho, htok]; exact validateIdentity_of_validate h.valid h.token)
        (by rw [hk]; exact hl) ha (by rw [ho]; exact hentry.2.1) (by rw [htok]; exact hentry.2.2.1)
    rw [hexec]
    refine ⟨rfl, ⟨entry.record, false⟩, ?_, rfl⟩
    rw [hk]
    exact lookup_put_self _ _ _

theorem Inv.finish (h : Inv granted policy s) {call : Nat} {op : Op} {record : Record}
    {started : Reading} {reply : Reply}
    (hc : s.machine.calls[call]? = some ⟨op, .replied record started reply⟩) {reading : Reading}
    (ht : Timely granted policy.ttl.toInt s (.finish call reading)) :
    Advances granted policy s (s.step (.finish call reading)) := by
  have hm : s.machine.step (.finish call reading) =
      ⟨(s.machine.handle.finish reading record started reply op).1, s.machine.calls.set call
        ⟨op, .returned (s.machine.handle.finish reading record started reply op).2⟩,
        s.machine.renewers⟩ := by
    simp [Machine.step, Machine.finish, hc]
  have hcore := h.core.step (.finish call reading)
  have hs : s.step (.finish call reading) =
    { s with machine := s.machine.step (.finish call reading) } := rfl
  rw [hs]
  rw [hm] at hcore ⊢
  rcases h.flights call _ hc rfl with hren | ⟨loss, hph⟩
  · obtain ⟨_, hst, hok⟩ := h.renewer_ok hren
    rw [hc] at hst
    cases hst
    obtain ⟨hactive, _⟩ := (h.open_of_not_gone (not_gone hren (by simp))).1
    obtain ⟨hclock, hwall⟩ := ht record started reply hc
    obtain ⟨d, w, hfin⟩ := s.machine.handle.finish_renew_accepts hok.1 hok.2.1 hactive hclock hwall
    rw [hfin] at hcore ⊢
    exact h.setCall hc rfl hcore h.policy_eq hok.2.2 (Nat.lt_succ_self _) (fun _ _ ho => ⟨rfl, ho⟩) (by simp)
  · obtain ⟨_, _, _, hst, hok⟩ := h.phase_at hph
    rw [hc] at hst
    cases hst
    obtain ⟨herr, hshut⟩ := hok
    have hfin : s.machine.handle.finish reading record started reply .release =
        ({ s.machine.handle with busy := false, state := .released }, none) := by
      simp [Handle.finish, Handle.finishRelease, Handle.replyErr, herr]
    rw [hfin] at hcore ⊢
    exact h.setCall hc rfl hcore h.policy_eq h.record (Nat.lt_succ_self _) (by simp) (fun _ _ => ⟨rfl, hshut⟩)

/-- A cancellation that finds the renewer not exposed leaves it sound. -/
theorem RenewerOk.cancel {r : Renewer} (h : RenewerOk granted s r) (hr : s.machine.renewers = [r])
    (hq : s.exposed = false) (phase : Phase) :
    RenewerOk granted { s with cancelled := true, phase } r := by
  have hrenewer : s.renewer = some r := by rw [Run.renewer, hr, List.head?_cons]
  cases r with
  | sleeping => trivial
  | awake =>
      rw [Run.exposed, hrenewer] at hq
      cases hq
  | renewing call =>
      obtain ⟨stage, hc, hok⟩ := h
      refine ⟨stage, hc, ?_⟩
      rw [Run.exposed, hrenewer] at hq
      simp only [hc] at hq
      cases stage with
      | reserved | dispatched => cases hq
      | replied => exact hok
      | returned => exact hok
  | failed => exact h
  | exiting loss => cases loss <;> exact h
  | exited loss => cases loss <;> exact h

theorem Inv.cancel (h : Inv granted policy s) (hq : s.exposed = false) :
    Inv granted policy (s.step .cancel) ∧ remaining (s.step .cancel) = remaining s := by
  obtain ⟨r, hr, hok⟩ := h.renewer
  refine ⟨⟨h.valid, h.token, h.core, h.policy_eq, h.record, ⟨r, hr, hok.cancel hr hq s.phase⟩,
    h.flights, h.watcher, ?_⟩, rfl⟩
  simp only [Run.step]
  cases hphase : s.phase with
  | stopping => exact ⟨(h.phase_at hphase).1, rfl⟩
  | working | draining | releasing | awaiting | returned => exact h.phase_at hphase

theorem Inv.stop (h : Inv granted policy s) (hph : s.phase = .working) (hq : s.exposed = false) :
    Inv granted policy (s.step .stop) := by
  obtain ⟨r, hr, hok⟩ := h.renewer
  have hp := h.phase_at hph
  have hs : s.step .stop = { s with cancelled := true, phase := .stopping } := by
    simp [Run.step, Run.stop, hph]
  rw [hs]
  refine ⟨h.valid, h.token, h.core, h.policy_eq, h.record, ⟨r, hr, hok.cancel hr hq .stopping⟩,
    ?_, h.watcher, hp, rfl⟩
  intro call inv hc hf
  rcases h.flights call inv hc hf with hren | ⟨loss, he⟩
  · exact .inl hren
  · rw [hph] at he
    cases he

theorem Inv.other (h : Inv granted policy s) {call : Call}
    (ht : Timely granted policy.ttl.toInt s (.other call)) :
    Inv granted policy (s.step (.other call)) ∧ remaining (s.step (.other call)) = remaining s := by
  have hs := s.store.exec_step call
  have hlookup : (s.store.exec call).1.lookup granted.key = s.store.lookup granted.key := by
    rcases ht with hne | ⟨owner, ttl, entry, hreq, hl, ha, hlt⟩
    · exact hs.lookup_of_ne hne
    · rw [hreq] at hs
      rw [hs.contended hl ha hlt]
  have hopen : Open granted s → Open granted (s.step (.other call)) := by
    rintro ⟨hactive, entry, hl, ha, hsame⟩
    exact ⟨hactive, entry, hlookup.trans hl, ha, hsame⟩
  have hshut : Shut granted s → Shut granted (s.step (.other call)) := by
    rintro ⟨entry, hl, ha⟩
    exact ⟨entry, hlookup.trans hl, ha⟩
  obtain ⟨r, hr, hok⟩ := h.renewer
  refine ⟨⟨h.valid, h.token, h.core, h.policy_eq, h.record, ⟨r, hr, ?_⟩, h.flights, h.watcher, ?_⟩, rfl⟩
  · cases r with
    | exiting loss | exited loss => cases loss <;> exact hok
    | sleeping | awake | renewing | failed => exact hok
  · have hphase : (s.step (.other call)).phase = s.phase := rfl
    rw [hphase]
    cases he : s.phase with
    | working => exact hopen (h.phase_at he)
    | stopping | draining | releasing => exact ⟨hopen (h.phase_at he).1, (h.phase_at he).2⟩
    | awaiting loss c =>
        obtain ⟨hg, hloss, stage, hc, hrel⟩ := h.phase_at he
        refine ⟨hg, hloss, stage, hc, ?_⟩
        cases stage with
        | reserved | dispatched => exact ⟨hopen hrel.1, hrel.2⟩
        | replied | returned => exact ⟨hrel.1, hshut hrel.2⟩
    | returned err =>
        obtain ⟨herr, hg, hs⟩ := h.phase_at he
        exact ⟨herr, hg, hshut hs⟩

theorem Inv.watch (h : Inv granted policy s) (hw : s.watcher = some .watching) (hg : Gone s) :
    Advances granted policy s (s.step .watch) := by
  have hrenewer : s.renewer = some (.exited none) := by rw [Run.renewer, hg, List.head?_cons]
  have hs : s.step .watch = { s with watcher := some (.closed none) } := by
    simp [Run.step, Run.watch, hw, hrenewer]
  rw [hs]
  refine ⟨⟨h.valid, h.token, h.core, h.policy_eq, h.record, ⟨_, hg, trivial⟩, h.flights,
    .inr (.inr rfl), ?_⟩, fun _ => ?_⟩
  · cases hphase : s.phase with
    | draining => exact ⟨(h.phase_at hphase).1, hg, by simp⟩
    | working | stopping | releasing | awaiting | returned => exact h.phase_at hphase
  · unfold remaining
    rw [hw]
    exact Nat.add_lt_add_right (Nat.add_lt_add_left (Nat.zero_lt_two) _) _

theorem Inv.setPhase (h : Inv granted policy s) (hg : Gone s) {phase : Phase}
    (hfree : ∀ loss call inv, s.phase = .awaiting loss call → s.machine.calls[call]? = some inv →
      inv.inFlight = false)
    (hp : PhaseOk granted { s with phase } phase) (hrank : phaseRank s phase < phaseRank s s.phase) :
    Advances granted policy s { s with phase } := by
  refine ⟨⟨h.valid, h.token, h.core, h.policy_eq, h.record, ⟨_, hg, trivial⟩, ?_, h.watcher, hp⟩,
    fun _ => Nat.add_lt_add_left hrank _⟩
  intro call inv hc hf
  rcases h.flights call inv hc hf with hren | ⟨loss, hph⟩
  · rw [hg] at hren
    cases hren
  · rw [hfree loss call inv hph hc] at hf
    cases hf

theorem Inv.join (h : Inv granted policy s) (hph : s.phase = .stopping) (hg : Gone s) :
    Advances granted policy s (s.step .join) := by
  have hrenewer : s.renewer = some (.exited none) := by rw [Run.renewer, hg, List.head?_cons]
  have hs : s.step .join =
      { s with phase := if s.watcher.isSome then .draining else .releasing none } := by
    simp [Run.step, Run.join, hph, hrenewer]
  have hp := h.phase_at hph
  rw [hs]
  apply h.setPhase hg
  · intro loss call inv he
    rw [hph] at he
    cases he
  · split
    next hw => exact ⟨hp.1, hg, fun hn => by rw [hn] at hw; cases hw⟩
    next => exact ⟨hp.1, hg, rfl⟩
  · rw [hph]
    split <;> simp [phaseRank]

theorem Inv.drain (h : Inv granted policy s) (hph : s.phase = .draining)
    (hw : s.watcher = some (.closed none)) : Advances granted policy s (s.step .drain) := by
  have hs : s.step .drain = { s with phase := .releasing none } := by
    simp [Run.step, Run.drain, hph, hw]
  have hp := h.phase_at hph
  rw [hs]
  apply h.setPhase hp.2.1
  · intro loss call inv he
    rw [hph] at he
    cases he
  · exact ⟨hp.1, hp.2.1, rfl⟩
  · rw [hph]
    exact Nat.lt_succ_self _

theorem Inv.collect (h : Inv granted policy s) {loss : Option Error} {call : Nat} {op : Op}
    {err : Option Error} (hph : s.phase = .awaiting loss call)
    (hc : s.machine.calls[call]? = some ⟨op, .returned err⟩) :
    Advances granted policy s (s.step .collect) := by
  have hs : s.step .collect = { s with phase := .returned (errorsJoin loss err) } := by
    simp [Run.step, Run.collect, hph, hc]
  obtain ⟨hg, hloss, _, hst, hok⟩ := h.phase_at hph
  rw [hc] at hst
  cases hst
  obtain ⟨herr, hshut⟩ := hok
  rw [hs]
  apply h.setPhase hg
  · intro loss' call' inv he hc'
    rw [hph] at he
    cases he
    rw [hc] at hc'
    cases hc'
    rfl
  · exact ⟨by rw [errorsJoin_eq_none]; exact ⟨hloss, herr⟩, hg, hshut⟩
  · simp [hph, phaseRank, hc, stageRank]

theorem Inv.release (h : Inv granted policy s) {loss : Option Error} (hph : s.phase = .releasing loss)
    (reading : Reading) : Advances granted policy s (s.step (.release reading)) := by
  obtain ⟨ho, hg, hloss⟩ := h.phase_at hph
  obtain ⟨hbusy, hnone⟩ := h.free (by intro call inv hc; rw [hg] at hc; cases hc)
    (by intro loss call he; rw [hph] at he; cases he)
  have hm : s.machine.step (.invoke .release reading) = ⟨{ s.machine.handle with busy := true },
      s.machine.calls ++ [⟨.release, .reserved s.machine.handle.record⟩], s.machine.renewers⟩ := by
    simp [Machine.step, Machine.invoke, s.machine.handle.start_release_admits reading ho.1 hbusy,
      Stage.ofAdmission]
  have hcore := h.core.step (.invoke .release reading)
  have hs : s.step (.release reading) = { s with
      machine := s.machine.step (.invoke .release reading)
      phase := .awaiting loss s.machine.calls.length } := by
    simp [Run.step, Run.release, hph, Run.drive]
  rw [hs]
  rw [hm] at hcore ⊢
  refine ⟨⟨h.valid, h.token, hcore, h.policy_eq, h.record, ⟨_, hg, trivial⟩, ?_, h.watcher,
    hg, hloss, _, List.getElem?_concat_length, ho, h.record⟩, fun _ => ?_⟩
  · intro call inv hc hf
    rcases getElem?_concat hc with hc | ⟨rfl, _⟩
    · rw [hnone call inv hc] at hf
      cases hf
    · exact .inr ⟨loss, rfl⟩
  · have hrem := remaining_eq (s := ⟨s.store, ⟨{ s.machine.handle with busy := true },
      s.machine.calls ++ [⟨.release, .reserved s.machine.handle.record⟩], s.machine.renewers⟩,
      s.cancelled, s.watcher, .awaiting loss s.machine.calls.length⟩) hg
    rw [remaining_eq hg, hrem]
    simp [renewerRank, phaseRank, hph, stageRank]

theorem Inv.renewers_eq (h : Inv granted policy s) {r : Renewer}
    (hr : s.machine.renewers[0]? = some r) : s.machine.renewers = [r] := by
  obtain ⟨r', hr', _⟩ := h.renewer
  rw [hr'] at hr ⊢
  cases hr
  rfl

theorem Inv.gone_of_exited (h : Inv granted policy s) {loss : Option Loss}
    (hr : s.renewer = some (.exited loss)) : Gone s := by
  obtain ⟨r, hr', hok⟩ := h.renewer
  rw [Run.renewer, hr', List.head?_cons] at hr
  cases hr
  cases loss with
  | none => exact hr'
  | some loss => exact hok.elim

/-- No allowed step leaves the invariant or moves away from the return. -/
def Stays (granted : Record) (policy : Policy) (s s' : Run) : Prop :=
  Inv granted policy s' ∧ (s.phase ≠ .working → remaining s' ≤ remaining s)

theorem Advances.stays {s' : Run} (h : Advances granted policy s s') : Stays granted policy s s' :=
  ⟨h.1, fun hw => Nat.le_of_lt (h.2 hw)⟩

theorem Inv.not_reported (h : Inv granted policy s) {err : Error} : s.watcher ≠ some (.reported err) := by
  intro hw
  rcases h.watcher with he | he | he
  · rw [hw] at he
    cases he
  · rw [hw] at he
    cases he
  · rw [hw] at he
    cases he

theorem Inv.closed_none (h : Inv granted policy s) {err : Option Error}
    (hw : s.watcher = some (.closed err)) : s.watcher = some (.closed none) := by
  rcases h.watcher with he | he | he
  · rw [hw] at he
    cases he
  · rw [hw] at he
    cases he
  · exact he

theorem Inv.step (h : Inv granted policy s) (event : Guard.Event)
    (ht : Timely granted policy.ttl.toInt s event) (hq : Quiet s event) :
    Stays granted policy s (s.step event) := by
  rcases enabled_or_still s event with he | he
  · cases he with
    | cancel =>
        obtain ⟨hi, hrem⟩ := h.cancel hq
        exact ⟨hi, fun _ => Nat.le_of_eq hrem⟩
    | other call =>
        obtain ⟨hi, hrem⟩ := h.other ht
        exact ⟨hi, fun _ => Nat.le_of_eq hrem⟩
    | wake hr err => exact (h.wake (h.renewers_eq hr) hq).stays
    | renew hr reading => exact (h.renew (h.renewers_eq hr) ht).stays
    | dispatch hc reading => exact (h.dispatch hc reading).stays
    | execute hc now => exact (h.execute hc ht).stays
    | finish hc reading => exact (h.finish hc ht).stays
    | resume hr hc => exact (h.resume (h.renewers_eq hr) hc).stays
    | lose hr reading => exact (h.renewer_ok (h.renewers_eq hr)).elim
    | exit hr => exact (h.exit (h.renewers_eq hr)).stays
    | lost hr =>
        rw [Run.renewer, List.head?_eq_getElem?] at hr
        exact (h.renewer_ok (h.renewers_eq hr)).elim
    | watch hw hr => exact (h.watch hw (h.gone_of_exited hr)).stays
    | unwatch hw | drainReported hw => exact absurd hw h.not_reported
    | stop hph => exact ⟨h.stop hph hq, fun hw => absurd hph hw⟩
    | join hph hr => exact (h.join hph (h.gone_of_exited hr)).stays
    | drain hph hw => exact (h.drain hph (h.closed_none hw)).stays
    | release hph reading => exact (h.release hph reading).stays
    | collect hph hc => exact (h.collect hph hc).stays
  · rw [he]
    exact ⟨h, fun _ => Nat.le_refl _⟩

/-- The event is allowed, needs no answer from outside, and brings the release nearer. -/
def Progresses (granted : Record) (policy : Policy) (s : Run) : Prop :=
  ∃ event, Timely granted policy.ttl.toInt s event ∧ Quiet s event ∧
    remaining (s.step event) < remaining s

/-- Stop waits for the renewer, which has a step of its own until it is gone. -/
theorem Inv.progress_stopping (h : Inv granted policy s) (hph : s.phase = .stopping) :
    Progresses granted policy s := by
  have hp := h.phase_at hph
  have hw : s.phase ≠ .working := by simp [hph]
  obtain ⟨r, hr, hok⟩ := h.renewer
  cases r with
  | sleeping =>
      have hq : Quiet s (.wake (some (wrap .errCanceled "sleep"))) := trivial
      exact ⟨.wake (some (wrap .errCanceled "sleep")), trivial, hq, (h.wake hr hq).2 hw⟩
  | awake =>
      have hc : s.cancelled = false := hok
      rw [hp.2] at hc
      cases hc
  | renewing call =>
      obtain ⟨stage, hc, hok⟩ := hok
      cases stage with
      | reserved | dispatched =>
          rw [hp.2] at hok
          cases hok.2
      | replied record started reply =>
          have ht : Timely granted policy.ttl.toInt s (.finish call
              ⟨s.machine.handle.deadline - 1, s.machine.handle.wallDeadline - 1⟩) :=
            fun _ _ _ _ => ⟨Int.sub_one_lt_of_le (Int.le_refl _), Int.sub_one_lt_of_le (Int.le_refl _)⟩
          exact ⟨_, ht, trivial, (h.finish hc ht).2 hw⟩
      | returned err => exact ⟨.resume, trivial, trivial, (h.resume hr hc).2 hw⟩
  | failed => exact hok.elim
  | exiting loss => exact ⟨.exit, trivial, trivial, (h.exit hr).2 hw⟩
  | exited loss =>
      cases loss with
      | none => exact ⟨.join, trivial, trivial, (h.join hph hr).2 hw⟩
      | some loss => exact hok.elim

theorem Inv.progress_awaiting (h : Inv granted policy s) {loss : Option Error} {call : Nat}
    (hph : s.phase = .awaiting loss call) : Progresses granted policy s := by
  have hw : s.phase ≠ .working := by simp [hph]
  obtain ⟨_, _, stage, hc, _⟩ := h.phase_at hph
  cases stage with
  | reserved record =>
      exact ⟨.dispatch call ⟨0, 0⟩, trivial, trivial, (h.dispatch hc _).2 hw⟩
  | dispatched record started =>
      have ht : Timely granted policy.ttl.toInt s (.execute call 0) := by
        intro record started hc'
        rw [hc] at hc'
        cases hc'
      exact ⟨_, ht, trivial, (h.execute hc ht).2 hw⟩
  | replied record started reply =>
      have ht : Timely granted policy.ttl.toInt s (.finish call ⟨0, 0⟩) := by
        intro record started reply hc'
        rw [hc] at hc'
        cases hc'
      exact ⟨_, ht, trivial, (h.finish hc ht).2 hw⟩
  | returned err => exact ⟨.collect, trivial, trivial, (h.collect hph hc).2 hw⟩

/-- Once the renewal is cancelled, some goroutine can always bring the run
closer to the return. -/
theorem Inv.progress (h : Inv granted policy s) (hw : s.phase ≠ .working)
    (hreturned : ∀ err, s.phase ≠ .returned err) : Progresses granted policy s := by
  cases hph : s.phase with
  | working => exact absurd hph hw
  | returned err => exact absurd hph (hreturned err)
  | stopping => exact h.progress_stopping hph
  | draining =>
      have hp := h.phase_at hph
      rcases h.watcher with hn | hw' | hc
      · exact absurd hn hp.2.2
      · exact ⟨.watch, trivial, trivial, (h.watch hw' hp.2.1).2 hw⟩
      · exact ⟨.drain, trivial, trivial, (h.drain hph hc).2 hw⟩
  | releasing loss => exact ⟨.release ⟨0, 0⟩, trivial, trivial, (h.release hph _).2 hw⟩
  | awaiting loss call => exact h.progress_awaiting hph

section Results

variable {store store' : Store} {now : Int} {key : Key} {owner : Bytes} {accepted : Policy.Accepted}
  {reply : Reply} {started reading : Reading} {handle : Handle}

theorem inv_start (hgrant : store.exec ⟨now, none, .tryAcquire key owner accepted.1.ttl.toInt⟩ =
      (store', reply)) (hreply : reply.err = none)
    (haccept : Client.accept key owner accepted.1 started reply.record = .ok handle)
    (hmanaged : (handle.startManaged reading true).2 = none) (watched : Bool) :
    reply.record.key = key ∧ Inv reply.record accepted.1 (start watched store' handle reading) := by
  have hstep := store.exec_step ⟨now, none, .tryAcquire key owner accepted.1.ttl.toInt⟩
  rw [hgrant] at hstep
  obtain ⟨hvalid, _, _, hrecord, hstore⟩ := hstep.acquired_of_ok hreply
  dsimp only at hstore
  unfold Client.accept at haccept
  split at haccept
  next hok =>
    cases haccept
    have hm : (initial (Handle.newHandleAt accepted.1 reply.record started)).startManaged reading true =
        ⟨{ Handle.newHandleAt accepted.1 reply.record started with managed := true }, [], [.sleeping]⟩ := by
      simp [Machine.startManaged, initial, Handle.startManaged_ok _ hmanaged]
    have hcore := (inv_initial accepted.1 reply.record started).step (.startManaged reading true)
    have hcore : Lifecycle.Inv ((initial (Handle.newHandleAt accepted.1 reply.record started)).startManaged
      reading true) := hcore
    unfold start
    rw [hm] at hcore ⊢
    refine ⟨by rw [hrecord], ⟨?_, ?_, hcore, rfl, ⟨rfl, rfl, rfl, rfl⟩, ⟨_, rfl, trivial⟩, ?_, ?_, ?_⟩⟩
    · rw [hrecord]
      exact hvalid
    · simp only [Client.validAcquisition, Bool.and_eq_true, bne_iff_ne] at hok
      exact hok.1.2
    · intro call inv hc
      simp at hc
    · cases watched with
      | true => exact .inr (.inl rfl)
      | false => exact .inl rfl
    · refine ⟨rfl, ⟨reply.record, true⟩, ?_, rfl, rfl, rfl, rfl, rfl⟩
      dsimp only
      rw [hstore, hrecord]
      exact lookup_put_self _ _ _
  next => cases haccept

/-- Stop then release, for Run and for the loop body of cleanup alike. In a run
in which no cancellation lands between the sleeper's return and the store's
look at the context, the only result is nil with the entry released, no step
moves away from it, and until it is reached some step moves towards it. -/
theorem stop_then_release
    (hgrant : store.exec ⟨now, none, .tryAcquire key owner accepted.1.ttl.toInt⟩ = (store', reply))
    (hreply : reply.err = none)
    (haccept : Client.accept key owner accepted.1 started reply.record = .ok handle)
    (hmanaged : (handle.startManaged reading true).2 = none) (watched : Bool)
    {events : List Guard.Event}
    (hrun : Along Run.step (fun s event => Timely reply.record accepted.1.ttl.toInt s event ∧
      Quiet s event) (start watched store' handle reading) events) :
    let s := events.foldl Run.step (start watched store' handle reading)
    (∀ err, s.phase = .returned err →
      err = none ∧ ∃ entry, s.store.lookup key = some entry ∧ entry.active = false) ∧
    (s.phase ≠ .working →
      (∀ event, Timely reply.record accepted.1.ttl.toInt s event → Quiet s event →
        remaining (s.step event) ≤ remaining s) ∧
      (s.phase = .returned none ∨ ∃ event, Timely reply.record accepted.1.ttl.toInt s event ∧
        Quiet s event ∧ remaining (s.step event) < remaining s)) := by
  intro s
  obtain ⟨hkey, hinit⟩ := inv_start hgrant hreply haccept hmanaged watched
  have h : Inv reply.record accepted.1 s :=
    along_rule hinit (fun s event hs hc => (hs.step event hc.1 hc.2).1) hrun
  have hend (err : Option Error) (hph : s.phase = .returned err) :
      err = none ∧ Shut reply.record s := by
    have hp := h.phase_at hph
    exact ⟨hp.1, hp.2.2⟩
  refine ⟨?_, fun hw => ⟨fun event ht hq => (h.step event ht hq).2 hw, ?_⟩⟩
  · intro err hph
    obtain ⟨herr, hshut⟩ := hend err hph
    exact ⟨herr, hkey ▸ hshut⟩
  · by_cases hret : ∃ err, s.phase = .returned err
    · obtain ⟨err, hph⟩ := hret
      obtain ⟨rfl, _⟩ := hend err hph
      exact .inl hph
    · exact .inr (h.progress hw (fun err he => hret ⟨err, he⟩))

end Results

def renewing : Policy.Accepted := Policy.renewable

def granting : Store × Reply :=
  Store.exec ⟨1, ∅⟩ ⟨0, none, .tryAcquire ⟨[107]⟩ [97] renewing.1.ttl.toInt⟩

def firstHandle : Handle := Handle.newHandleAt renewing.1 firstGrant ⟨0, 0⟩

theorem firstGrant_unexpired (entry : Entry) (he : some (⟨firstGrant, true⟩ : Entry) = some entry) :
    300 < entry.record.expiresAt := by
  cases he
  decide

/-- The renewal is answered before it is cancelled and the renewer is then
stopped in its sleep. -/
def stoppedAsleep : List Guard.Event :=
  [.wake none, .renew ⟨300, 300⟩, .dispatch 0 ⟨300, 300⟩, .execute 0 300, .stop, .finish 0 ⟨300, 300⟩,
    .resume, .wake (some (wrap .errCanceled "sleep")), .exit, .watch, .join, .drain,
    .release ⟨300, 300⟩, .dispatch 1 ⟨300, 300⟩, .execute 1 300, .finish 1 ⟨300, 300⟩, .collect]

theorem stop_then_release_asleep :
    let s := stoppedAsleep.foldl Run.step (start true granting.1 firstHandle ⟨0, 0⟩)
    s.phase = .returned none ∧ ∃ entry, s.store.lookup ⟨[107]⟩ = some entry ∧ entry.active = false := by
  intro s
  have hph : s.phase = .returned none := by decide
  have hrun : Along Run.step (fun s event => Timely granting.2.record renewing.1.ttl.toInt s event ∧
      Quiet s event) (start true granting.1 firstHandle ⟨0, 0⟩) stoppedAsleep :=
    ⟨⟨trivial, rfl⟩, ⟨⟨by decide, by decide⟩, trivial⟩, ⟨trivial, trivial⟩,
      ⟨fun _ _ _ => ⟨by decide, firstGrant_unexpired⟩, trivial⟩, ⟨trivial, rfl⟩,
      ⟨fun _ _ _ _ => ⟨by decide, by decide⟩, trivial⟩, ⟨trivial, trivial⟩, ⟨trivial, trivial⟩,
      ⟨trivial, trivial⟩, ⟨trivial, trivial⟩, ⟨trivial, trivial⟩, ⟨trivial, trivial⟩, ⟨trivial, trivial⟩,
      ⟨trivial, trivial⟩, ⟨nofun, trivial⟩, ⟨nofun, trivial⟩, ⟨trivial, trivial⟩, trivial⟩
  have haccept : Client.accept ⟨[107]⟩ [97] renewing.1 ⟨0, 0⟩ granting.2.record = .ok firstHandle := rfl
  exact ⟨hph, ((stop_then_release rfl rfl haccept (by decide) true hrun).1 none hph).2⟩

/-- Stop arrives after the sleeper has returned and before the store looks at
the context of the renewal. -/
def stoppedAwake : List Guard.Event :=
  [.wake none, .stop, .renew ⟨300, 300⟩, .dispatch 0 ⟨300, 300⟩, .execute 0 300, .finish 0 ⟨300, 300⟩,
    .resume, .lose ⟨300, 300⟩, .exit, .watch, .unwatch, .join, .drain, .release ⟨300, 300⟩, .collect]

theorem stop_refuses_release :
    (∀ watched, Along Run.step (Timely firstGrant renewing.1.ttl.toInt)
      (start watched granting.1 firstHandle ⟨0, 0⟩) stoppedAwake) ∧
    ∀ watched, let s := stoppedAwake.foldl Run.step (start watched granting.1 firstHandle ⟨0, 0⟩)
      (∃ err, s.phase = .returned (some err) ∧ err.is .errInvalidState = true) ∧
      s.machine.handle.state = .uncertain ∧
      s.store.lookup ⟨[107]⟩ = some ⟨firstGrant, true⟩ := by
  constructor
  · intro watched
    cases watched <;>
      exact ⟨trivial, trivial, ⟨by decide, by decide⟩, trivial, fun _ _ _ => ⟨by decide, firstGrant_unexpired⟩,
        fun _ _ _ _ => ⟨by decide, by decide⟩, trivial, ⟨by decide, by decide⟩, trivial, trivial,
        trivial, trivial, trivial, trivial, trivial, trivial⟩
  · intro watched
    cases watched
    · exact ⟨⟨_, rfl, by decide⟩, by decide, by decide⟩
    · exact ⟨⟨_, rfl, by decide⟩, by decide, by decide⟩

end GoLease.StopRelease
