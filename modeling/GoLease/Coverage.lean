import GoLease.FleetSteps
import GoLease.Pool
import GoLease.Traces

namespace GoLease.Coverage

open Lifecycle Traces Pool

/-- A record of the acquisition that was granted with another record. -/
def Continues (granted record : Record) : Prop :=
  record.key = granted.key ∧ record.owner = granted.owner ∧ record.token = granted.token

/-- What a call of the handle carries: records of the acquisition, and with an
acknowledged renewal a deadline in the set of the covered ones. -/
def Carries (C : Int → Prop) (policy : Policy) (granted : Record) (call : Invocation) : Prop :=
  match call.stage with
  | .reserved record | .dispatched record _ => Continues granted record
  | .replied record started reply => Continues granted record ∧
      (call.op = .renew → reply.err = none → C (started.wall + policy.budget))
  | .returned _ => True

structure Holds (C : Int → Prop) (policy : Policy) (granted : Record) (m : Machine) : Prop where
  policy_eq : m.handle.policy = policy
  record : Continues granted m.handle.record
  deadline : C m.handle.wallDeadline
  calls : ∀ call ∈ m.calls, Carries C policy granted call

section Machine

variable {C C' : Int → Prop} {policy : Policy} {granted : Record} {m : Machine}

theorem Holds.mono (h : Holds C policy granted m) (hC : ∀ deadline, C deadline → C' deadline) :
    Holds C' policy granted m := by
  refine ⟨h.policy_eq, h.record, hC _ h.deadline, ?_⟩
  intro call hm
  have hc := h.calls call hm
  unfold Carries at hc ⊢
  split at hc
  next => exact hc
  next => exact hc
  next => exact ⟨hc.1, fun hop he => hC _ (hc.2 hop he)⟩
  next => trivial

theorem continues_of_sameAcquisition {record next : Record} (h : Continues granted record)
    (hs : sameAcquisition record next = true) : Continues granted next := by
  simp only [sameAcquisition, Bool.and_eq_true, beq_iff_eq] at hs
  obtain ⟨⟨⟨⟨hkey, howner⟩, htoken⟩, _⟩, _⟩ := hs
  refine ⟨?_, howner.symm.trans h.2.1, htoken.symm.trans h.2.2⟩
  rw [← h.1]
  exact congrArg Key.mk hkey.symm

theorem Holds.step (h : Holds C policy granted m) (event : Event)
    (hreply : ∀ call reply record started, event = .reply call reply →
      m.calls[call]? = some ⟨.renew, .dispatched record started⟩ → reply.err = none →
      C (started.wall + policy.budget)) :
    Holds C policy granted (m.step event) := by
  have hs := step_stepped m event
  generalize m.step event = m' at hs ⊢
  cases hs with
  | idle event hi renewers =>
      obtain ⟨state, managed, rfl, _⟩ := hi
      exact ⟨h.policy_eq, h.record, h.deadline, h.calls⟩
  | invoked event hs renewers =>
      cases hs with
      | refused | already =>
          exact ⟨h.policy_eq, h.record, h.deadline, forall_mem_append h.calls trivial⟩
      | expired op err hop =>
          obtain ⟨state, managed, he, _⟩ := idles_expireLocked m.handle _
          rw [he]
          exact ⟨h.policy_eq, h.record, h.deadline, forall_mem_append h.calls trivial⟩
      | admitted | releasing =>
          exact ⟨h.policy_eq, h.record, h.deadline, forall_mem_append h.calls h.record⟩
  | dispatched reading hc =>
      have hcall := h.calls _ (List.mem_of_getElem? hc)
      exact ⟨h.policy_eq, h.record, h.deadline, forall_mem_set h.calls hcall⟩
  | @replied call op record started reply hc =>
      refine ⟨h.policy_eq, h.record, h.deadline, forall_mem_set h.calls ⟨?_, ?_⟩⟩
      · exact h.calls _ (List.mem_of_getElem? hc)
      · rintro rfl he
        exact hreply call reply record started rfl hc he
  | @finished call op _ _ _ _ _ err hc hf =>
      have hcall := h.calls _ (List.mem_of_getElem? hc)
      have hcalls : ∀ c ∈ m.calls.set call ⟨op, .returned err⟩, Carries C policy granted c :=
        forall_mem_set h.calls trivial
      cases hf with
      | closed | released => exact ⟨h.policy_eq, h.record, h.deadline, hcalls⟩
      | renewed he hsame =>
          have hd := hcall.2 rfl he
          rw [← h.policy_eq] at hd
          exact ⟨h.policy_eq, continues_of_sameAcquisition hcall.1 hsame, hd, hcalls⟩
      | confirmed op hop he hsame =>
          exact ⟨h.policy_eq, continues_of_sameAcquisition hcall.1 hsame, h.deadline, hcalls⟩

/-- A call that has been sent stays sent, with the readings it was sent with. -/
theorem sent_step (event : Event) {call : Nat} {inv : Invocation} (hc : m.calls[call]? = some inv)
    (hsent : ∀ record, inv.stage ≠ .reserved record) :
    ∃ inv', (m.step event).calls[call]? = some inv' ∧ inv'.op = inv.op ∧
      (∀ record, inv'.stage ≠ .reserved record) ∧
      ∀ record started, inv'.stage = .dispatched record started → inv.stage = inv'.stage := by
  have hset {other : Nat} {op : Op} {stage stage' : Stage} (ho : m.calls[other]? = some ⟨op, stage⟩)
      (hnew : ∀ record, stage ≠ .reserved record → stage' ≠ .reserved record)
      (hlast : ∀ record started, stage' = .dispatched record started → ∃ r, stage = .reserved r) :
      ∃ inv', (m.calls.set other ⟨op, stage'⟩)[call]? = some inv' ∧ inv'.op = inv.op ∧
        (∀ record, inv'.stage ≠ .reserved record) ∧
        ∀ record started, inv'.stage = .dispatched record started → inv.stage = inv'.stage := by
    by_cases he : other = call
    · subst he
      rw [ho] at hc
      cases hc
      refine ⟨⟨op, stage'⟩, ?_, rfl, fun record => hnew record (hsent record), ?_⟩
      · exact getElem?_set_of_some ho _
      · intro record started hd
        obtain ⟨r, hr⟩ := hlast record started hd
        exact absurd hr (hsent r)
    · exact ⟨inv, by rw [List.getElem?_set_ne he, hc], rfl, hsent, fun _ _ _ => rfl⟩
  have hs := step_stepped m event
  generalize m.step event = m' at hs ⊢
  cases hs with
  | idle => exact ⟨inv, hc, rfl, hsent, fun _ _ _ => rfl⟩
  | invoked =>
      refine ⟨inv, ?_, rfl, hsent, fun _ _ _ => rfl⟩
      exact getElem?_append_of_some hc _
  | dispatched reading ho => exact hset ho (by simp) (fun _ _ _ => ⟨_, rfl⟩)
  | replied reply ho => exact hset ho (by simp) (by simp)
  | finished ho hf => exact hset ho (by simp) (by simp)

end Machine

section Contract

variable {σ κ : Type}

/-- The record's owner and token under the same slot of the store; two keys may
share a slot. -/
def Tied (slot : Key → κ) (granted owned : Record) : Prop :=
  slot owned.key = slot granted.key ∧ owned.owner = granted.owner ∧ owned.token = granted.token

/-- What a store promises to the clients of a fleet. A lease is backed up to an
instant if the store holds it for the record's owner and token and does not let
it expire before. The slack is what the store may cut from a TTL. -/
structure Contract (exec : σ → Call → σ × Reply) (slot : Key → κ) (slack : Int) where
  ok : σ → Prop
  fence : σ → κ → Nat
  backs : σ → Record → Int → Prop
  ok_exec : ∀ {store} (call : Call), ok store → call.request.Representable → ok (exec store call).1
  fence_exec : ∀ {store} (call : Call), ok store → call.request.Representable → ∀ key,
    fence store (slot key) ≤ fence (exec store call).1 (slot key)
  acquired : ∀ {store} (call : Call) {key owner ttl record}, ok store →
    call.request = .tryAcquire key owner ttl → ttl < 2 ^ 63 → (exec store call).2 = ⟨record, none⟩ →
    record.key = key ∧ fence store (slot key) < record.token ∧
      record.token ≤ fence (exec store call).1 (slot key) ∧
      ∀ deadline, deadline + slack ≤ call.now + ttl → backs (exec store call).1 record deadline
  renewed : ∀ {store} (call : Call) {granted owned ttl}, ok store → call.request = .renew owned ttl →
    ttl < 2 ^ 63 → Continues granted owned → (exec store call).2.err = none →
    ∀ deadline, deadline + slack ≤ call.now + ttl → backs (exec store call).1 granted deadline
  kept : ∀ {store} (call : Call) {granted deadline}, ok store → call.request.Representable →
    backs store granted deadline → call.now < deadline →
    (∀ owned, call.request = .release owned → ¬Tied slot granted owned) →
    (∀ owned ttl, call.request = .renew owned ttl → Tied slot granted owned →
      deadline + slack ≤ call.now + ttl) →
    backs (exec store call).1 granted deadline

end Contract

section Fleet

variable {σ κ : Type} {exec : σ → Call → σ × Reply} {slot : Key → κ} {slack : Int}
  {c : Contract exec slot slack} {f f' : Fleet σ}

/-- What the store owes to a deadline of a client. It is close enough that a
renewal executed now does not shorten it, and it is backed until it passes. -/
structure Covered (c : Contract exec slot slack) (store : σ) (now : Int) (granted : Record)
    (ttl deadline : Int) : Prop where
  near : deadline + slack ≤ now + ttl
  backed : now < deadline → c.backs store granted deadline

/-- A deadline of a session whose margin takes up the slack is covered as long
as no Release was dispatched. -/
def Cover (c : Contract exec slot slack) (f : Fleet σ) (i : Nat) (s : Session) (granted : Record)
    (deadline : Int) : Prop :=
  slack ≤ s.policy.1.safetyMargin.toInt → f.Unreleased i →
    Covered c f.store f.now granted s.policy.1.ttl.toInt deadline

structure SessionOk (c : Contract exec slot slack) (f : Fleet σ) (i : Nat) (s : Session) : Prop where
  started : s.started.wall ≤ f.now
  granted : ∀ record, s.reply = some ⟨record, none⟩ → record.key = s.key ∧
    record.token ≤ c.fence f.store (slot s.key) ∧
    Cover c f i s record (s.started.wall + s.policy.1.budget)
  holding : ∀ m, s.holder = .holding m → ∃ record, s.reply = some ⟨record, none⟩ ∧
    Holds (Cover c f i s record) s.policy.1 record m

/-- A message was sent by a call of a handle, and its request is about the
acquisition of that handle. -/
structure Sent (c : Contract exec slot slack) (f : Fleet σ) (msg : Message) (s : Session) (m : Machine)
    (granted owned : Record) (call : Invocation) : Prop where
  sender : f.sessions[msg.session]? = some s
  holding : s.holder = .holding m
  reply : s.reply = some ⟨granted, none⟩
  caller : m.calls[msg.call]? = some call
  same : Continues granted owned
  request : msg.request = call.op.request s.policy.1 owned
  wall : msg.wall ≤ f.now
  left : ∀ record, call.stage ≠ .reserved record
  started : ∀ record started, call.stage = .dispatched record started → started.wall = msg.wall
  renewed : ∀ record, msg.reply = some ⟨record, none⟩ → call.op = .renew →
    Cover c f msg.session s granted (msg.wall + s.policy.1.budget)

structure Inv (c : Contract exec slot slack) (f : Fleet σ) : Prop where
  ok : c.ok f.store
  sessions : ∀ (i : Nat) s, f.sessions[i]? = some s → SessionOk c f i s
  distinct : ∀ (i j : Nat) (s t : Session) (r q : Record), f.sessions[i]? = some s →
    f.sessions[j]? = some t → s.reply = some ⟨r, none⟩ → t.reply = some ⟨q, none⟩ →
    slot r.key = slot q.key → r.token = q.token → i = j
  messages : ∀ msg ∈ f.messages, ∃ s m granted owned call, Sent c f msg s m granted owned call

/-- A change of the fleet that takes nothing from the sessions it had. -/
structure Keeps (c : Contract exec slot slack) (f f' : Fleet σ) : Prop where
  now : f.now ≤ f'.now
  fence : ∀ key, c.fence f.store (slot key) ≤ c.fence f'.store (slot key)
  cover : ∀ i s record deadline, f.sessions[i]? = some s → s.reply = some ⟨record, none⟩ →
    Cover c f i s record deadline → Cover c f' i s record deadline

theorem Covered.later {store : σ} {now : Int} {granted : Record} {ttl deadline : Int}
    (h : Covered c store now granted ttl deadline) (elapsed : Nat) :
    Covered c store (now + elapsed) granted ttl deadline := by
  refine ⟨?_, fun hlt => h.backed ?_⟩
  · have hn := h.near
    omega
  · omega

/-- A full TTL from now leaves room for the budget of a call made before. -/
theorem near_of_margin (policy : Policy.Accepted) {wall now : Int} (hwall : wall ≤ now)
    (hmargin : slack ≤ policy.1.safetyMargin.toInt) :
    wall + policy.1.budget + slack ≤ now + policy.1.ttl.toInt := by
  have hb := policy.valid.budget_eq
  omega

theorem ttl_lt (policy : Policy) : policy.ttl.toInt < 2 ^ 63 := policy.ttl.toInt_lt

theorem representable_request (policy : Policy) (record : Record) (op : Op) :
    (op.request policy record).Representable := by
  cases op with
  | renew => exact ttl_lt policy
  | validate | release => trivial

theorem SessionOk.keep {i : Nat} {s : Session} (h : SessionOk c f i s) (hk : Keeps c f f')
    (hi : f.sessions[i]? = some s) : SessionOk c f' i s := by
  refine ⟨Int.le_trans h.started hk.now, ?_, ?_⟩
  · intro record hr
    obtain ⟨hkey, hle, hc⟩ := h.granted record hr
    exact ⟨hkey, Nat.le_trans hle (hk.fence _), hk.cover i s record _ hi hr hc⟩
  · intro m hm
    obtain ⟨record, hr, hh⟩ := h.holding m hm
    exact ⟨record, hr, hh.mono (fun deadline => hk.cover i s record deadline hi hr)⟩

theorem Sent.keep {msg : Message} {s : Session} {m : Machine} {granted owned : Record}
    {call : Invocation} (h : Sent c f msg s m granted owned call) (hk : Keeps c f f')
    (hs : f'.sessions[msg.session]? = some s) : Sent c f' msg s m granted owned call := by
  refine ⟨hs, h.holding, h.reply, h.caller, h.same, h.request, Int.le_trans h.wall hk.now, h.left,
    h.started, ?_⟩
  intro record hr hop
  exact hk.cover _ s granted _ h.sender h.reply (h.renewed record hr hop)

theorem Inv.keep (h : Inv c f) (hk : Keeps c f f') (hs : f'.sessions = f.sessions)
    (hok : c.ok f'.store) (hm : ∀ msg ∈ f'.messages, msg ∈ f.messages ∨
      ∃ s m granted owned call, Sent c f' msg s m granted owned call) : Inv c f' := by
  refine ⟨hok, ?_, ?_, ?_⟩
  · intro i s hi
    rw [hs] at hi
    exact (h.sessions i s hi).keep hk hi
  · rw [hs]
    exact h.distinct
  · intro msg hmem
    rcases hm msg hmem with hold | hnew
    · obtain ⟨s, m, granted, owned, call, hsent⟩ := h.messages msg hold
      exact ⟨s, m, granted, owned, call, hsent.keep hk (hs ▸ hsent.sender)⟩
    · exact hnew

theorem Inv.tick (h : Inv c f) (elapsed : Nat) : Inv c (f.step exec (.tick elapsed)) := by
  refine h.keep ⟨?_, fun _ => Nat.le_refl _, ?_⟩ rfl h.ok (fun msg hm => .inl hm)
  · simp only [Fleet.step]
    omega
  · intro i s record deadline hi hr hc hmargin hu
    exact (hc hmargin hu).later elapsed

theorem Inv.dispatchAcquire (h : Inv c f) (key : Key) (owner : Bytes) (policy : Policy.Accepted)
    (clock : Int) : Inv c (f.step exec (.dispatchAcquire key owner policy clock)) := by
  have hk : Keeps c f (f.step exec (.dispatchAcquire key owner policy clock)) :=
    ⟨Int.le_refl _, fun _ => Nat.le_refl _, fun _ _ _ _ _ _ hc => hc⟩
  have hsessions {i : Nat} {s : Session}
      (hi : (f.step exec (.dispatchAcquire key owner policy clock)).sessions[i]? = some s) :
      f.sessions[i]? = some s ∨ s = ⟨key, owner, policy, ⟨clock, f.now⟩, none, .waiting⟩ := by
    rcases getElem?_concat hi with hi | ⟨_, rfl⟩
    · exact .inl hi
    · exact .inr rfl
  refine ⟨h.ok, ?_, ?_, ?_⟩
  · intro i s hi
    rcases hsessions hi with hi | rfl
    · exact (h.sessions i s hi).keep hk hi
    · refine ⟨Int.le_refl _, ?_, ?_⟩
      · intro record hr
        cases hr
      · intro m hm
        cases hm
  · intro i j s t r q hi hj hr hq
    rcases hsessions hi with hi | rfl
    · rcases hsessions hj with hj | rfl
      · exact h.distinct i j s t r q hi hj hr hq
      · cases hq
    · cases hr
  · intro msg hm
    obtain ⟨s, m, granted, owned, call, hsent⟩ := h.messages msg hm
    exact ⟨s, m, granted, owned, call, hsent.keep hk (getElem?_append_of_some hsent.sender _)⟩

/-- A step of the store on behalf of a request that releases no session and
renews only with the session's own TTL keeps all of them covered. -/
theorem Inv.keeps_exec (h : Inv c f) (call : Call) (sessions : List Session) (messages : List Message)
    (hnow : call.now = f.now) (hfits : call.request.Representable)
    (hunreleased : ∀ i, Fleet.Unreleased ⟨f.now, (exec f.store call).1, sessions, messages⟩ i →
      f.Unreleased i)
    (hrelease : ∀ (i : Nat) s record owned, f.sessions[i]? = some s → s.reply = some ⟨record, none⟩ →
      call.request = .release owned → Tied slot record owned → ¬f.Unreleased i)
    (hrenew : ∀ (i : Nat) s record owned ttl, f.sessions[i]? = some s →
      s.reply = some ⟨record, none⟩ → call.request = .renew owned ttl → Tied slot record owned →
      ttl = s.policy.1.ttl.toInt) :
    Keeps c f ⟨f.now, (exec f.store call).1, sessions, messages⟩ := by
  refine ⟨Int.le_refl _, c.fence_exec call h.ok hfits, ?_⟩
  intro i s record deadline hi hr hc hmargin hu
  have hu := hunreleased i hu
  obtain ⟨hnear, hbacked⟩ := hc hmargin hu
  refine ⟨hnear, fun hlt => ?_⟩
  apply c.kept call h.ok hfits (hbacked hlt) (hnow ▸ hlt)
  · intro owned he ht
    exact hrelease i s record owned hi hr he ht hu
  · intro owned ttl he ht
    rw [hnow, hrenew i s record owned ttl hi hr he ht]
    exact hnear

/-- A session without a reply has no handle, and so has sent nothing. -/
theorem Sent.ne_of_unanswered {msg : Message} {s t : Session} {m : Machine} {granted owned : Record}
    {call : Invocation} {i : Nat} (h : Sent c f msg t m granted owned call) (hi : f.sessions[i]? = some s)
    (hnone : s.reply = none) : i ≠ msg.session := by
  rintro rfl
  have ht := h.sender
  rw [hi] at ht
  cases ht
  have hr := h.reply
  rw [hnone] at hr
  cases hr

/-- A record above the fence of its slot is of no session that has one. -/
theorem Inv.token_ne (h : Inv c f) {i : Nat} {s : Session} {r q : Record} (hi : f.sessions[i]? = some s)
    (hq : s.reply = some ⟨q, none⟩) (hk : slot r.key = slot q.key)
    (hlt : c.fence f.store (slot r.key) < r.token) : r.token ≠ q.token := by
  obtain ⟨hkey, hle, _⟩ := (h.sessions i s hi).granted q hq
  rw [← hkey, ← hk] at hle
  omega

theorem Inv.executeAcquire (h : Inv c f) (i : Nat) (ctx : Ctx) :
    Inv c (f.executeAcquire exec i ctx) := by
  unfold Fleet.executeAcquire
  split
  next s hi =>
    split
    next => exact h
    next hnone =>
      rw [Bool.not_eq_true, Option.isSome_eq_false_iff, Option.isNone_iff_eq_none] at hnone
      have hfits := ttl_lt s.policy.1
      have hok := c.ok_exec ⟨f.now, ctx, .tryAcquire s.key s.owner s.policy.1.ttl.toInt⟩ h.ok hfits
      have hkeep := h.keeps_exec ⟨f.now, ctx, .tryAcquire s.key s.owner s.policy.1.ttl.toInt⟩
        (f.sessions.set i { s with
          reply := some (exec f.store ⟨f.now, ctx, .tryAcquire s.key s.owner s.policy.1.ttl.toInt⟩).2 })
        f.messages rfl hfits (fun _ hu => hu) (fun _ _ _ _ _ _ he => by cases he)
        (fun _ _ _ _ _ _ _ he => by cases he)
      have hgrant (record : Record) :=
        @Contract.acquired _ _ _ _ _ c _ ⟨f.now, ctx, .tryAcquire s.key s.owner s.policy.1.ttl.toInt⟩
          _ _ _ record h.ok rfl hfits
      generalize exec f.store ⟨f.now, ctx, .tryAcquire s.key s.owner s.policy.1.ttl.toInt⟩ = result
        at hok hkeep hgrant ⊢
      obtain ⟨store', reply⟩ := result
      dsimp only at hok hkeep hgrant ⊢
      refine ⟨hok, ?_, ?_, ?_⟩
      · intro j t hj
        rcases getElem?_set_cases hj with ⟨rfl, rfl⟩ | ⟨_, hj⟩
        · have hstarted := (h.sessions i s hi).started
          refine ⟨hstarted, ?_, ?_⟩
          · intro record hr
            obtain ⟨hkey, _, hfence, hc⟩ := hgrant record (Option.some.inj hr)
            refine ⟨hkey, hfence, fun hmargin _ => ?_⟩
            have hnear := near_of_margin s.policy hstarted hmargin
            exact ⟨hnear, fun _ => hc _ hnear⟩
          · intro m hm
            obtain ⟨record, hr, _⟩ := (h.sessions i s hi).holding m hm
            rw [hnone] at hr
            cases hr
        · exact (h.sessions j t hj).keep hkeep hj
      · have hnew {j : Nat} {t : Session} {r q : Record} (hj : f.sessions[j]? = some t)
            (hr : reply = ⟨r, none⟩) (hq : t.reply = some ⟨q, none⟩) (hk : slot r.key = slot q.key) :
            r.token ≠ q.token := by
          obtain ⟨hkey, hlt, _⟩ := hgrant r hr
          rw [← hkey] at hlt
          exact h.token_ne hj hq hk hlt
        intro j k t u r q hj hk hr hq hkey htoken
        rcases getElem?_set_cases hj with ⟨rfl, rfl⟩ | ⟨_, hj⟩
        · rcases getElem?_set_cases hk with ⟨rfl, rfl⟩ | ⟨_, hk⟩
          · rfl
          · exact absurd htoken (hnew hk (Option.some.inj hr) hq hkey)
        · rcases getElem?_set_cases hk with ⟨rfl, rfl⟩ | ⟨_, hk⟩
          · exact absurd htoken.symm (hnew hj (Option.some.inj hq) hr hkey.symm)
          · exact h.distinct j k t u r q hj hk hr hq hkey htoken
      · intro msg hm
        obtain ⟨t, m, granted, owned, call, hsent⟩ := h.messages msg hm
        refine ⟨t, m, granted, owned, call, hsent.keep hkeep ?_⟩
        exact (List.getElem?_set_ne (hsent.ne_of_unanswered hi hnone)).trans hsent.sender
  next => exact h

/-- The client side of one session changes: to a holder that is sound for what
the store granted, and under which the calls already sent stay sent. -/
theorem Inv.setHolder (h : Inv c f) {i : Nat} {s : Session} {holder : Holder}
    (hi : f.sessions[i]? = some s)
    (hnew : ∀ m, holder = .holding m → ∃ record, s.reply = some ⟨record, none⟩ ∧
      Holds (Cover c f i s record) s.policy.1 record m)
    (hold : ∀ m, s.holder = .holding m → ∃ event, holder = .holding (m.step event)) :
    Inv c (f.setHolder i holder) := by
  have hw : f.setHolder i holder = { f with sessions := f.sessions.set i { s with holder } } := by
    unfold Fleet.setHolder
    rw [hi]
  rw [hw]
  have hkeep : Keeps c f { f with sessions := f.sessions.set i { s with holder } } :=
    ⟨Int.le_refl _, fun _ => Nat.le_refl _, fun _ _ _ _ _ _ hc => hc⟩
  refine ⟨h.ok, ?_, ?_, ?_⟩
  · intro j t hj
    rcases getElem?_set_cases hj with ⟨rfl, rfl⟩ | ⟨_, hj⟩
    · have hs := (h.sessions i s hi).keep hkeep hi
      exact ⟨hs.started, hs.granted, hnew⟩
    · exact (h.sessions j t hj).keep hkeep hj
  · have hback {j : Nat} {t : Session} {r : Record}
        (hj : (f.sessions.set i { s with holder })[j]? = some t) (hr : t.reply = some ⟨r, none⟩) :
        ∃ t', f.sessions[j]? = some t' ∧ t'.reply = some ⟨r, none⟩ := by
      rcases getElem?_set_cases hj with ⟨rfl, rfl⟩ | ⟨_, hj⟩
      · exact ⟨s, hi, hr⟩
      · exact ⟨t, hj, hr⟩
    intro j k t u r q hj hk hr hq
    obtain ⟨t', hj, hr⟩ := hback hj hr
    obtain ⟨u', hk, hq⟩ := hback hk hq
    exact h.distinct j k t' u' r q hj hk hr hq
  · intro msg hm
    obtain ⟨t, m, granted, owned, call, hsent⟩ := h.messages msg hm
    by_cases he : i = msg.session
    · subst he
      have ht := hsent.sender
      rw [hi] at ht
      cases ht
      obtain ⟨event, rfl⟩ := hold m hsent.holding
      obtain ⟨call', hc, hop, hleft, hstarted⟩ := sent_step event hsent.caller hsent.left
      refine ⟨{ s with holder := .holding (m.step event) }, m.step event, granted, owned, call',
        getElem?_set_of_some hi _, rfl, hsent.reply, hc, hsent.same, ?_, hsent.wall, hleft, ?_, ?_⟩
      · rw [hop]
        exact hsent.request
      · intro record started hd
        exact hsent.started record started ((hstarted record started hd).trans hd)
      · rw [hop]
        exact hsent.renewed
    · refine ⟨t, m, granted, owned, call, hsent.keep hkeep ?_⟩
      exact (List.getElem?_set_ne he).trans hsent.sender

theorem Inv.drive (h : Inv c f) (i : Nat) (event : Event)
    (hreply : ∀ call reply m s granted record started, event = .reply call reply →
      f.sessions[i]? = some s → s.holder = .holding m → s.reply = some ⟨granted, none⟩ →
      m.calls[call]? = some ⟨.renew, .dispatched record started⟩ → reply.err = none →
      Cover c f i s granted (started.wall + s.policy.1.budget)) :
    Inv c (f.drive i event) := by
  unfold Fleet.drive
  split
  next m hm =>
    obtain ⟨s, hi, hholder⟩ := Fleet.holding_of_machine hm
    refine h.setHolder hi ?_ ?_
    · rintro _ ⟨⟩
      obtain ⟨record, hr, hh⟩ := (h.sessions i s hi).holding m hholder
      refine ⟨record, hr, hh.step event ?_⟩
      intro call reply sent started he hc herr
      exact hreply call reply m s record sent started he hi hholder hr hc herr
    · intro m' hm'
      rw [hholder] at hm'
      cases hm'
      exact ⟨event, rfl⟩
  next => exact h

theorem Inv.settle (h : Inv c f) {i : Nat} {s : Session} {holder : Holder}
    (hi : f.sessions[i]? = some s) (hwaiting : s.holder = .waiting)
    (hnew : ∀ m, holder = .holding m → ∃ record, s.reply = some ⟨record, none⟩ ∧
      Holds (Cover c f i s record) s.policy.1 record m) : Inv c (f.setHolder i holder) := by
  apply h.setHolder hi hnew
  intro m hm
  rw [hwaiting] at hm
  cases hm

theorem Inv.fail (h : Inv c f) {i : Nat} {s : Session} (hi : f.sessions[i]? = some s)
    (hwaiting : s.holder = .waiting) (err : Error) : Inv c (f.setHolder i (.failed err)) := by
  apply h.settle hi hwaiting
  intro m hm
  cases hm

theorem Inv.completeAcquire (h : Inv c f) (i : Nat) : Inv c (f.completeAcquire i) := by
  unfold Fleet.completeAcquire
  split
  next key owner policy started record hi =>
    split
    next handle ha =>
      apply h.settle hi rfl
      rintro _ ⟨⟩
      have hg := (h.sessions i _ hi).granted record rfl
      unfold Client.accept at ha
      split at ha
      next =>
        cases ha
        refine ⟨record, rfl, rfl, ⟨rfl, rfl, rfl⟩, hg.2.2, ?_⟩
        intro call hm
        cases hm
      next => cases ha
    next err _ => exact h.fail hi rfl err
  next err hi => exact h.fail hi rfl err
  next => exact h

theorem Inv.abandonAcquire (h : Inv c f) (i : Nat) (err : Error) : Inv c (f.abandonAcquire i err) := by
  unfold Fleet.abandonAcquire
  split
  next hi => exact h.fail hi rfl err
  next => exact h

theorem Inv.dispatch (h : Inv c f) (i n : Nat) (clock : Int) : Inv c (f.dispatch i n clock) := by
  unfold Fleet.dispatch
  split
  next m hm =>
    split
    next op record hc =>
      have hd := h.drive i (.dispatch n ⟨clock, f.now⟩) (fun _ _ _ _ _ _ _ he => by cases he)
      obtain ⟨s, hi, hholder⟩ := Fleet.holding_of_machine hm
      obtain ⟨granted, hr, hh⟩ := (h.sessions i s hi).holding m hholder
      have hstep : m.step (.dispatch n ⟨clock, f.now⟩) =
          { m with calls := m.calls.set n ⟨op, .dispatched record ⟨clock, f.now⟩⟩ } := by
        simp only [Machine.step, Machine.dispatch, hc]
      have hw : f.drive i (.dispatch n ⟨clock, f.now⟩) = { f with
          sessions := f.sessions.set i { s with
            holder := .holding { m with
              calls := m.calls.set n ⟨op, .dispatched record ⟨clock, f.now⟩⟩ } } } := by
        simp only [Fleet.drive, Fleet.setHolder, hm, hi, hstep]
      rw [hw] at hd ⊢
      refine hd.keep ⟨Int.le_refl _, fun _ => Nat.le_refl _, ?_⟩ rfl hd.ok ?_
      · intro j t sent deadline _ _ hcover hmargin hu
        exact hcover hmargin (fun msg hmem => hu msg (List.mem_append_left _ hmem))
      · intro msg hmem
        rcases List.mem_append.mp hmem with hmem | hmem
        · exact .inl hmem
        · obtain rfl := List.mem_singleton.mp hmem
          refine .inr ⟨_, _, granted, record, _, getElem?_set_of_some hi _, rfl, hr,
            getElem?_set_of_some hc _, hh.calls _ (List.mem_of_getElem? hc), ?_, Int.le_refl _, by simp,
            ?_, by simp⟩
          · rw [hh.policy_eq]
          · rintro _ _ ⟨⟩
            rfl
    next => exact h
  next => exact h

theorem unreleased_of_set {msg : Message} {n i : Nat} {reply : Option Reply} {store : σ}
    (hn : f.messages[n]? = some msg)
    (h : Fleet.Unreleased ⟨f.now, store, f.sessions, f.messages.set n { msg with reply }⟩ i) :
    f.Unreleased i := by
  intro sent hmem hsession
  obtain ⟨k, hk⟩ := List.getElem?_of_mem hmem
  by_cases he : n = k
  · subst he
    rw [hn] at hk
    cases hk
    exact h { msg with reply } (List.mem_of_getElem? (getElem?_set_of_some hn _)) hsession
  · exact h sent (List.mem_of_getElem? ((List.getElem?_set_ne he).trans hk)) hsession

theorem request_eq_release {policy : Policy} {owned released : Record} {op : Op} :
    op.request policy owned = .release released ↔ op = .release ∧ owned = released := by
  cases op <;> simp [Op.request]

theorem request_eq_renew {policy : Policy} {owned renewed : Record} {ttl : Int} {op : Op} :
    op.request policy owned = .renew renewed ttl ↔
      op = .renew ∧ owned = renewed ∧ policy.ttl.toInt = ttl := by
  cases op <;> simp [Op.request]

/-- The sender of a message is the only session its request is about. -/
theorem Inv.sender_eq (h : Inv c f) {msg : Message} {s t : Session} {m : Machine} {i : Nat}
    {granted owned record : Record} {call : Invocation} (hsent : Sent c f msg s m granted owned call)
    (hi : f.sessions[i]? = some t) (hr : t.reply = some ⟨record, none⟩)
    (ht : Tied slot record owned) : i = msg.session := by
  refine h.distinct i msg.session t s record granted hi hsent.sender hr hsent.reply ?_ ?_
  · exact ht.1.symm.trans (congrArg slot hsent.same.1)
  · exact ht.2.2.symm.trans hsent.same.2.2

theorem Inv.execute (h : Inv c f) (n : Nat) (ctx : Ctx) : Inv c (f.execute exec n ctx) := by
  unfold Fleet.execute
  split
  next msg hn =>
    split
    next => exact h
    next =>
      obtain ⟨s, m, granted, owned, call, hsent⟩ := h.messages msg (List.mem_of_getElem? hn)
      have hfits : msg.request.Representable := by
        rw [hsent.request]
        exact representable_request s.policy.1 owned call.op
      have hkeep := h.keeps_exec ⟨f.now, ctx, msg.request⟩ f.sessions
        (f.messages.set n { msg with reply := some (exec f.store ⟨f.now, ctx, msg.request⟩).2 }) rfl
        hfits (fun i hu => unreleased_of_set hn hu) ?_ ?_
      · refine h.keep hkeep rfl (c.ok_exec _ h.ok hfits) ?_
        intro sent hmem
        rcases List.mem_or_eq_of_mem_set hmem with hmem | rfl
        · exact .inl hmem
        · refine .inr ⟨s, m, granted, owned, call, hsent.sender, hsent.holding, hsent.reply,
            hsent.caller, hsent.same, hsent.request, hsent.wall, hsent.left, hsent.started, ?_⟩
          intro record hr hop hmargin _
          have hnear := near_of_margin s.policy hsent.wall hmargin
          refine ⟨hnear, fun _ => ?_⟩
          have hrequest : msg.request = .renew owned s.policy.1.ttl.toInt := by
            rw [hsent.request, hop]
            rfl
          rw [hrequest] at hr ⊢
          exact c.renewed _ h.ok rfl (ttl_lt s.policy.1) hsent.same
            (congrArg Reply.err (Option.some.inj hr)) _ hnear
      · intro i t record released hi hr he ht hu
        obtain ⟨-, rfl⟩ := request_eq_release.mp (hsent.request.symm.trans he)
        have hsession := h.sender_eq hsent hi hr ht
        exact hu msg (List.mem_of_getElem? hn) hsession.symm owned he
      · intro i t record renewed ttl hi hr he ht
        obtain ⟨-, rfl, rfl⟩ := request_eq_renew.mp (hsent.request.symm.trans he)
        have hsession := h.sender_eq hsent hi hr ht
        rw [hsession, hsent.sender] at hi
        cases hi
        rfl
  next => exact h

theorem Inv.deliver (h : Inv c f) (n : Nat) : Inv c (f.deliver n) := by
  unfold Fleet.deliver
  split
  next i c wall request reply hn =>
    apply h.drive
    rintro _ _ m s granted record started ⟨⟩ hi hholder hr hc herr
    obtain ⟨s', m', granted', owned, call, hsent⟩ := h.messages _ (List.mem_of_getElem? hn)
    have hs := hsent.sender
    rw [hi] at hs
    cases hs
    have hm := hsent.holding
    rw [hholder] at hm
    cases hm
    have hg := hsent.reply
    rw [hr] at hg
    cases hg
    have hcall := hsent.caller
    rw [hc] at hcall
    cases hcall
    rw [hsent.started record started rfl]
    exact hsent.renewed reply.record (by rw [← herr]) rfl
  next => exact h

theorem Inv.abandon (h : Inv c f) (n : Nat) (err : Error) : Inv c (f.abandon n err) := by
  unfold Fleet.abandon
  split
  next msg hn =>
    apply h.drive
    rintro _ _ m s granted record started ⟨⟩ _ _ _ _ herr
    cases herr
  next => exact h

theorem stamp_ne_reply {now : Int} {event event' : Event} (h : Fleet.stamp now event = some event')
    (call : Nat) (reply : Reply) : event' ≠ .reply call reply := by
  rintro rfl
  cases event <;> cases h

theorem Inv.step (h : Inv c f) (event : Fleet.Event) : Inv c (f.step exec event) := by
  cases event with
  | tick elapsed => exact h.tick elapsed
  | dispatchAcquire key owner policy clock => exact h.dispatchAcquire key owner policy clock
  | executeAcquire session ctx => exact h.executeAcquire session ctx
  | completeAcquire session => exact h.completeAcquire session
  | abandonAcquire session err => exact h.abandonAcquire session err
  | inside session event =>
      simp only [Fleet.step]
      split
      next event' he =>
        apply h.drive
        intro call reply _ _ _ _ _ hr
        exact absurd hr (stamp_ne_reply he call reply)
      next => exact h
  | dispatch session call clock => exact h.dispatch session call clock
  | execute message ctx => exact h.execute message ctx
  | deliver message => exact h.deliver message
  | abandon message err => exact h.abandon message err

theorem inv_start {store : σ} (hok : c.ok store) (now : Int) : Inv c (Fleet.start now store) := by
  refine ⟨hok, ?_, ?_, ?_⟩
  · intro i s hi
    simp [Fleet.start] at hi
  · intro i j s t r q hi
    simp [Fleet.start] at hi
  · intro msg hm
    cases hm

/-- In every run of a fleet, a handle that admits work, whose margin takes up
the slack and that has no Release dispatched is backed beyond the present. -/
theorem Inv.backed (h : Inv c f) {i : Nat} {m : Machine} (ha : f.Admits i m) (hu : f.Unreleased i)
    (hmargin : slack ≤ m.handle.policy.safetyMargin.toInt) :
    ∃ s granted deadline, f.sessions[i]? = some s ∧ s.reply = some ⟨granted, none⟩ ∧
      Continues granted m.handle.record ∧ f.now < deadline ∧ c.backs f.store granted deadline := by
  obtain ⟨hm, clock, hactive⟩ := ha
  obtain ⟨s, hi, hholder⟩ := Fleet.holding_of_machine hm
  obtain ⟨granted, hr, hh⟩ := (h.sessions i s hi).holding m hholder
  obtain ⟨_, _, _, hwall⟩ := m.handle.expireLocked_active hactive
  rw [hh.policy_eq] at hmargin
  exact ⟨s, granted, m.handle.wallDeadline, hi, hr, hh.record, hwall,
    (hh.deadline hmargin hu).backed hwall⟩

/-- If the leases that a store backs at one time in one slot are of one token,
then two handles that admit work so have different slots. -/
theorem Inv.exclusive (h : Inv c f) (hone : ∀ granted other deadline later, c.backs f.store granted deadline →
      c.backs f.store other later → slot granted.key = slot other.key → granted.token = other.token)
    {i j : Nat} {m n : Machine} (ha : f.Admits i m) (hb : f.Admits j n) (hu : f.Unreleased i)
    (hv : f.Unreleased j) (hm : slack ≤ m.handle.policy.safetyMargin.toInt)
    (hn : slack ≤ n.handle.policy.safetyMargin.toInt)
    (hkey : slot n.handle.record.key = slot m.handle.record.key) : j = i := by
  obtain ⟨s, granted, deadline, hi, hr, hsame, _, hbacks⟩ := h.backed ha hu hm
  obtain ⟨t, other, later, hj, hq, hsame', _, hbacks'⟩ := h.backed hb hv hn
  rw [hsame.1, hsame'.1] at hkey
  exact h.distinct j i t s other granted hj hi hq hr hkey (hone other granted later deadline hbacks' hbacks hkey)

theorem inv_run {store : σ} (hok : c.ok store) (now : Int) (events : List Fleet.Event) :
    Inv c (events.foldl (Fleet.step exec) (Fleet.start now store)) :=
  invariant_rule (inv_start hok now) (fun _ event hi => hi.step event) events

end Fleet

end GoLease.Coverage
