import GoLease.Orchestration.Outcome
import GoLease.Orchestration.Release
import GoLease.Overlap.System

namespace GoLease.Overlap

open Orchestration (Run)
open Lifecycle Traces Pool Memory Memory.Store Memory.History Memory.Superseded Coverage

section Machine

/-- The fact holds as soon as the store has answered a Release of this handle
with success. -/
def Acknowledges (L : Prop) (m : Machine) : Prop :=
  (∀ call ∈ m.calls, call.op = .release → ∀ record started reply,
    call.stage = .replied record started reply → reply.err = none → L) ∧
  (m.handle.state = .released → L)

variable {L : Prop} {m m' : Machine} {e : Lifecycle.Event}

theorem Acknowledges.stepped (h : Acknowledges L m) (hs : Stepped m e m')
    (hreply : ∀ call reply, e ≠ .reply call reply) : Acknowledges L m' := by
  obtain ⟨hcalls, hstate⟩ := h
  cases hs with
  | idle _ hi renewers =>
      obtain ⟨state, managed, rfl, hidle⟩ := hi
      refine ⟨hcalls, ?_⟩
      intro hr
      rcases hidle with he | ⟨_, he⟩
      · exact hstate (he.symm.trans hr)
      · exact absurd (he.symm.trans hr) nofun
  | @invoked _ op reading handle admission hs renewers =>
      refine ⟨forall_mem_append hcalls ?_, ?_⟩
      · intro _ record started reply hst
        cases admission <;> cases hst
      · cases hs with
        | refused | already | admitted | releasing => exact hstate
        | expired =>
            intro hr
            rcases m.handle.expireLocked_eq reading with he | ⟨_, he⟩
            · rw [he] at hr
              exact hstate hr
            · rw [he] at hr
              cases hr
  | dispatched reading hc =>
      refine ⟨forall_mem_set hcalls ?_, hstate⟩
      intro _ record started reply hst
      cases hst
  | replied reply hc => exact absurd rfl (hreply _ reply)
  | finished hc hf =>
      refine ⟨forall_mem_set hcalls ?_, ?_⟩
      · intro _ record started reply hst
        cases hst
      · cases hf with
        | closed _ state _ _ hedge =>
            intro hr
            rcases hedge with he | ⟨_, he | he | he⟩
            · exact hstate (he.symm.trans hr)
            · exact absurd (he.symm.trans hr) nofun
            · exact absurd (he.symm.trans hr) nofun
            · exact absurd (he.symm.trans hr) nofun
        | renewed | confirmed => exact hstate
        | released hok =>
            intro _
            exact hcalls _ (List.mem_of_getElem? hc) rfl _ _ _ rfl hok

/-- While a call waits for the store no Release has been answered, so the fact
may be a new one. -/
theorem acknowledges_reply (h : Lifecycle.Inv m) {call : Nat} {op : Op} {record : Record}
    {started : Reading} {reply : Reply} (hc : m.calls[call]? = some ⟨op, .dispatched record started⟩)
    (hL : op = .release → reply.err = none → L) : Acknowledges L (m.step (.reply call reply)) := by
  simp only [Machine.step, Machine.reply, hc]
  refine ⟨?_, ?_⟩
  · intro other hm hop _ _ _ hst hok
    obtain ⟨k, hk⟩ := List.mem_iff_getElem?.mp hm
    rcases getElem?_set_cases hk with ⟨_, rfl⟩ | ⟨hne, hk⟩
    · cases hst
      exact hL hop hok
    · have hflight : other.inFlight = true := by
        rw [Invocation.inFlight, hst]
      exact absurd (h.inFlight_unique hc rfl hk hflight).symm hne
  · intro hr
    rcases h.opened (h.busy_of_inFlight hc rfl) with ho | ho
    · rw [ho] at hr
      cases hr
    · rw [ho] at hr
      cases hr

end Machine

/-- The store has executed an attempt of this run here, with this answer. -/
def Attempted (log : List Entry) (i : Nat) (key : Key) (position : Nat) (reply : Reply) : Prop :=
  ∃ call owner ttl, log[position]? = some ⟨some i, call, reply⟩ ∧ call.request = .tryAcquire key owner ttl

/-- The store has acknowledged the Release of this run, after its acquisition. -/
def Released (log : List Entry) (i : Nat) (m : Member) (record : Record) : Prop :=
  ∃ a r call reply owned, m.acquiredAt = some a ∧ m.releasedAt = some r ∧ a < r ∧
    log[r]? = some ⟨some i, call, reply⟩ ∧ call.request = .release owned ∧ Continues record owned ∧
    reply.err = none

structure MemberOk (log : List Entry) (i : Nat) (m : Member) : Prop where
  run : Orchestration.Inv m.run
  acked : Orchestration.Acked m.run
  attempt : ∀ attempt, m.attempt = some attempt → m.run.phase = .acquiring ∧
    Attempted log i m.key attempt.position attempt.reply
  acquired : ∀ record, m.run.results.acquire = some (.ok record) →
    ∃ a, m.acquiredAt = some a ∧ Attempted log i m.key a ⟨record, none⟩
  released : ∀ record site, m.run.results.acquire = some (.ok record) → m.run.site = some site →
    Acknowledges (Released log i m record) site.machine

section Members

variable {log : List Entry} {i : Nat} {m : Member}

theorem Acknowledges.mono {L L' : Prop} {m : Machine} (h : Acknowledges L m) (hL : L → L') :
    Acknowledges L' m :=
  ⟨fun call hc hop record started reply hst hok => hL (h.1 call hc hop record started reply hst hok),
    fun hr => hL (h.2 hr)⟩

theorem Attempted.concat {key : Key} {position : Nat} {reply : Reply}
    (h : Attempted log i key position reply) (entry : Entry) :
    Attempted (log ++ [entry]) i key position reply := by
  obtain ⟨call, owner, ttl, hl, hrequest⟩ := h
  exact ⟨call, owner, ttl, getElem?_append_of_some hl _, hrequest⟩

theorem Released.concat {record : Record} (h : Released log i m record) (entry : Entry) :
    Released (log ++ [entry]) i m record := by
  obtain ⟨a, r, call, reply, owned, ha, hr, hlt, hl, hrest⟩ := h
  exact ⟨a, r, call, reply, owned, ha, hr, hlt, getElem?_append_of_some hl _, hrest⟩

theorem MemberOk.concat (h : MemberOk log i m) (entry : Entry) : MemberOk (log ++ [entry]) i m := by
  refine ⟨h.run, h.acked, ?_, ?_, ?_⟩
  · intro attempt ha
    obtain ⟨hphase, hattempt⟩ := h.attempt attempt ha
    exact ⟨hphase, hattempt.concat entry⟩
  · intro record hr
    obtain ⟨a, ha, hattempt⟩ := h.acquired record hr
    exact ⟨a, ha, hattempt.concat entry⟩
  · intro record site hr hs
    exact (h.released record site hr hs).mono (fun hl => hl.concat entry)

theorem memberOk_start (policy : Policy) (key : Key) :
    MemberOk log i ⟨key, Orchestration.start policy, none, none, none⟩ := by
  refine ⟨Orchestration.inv_start policy, Orchestration.acked_start policy, ?_, ?_, ?_⟩
  · intro attempt ha
    cases ha
  · intro record hr
    cases hr
  · intro record site hr
    cases hr

/-- A run that is still inside Acquire has nothing yet. -/
theorem acquiring_cases {s : Run} (h : Orchestration.Inv s) (hphase : s.phase = .acquiring) :
    s.site = none ∧ s.watcher = none ∧ s.results.acquire = none := by
  cases h with
  | acquiring _ hsite hwatcher _ hresults => exact ⟨hsite, hwatcher, by rw [hresults]⟩
  | failed hreturned =>
      rw [hphase] at hreturned
      cases hreturned
  | held _ hp =>
      rw [Orchestration.PhaseOk, hphase] at hp
      exact hp.elim

theorem site_of_acquired {s : Run} (h : Orchestration.Inv s) {record : Record}
    (hr : s.results.acquire = some (.ok record)) :
    ∃ site, s.site = some site ∧ Coverage.Holds (fun _ => True) s.policy record site.machine := by
  cases h with
  | acquiring _ _ _ _ hresults | failed _ _ _ _ hresults =>
      rw [hresults] at hr
      cases hr
  | held hheld =>
      rw [hheld.acquire] at hr
      cases hr
      exact ⟨_, hheld.site_eq, hheld.holds⟩

theorem MemberOk.retry (h : MemberOk log i m) : MemberOk log i m.retry := by
  unfold Member.retry
  split
  next => exact ⟨h.run, h.acked, nofun, h.acquired, h.released⟩
  next => exact h

/-- Acquire fails, or it had returned before. -/
theorem MemberOk.fail (h : MemberOk log i m) (err : Error) :
    MemberOk log i { m with run := m.run.step (.acquired (.error err)), attempt := none } := by
  have hrun := h.run.step (.acquired (.error err))
  have hacked := h.acked.step h.run (.acquired (.error err))
  have ht := Orchestration.step_took m.run (.acquired (.error err))
  generalize m.run.step (.acquired (.error err)) = run at hrun hacked ht ⊢
  cases ht with
  | same => exact ⟨h.run, h.acked, nofun, h.acquired, h.released⟩
  | failed =>
      refine ⟨hrun, hacked, nofun, ?_, ?_⟩
      · intro record hr
        cases hr
      · intro record site hr
        cases hr

theorem MemberOk.giveUp (h : MemberOk log i m) (err : Error) : MemberOk log i (m.giveUp err) := by
  unfold Member.giveUp
  split
  next => exact h.fail err
  next => exact h

theorem MemberOk.accept (h : MemberOk log i m) : MemberOk log i m.accept := by
  unfold Member.accept
  split
  next owner started position record hattempt =>
    obtain ⟨hphase, hat⟩ := h.attempt _ hattempt
    split
    next =>
      have hrun := h.run.step (.acquired (.ok (record, started)))
      have hacked := h.acked.step h.run (.acquired (.ok (record, started)))
      have hstep : m.run.step (.acquired (.ok (record, started))) = { m.run with
          site := some (.new m.run.policy record started)
          phase := .acquired
          results := { m.run.results with acquire := some (.ok record) } } := by
        simp only [Run.step, Run.acquired, hphase]
      rw [hstep] at hrun hacked ⊢
      refine ⟨hrun, hacked, by simp, ?_, ?_⟩
      · rintro _ ⟨⟩
        exact ⟨position, rfl, hat⟩
      · rintro _ _ ⟨⟩ ⟨⟩
        refine ⟨?_, ?_⟩
        · intro call hc
          cases hc
        · intro hr
          cases hr
    next err _ => exact h.fail err
  next => exact h

theorem MemberOk.inside (h : MemberOk log i m) (event : Orchestration.Event) :
    MemberOk log i (m.inside event) := by
  unfold Member.inside
  split
  next hlocal =>
    have hevent (result : Except Error (Record × Reading)) : event ≠ .acquired result := by
      rintro rfl
      cases hlocal
    have hacquire := (Orchestration.step_recorded m.run event).acquire hevent
    refine ⟨h.run.step event, h.acked.step h.run event, ?_, ?_, ?_⟩
    · intro attempt ha
      obtain ⟨hphase, hattempt⟩ := h.attempt attempt ha
      obtain ⟨hsite, hwatcher, _⟩ := acquiring_cases h.run hphase
      refine ⟨?_, hattempt⟩
      have hb := Orchestration.step_begun hsite hwatcher (.inl hphase) event
      dsimp only
      generalize m.run.step event = run at hb ⊢
      cases hb with
      | same | cancelled => exact hphase
      | failed | acquired => exact absurd rfl (hevent _)
    · intro record hr
      exact h.acquired record (hacquire.symm.trans hr)
    · intro record site hr hs
      have hr : m.run.results.acquire = some (.ok record) := hacquire.symm.trans hr
      obtain ⟨before, hbefore, _⟩ := site_of_acquired h.run hr
      obtain ⟨after, e, hafter, hstepped, hreply⟩ := Orchestration.step_site h.run hbefore event
      rw [hafter] at hs
      cases hs
      refine (h.released record before hr hbefore).stepped hstepped ?_
      rintro call reply rfl
      rw [hreply call reply rfl] at hlocal
      cases hlocal
  next => exact h

theorem sent_eq_some {call : Nat} {op : Op} {record : Record} (h : m.sent call = some (op, record)) :
    ∃ site started, m.run.site = some site ∧
      site.machine.calls[call]? = some ⟨op, .dispatched record started⟩ := by
  unfold Member.sent at h
  split at h
  next site hsite =>
    split at h
    next started hc =>
      cases h
      exact ⟨site, started, hsite, hc⟩
    next => cases h
  next => cases h

/-- A run that has sent a call has acquired the record that the call names. -/
theorem MemberOk.sent (h : MemberOk log i m) {call : Nat} {op : Op} {record : Record}
    (hsent : m.sent call = some (op, record)) :
    ∃ granted, m.run.results.acquire = some (.ok granted) ∧ Continues granted record := by
  obtain ⟨site, started, hsite, hc⟩ := sent_eq_some hsent
  have hrun := h.run
  cases hrun with
  | acquiring _ hnone | failed _ hnone =>
      rw [hsite] at hnone
      cases hnone
  | held hheld =>
      rw [hheld.site_eq] at hsite
      cases hsite
      exact ⟨_, hheld.acquire, hheld.holds.calls _ (List.mem_of_getElem? hc)⟩

theorem Attempted.lt {key : Key} {position : Nat} {reply : Reply}
    (h : Attempted log i key position reply) : position < log.length := by
  obtain ⟨_, _, _, hl, _⟩ := h
  exact (List.getElem?_eq_some_iff.mp hl).1

theorem reply_site {s : Run} {site : Capacity.Site} (hs : s.site = some site) (call : Nat) (reply : Reply) :
    (s.step (.atSite (.inside (.reply call reply)))).site =
      some { site with machine := site.machine.step (.reply call reply) } := by
  simp only [Run.step, Run.atSite, Capacity.Site.Event.own, if_true, hs, Option.map_some,
    Capacity.Site.step, Capacity.Site.inside, Capacity.Site.admits]

/-- The answer of the store reaches the handle; that of a Release is noted. -/
theorem MemberOk.reply (h : MemberOk log i m) {call : Nat} {op : Op} {record : Record} {request : Call}
    {reply : Reply} (hsent : m.sent call = some (op, record))
    (hrequest : request.request = op.request m.run.policy record) :
    MemberOk (log ++ [⟨some i, request, reply⟩]) i { m with
      run := m.run.step (.atSite (.inside (.reply call reply)))
      releasedAt := if op = .release then some log.length else m.releasedAt } := by
  obtain ⟨site, started, hsite, hc⟩ := sent_eq_some hsent
  obtain ⟨granted, hgranted, hcontinues⟩ := h.sent hsent
  have hacquire := (Orchestration.step_recorded m.run (.atSite (.inside (.reply call reply)))).acquire nofun
  rw [hgranted] at hacquire
  have hrun := h.run.step (.atSite (.inside (.reply call reply)))
  have hacked := h.acked.step h.run (.atSite (.inside (.reply call reply)))
  refine ⟨hrun, hacked, ?_, ?_, ?_⟩
  · intro attempt ha
    obtain ⟨hphase, _⟩ := h.attempt attempt ha
    rw [(acquiring_cases h.run hphase).1] at hsite
    cases hsite
  · intro record' hr
    rw [hacquire] at hr
    cases hr
    obtain ⟨a, ha, hattempt⟩ := h.acquired granted hgranted
    exact ⟨a, ha, hattempt.concat _⟩
  · intro record' site' hr hs
    rw [hacquire] at hr
    cases hr
    rw [reply_site hsite] at hs
    cases hs
    apply acknowledges_reply (h.acked.lifecycle site hsite) hc
    rintro rfl hok
    obtain ⟨a, ha, hattempt⟩ := h.acquired granted hgranted
    exact ⟨a, log.length, request, reply, record, ha, rfl, hattempt.lt, List.getElem?_concat_length,
      hrequest, hcontinues, hok⟩

end Members

structure Inv (store : Memory.Store) (s : System) : Prop where
  store_eq : s.store = stateAt store s.log s.log.length
  answered : Answered store s.log
  members : ∀ (i : Nat) m, s.members[i]? = some m → MemberOk s.log i m

section Steps

variable {store : Memory.Store} {s : System} {i : Nat} {m : Member}

theorem inv_start (store : Memory.Store) : Inv store (start store) := by
  refine ⟨rfl, ?_, ?_⟩
  · intro n entry hn
    cases hn
  · intro i m hi
    cases hi

theorem Inv.serve (h : Inv store s) (who : Option Nat) (call : Call) : Inv store (s.serve who call) := by
  refine ⟨?_, ?_, ?_⟩
  · simp only [System.serve, List.length_append, List.length_singleton]
    rw [stateAt_succ List.getElem?_concat_length, stateAt_append (Nat.le_refl _), ← h.store_eq]
  · apply h.answered.concat
    rw [← h.store_eq]
  · intro i m hi
    exact (h.members i m hi).concat _

theorem Inv.setMember (h : Inv store s) {m : Member} (hm : MemberOk s.log i m) :
    Inv store { s with members := s.members.set i m } := by
  refine ⟨h.store_eq, h.answered, ?_⟩
  intro j n hj
  rcases getElem?_set_cases hj with ⟨rfl, rfl⟩ | ⟨_, hj⟩
  · exact hm
  · exact h.members j n hj

theorem Inv.update (h : Inv store s) (i : Nat) {change : Member → Member}
    (hchange : ∀ m, MemberOk s.log i m → MemberOk s.log i (change m)) :
    Inv store (s.update i change) := by
  unfold System.update
  split
  next m hi => exact h.setMember (hchange m (h.members i m hi))
  next => exact h

theorem Inv.tryAcquire (h : Inv store s) (i : Nat) (owner : Bytes) (started : Reading) (now : Int)
    (ctx : Ctx) : Inv store (s.tryAcquire i owner started now ctx) := by
  unfold System.tryAcquire
  split
  next m hi =>
    split
    next hfree =>
      have hserve := h.serve (some i) ⟨now, ctx, .tryAcquire m.key owner m.run.policy.ttl.toInt⟩
      apply hserve.setMember
      have hm := hserve.members i m hi
      refine ⟨hm.run, hm.acked, ?_, hm.acquired, hm.released⟩
      rintro _ ⟨⟩
      exact ⟨hfree.1, _, owner, _, List.getElem?_concat_length, rfl⟩
    next => exact h
  next => exact h

theorem Inv.execute (h : Inv store s) (i call : Nat) (now : Int) (ctx : Ctx) :
    Inv store (s.execute i call now ctx) := by
  unfold System.execute
  split
  next m hi =>
    split
    next op record hsent =>
      apply (h.serve (some i) ⟨now, ctx, op.request m.run.policy record⟩).setMember
      exact (h.members i m hi).reply hsent rfl
    next => exact h
  next => exact h

theorem Inv.step (h : Inv store s) (event : Event) : Inv store (s.step event) := by
  cases event with
  | other call => exact h.serve none call
  | launch policy key =>
      refine ⟨h.store_eq, h.answered, ?_⟩
      intro i m hi
      rcases getElem?_concat hi with hi | ⟨_, rfl⟩
      · exact h.members i m hi
      · exact memberOk_start policy key
  | tryAcquire i owner started now ctx => exact h.tryAcquire i owner started now ctx
  | accept i => exact h.update i (fun _ hm => hm.accept)
  | retry i => exact h.update i (fun _ hm => hm.retry)
  | giveUp i err => exact h.update i (fun _ hm => hm.giveUp err)
  | inside i event => exact h.update i (fun _ hm => hm.inside event)
  | execute i call now ctx => exact h.execute i call now ctx

end Steps

/-- The store granted this run its key, and acknowledged its Release later, and
nothing else acquired the key in between. -/
def Certified (log : List Entry) (i : Nat) (m : Member) : Prop :=
  ∃ a r, m.acquiredAt = some a ∧ m.releasedAt = some r ∧ a < r ∧
    (∃ call reply, log[a]? = some ⟨some i, call, reply⟩ ∧ granted m.key (call, reply) = true) ∧
    (∃ call reply owned, log[r]? = some ⟨some i, call, reply⟩ ∧ call.request = .release owned ∧
      owned.key = m.key ∧ reply.err = none) ∧
    ∀ (j : Nat) entry, a < j → j < r → log[j]? = some entry →
      granted m.key (entry.call, entry.reply) = false

section Results

variable {maxKeys : Nat} {store : Memory.Store} {s : System} {i : Nat} {m : Member}

theorem Attempted.granted_at {log : List Entry} {position : Nat} {key : Key} {record : Record}
    (h : Attempted log i key position ⟨record, none⟩) :
    ∃ call, log[position]? = some ⟨some i, call, ⟨record, none⟩⟩ ∧
      granted key (call, ⟨record, none⟩) = true := by
  obtain ⟨call, owner, ttl, hl, hrequest⟩ := h
  refine ⟨call, hl, ?_⟩
  simp only [granted, hrequest, beq_self_eq_true, Option.isNone_none, Bool.and_self]

theorem Inv.certified (h : Inv store s) (hnew : new maxKeys = .ok store) (hi : s.members[i]? = some m)
    (hnil : m.run.phase = .returned none) : Certified s.log i m := by
  have hm := h.members i m hi
  obtain ⟨⟨record, hacquire⟩, _, _, hrelease, _⟩ := (hm.run.outcome hnil).nil_iff.mp rfl
  obtain ⟨site, hsite, hreleased⟩ := hm.acked.released hrelease
  obtain ⟨a, r, call, reply, owned, ha, hr, hlt, hlast, hrequest, hcontinues, hok⟩ :=
    (hm.released record site hacquire hsite).2 hreleased
  obtain ⟨a', ha', hattempt⟩ := hm.acquired record hacquire
  rw [ha] at ha'
  cases ha'
  obtain ⟨first, hfirst, hgrant⟩ := hattempt.granted_at
  have hkey : record.key = m.key := by
    have hanswer := h.answered a _ hfirst
    dsimp only at hanswer
    rw [hanswer] at hgrant
    have hgranted := (exec_granted (fence_stateAt_max hnew a) hgrant).1
    exact (congrArg (fun reply => reply.record.key) hanswer).trans hgranted
  refine ⟨a, r, ha, hr, hlt, ⟨first, _, hfirst, hgrant⟩,
    ⟨call, reply, owned, hlast, hrequest, hcontinues.1.trans hkey, hok⟩, ?_⟩
  intro j entry haj hjr hj
  exact h.answered.no_grant_between hnew hfirst hgrant hlast hrequest hok (hcontinues.1.trans hkey)
    hcontinues.2.2 hj haj hjr

/-- The grant of another run is not inside the interval of a certified one. -/
theorem Certified.after {log : List Entry} {j a a' r : Nat} (h : Certified log i m)
    (ha : m.acquiredAt = some a) (hr : m.releasedAt = some r) (hne : i ≠ j) {call : Call} {reply : Reply}
    (hother : log[a']? = some ⟨some j, call, reply⟩) (hgrant : granted m.key (call, reply) = true)
    (hlt : a < a') : r < a' := by
  obtain ⟨_, _, ha₀, hr₀, _, _, ⟨_, _, _, hlast, _⟩, hnone⟩ := h
  rw [ha] at ha₀
  rw [hr] at hr₀
  cases ha₀
  cases hr₀
  rcases Nat.lt_trichotomy r a' with hlt' | rfl | hgt
  · exact hlt'
  · rw [hlast] at hother
    cases hother
    exact absurd rfl hne
  · have hno := hnone a' _ hlt hgt hother
    dsimp only at hno
    rw [hgrant] at hno
    cases hno

end Results

/-- A successful run certifies non-overlap. Whatever other runs and clients do
over the store and whatever its clock reads, nothing else acquires the key of a
run that returned nil between the store's grant and its release, so two such
runs on one key have disjoint intervals. -/
theorem successful_run_certifies {maxKeys : Nat} {store : Memory.Store} (hnew : new maxKeys = .ok store)
    (events : List Event) :
    let s := events.foldl System.step (start store)
    (∀ (i : Nat) m, s.members[i]? = some m → m.run.phase = .returned none → Certified s.log i m) ∧
    (∀ (i j : Nat) m n, i ≠ j → s.members[i]? = some m → s.members[j]? = some n →
      m.run.phase = .returned none → n.run.phase = .returned none → m.key = n.key →
      ∃ a r a' r', m.acquiredAt = some a ∧ m.releasedAt = some r ∧ n.acquiredAt = some a' ∧
        n.releasedAt = some r' ∧ a < r ∧ a' < r' ∧ (r < a' ∨ r' < a)) := by
  intro s
  have h : Inv store s := invariant_rule (inv_start store) (fun _ event hs => hs.step event) events
  refine ⟨fun i m hi hnil => h.certified hnew hi hnil, ?_⟩
  intro i j m n hne hi hj hm hn hkey
  have hfirst := h.certified hnew hi hm
  have hsecond := h.certified hnew hj hn
  obtain ⟨a, r, ha, hr, hlt, ⟨call, reply, hat, hgrant⟩, _⟩ := id hfirst
  obtain ⟨a', r', ha', hr', hlt', ⟨call', reply', hat', hgrant'⟩, _⟩ := id hsecond
  refine ⟨a, r, a', r', ha, hr, ha', hr', hlt, hlt', ?_⟩
  rcases Nat.lt_trichotomy a a' with hbefore | rfl | hafter
  · rw [← hkey] at hgrant'
    exact .inl (hfirst.after ha hr hne hat' hgrant' hbefore)
  · rw [hat] at hat'
    cases hat'
    exact absurd rfl hne
  · rw [hkey] at hgrant
    exact .inr (hsecond.after ha' hr' (Ne.symm hne) hat hgrant hafter)

/-- The release of a run without renewal, from the return of its callback on. -/
def finishes (i : Nat) (now : Int) : List Event :=
  [.inside i (.callbackReturned none), .inside i (.release ⟨now, now⟩),
    .inside i (.atSite (.inside (.dispatch 0 ⟨now, now⟩))), .execute i 0 now none,
    .inside i (.atSite (.inside (.finish 0 ⟨now, now⟩))), .inside i .collect]

def unrenewed : Policy.Accepted :=
  ⟨_, { ttl := 1000, safetyMargin := 100, maxAttempts := 2 }, rfl⟩

/-- The second run is refused while the first holds the key. -/
def contention : List Event :=
  [.launch unrenewed.1 ⟨[107]⟩, .launch unrenewed.1 ⟨[107]⟩, .tryAcquire 0 [97] ⟨5, 5⟩ 5 none, .accept 0,
    .inside 0 .call, .tryAcquire 1 [98] ⟨6, 6⟩ 6 none, .retry 1] ++ finishes 0 20 ++
  [.tryAcquire 1 [98] ⟨30, 30⟩ 30 none, .accept 1, .inside 1 .call] ++ finishes 1 40

theorem successful_runs_in_turn :
    let s := contention.foldl System.step (start ⟨1, ∅⟩)
    ∃ m n a r a' r', s.members[0]? = some m ∧ s.members[1]? = some n ∧ m.run.phase = .returned none ∧
      n.run.phase = .returned none ∧ m.acquiredAt = some a ∧ m.releasedAt = some r ∧
      n.acquiredAt = some a' ∧ n.releasedAt = some r' ∧ (r < a' ∨ r' < a) := by
  intro s
  have hm : ∃ m, s.members[0]? = some m ∧ m.run.phase = .returned none ∧ m.key = ⟨[107]⟩ :=
    ⟨_, rfl, rfl, rfl⟩
  have hn : ∃ n, s.members[1]? = some n ∧ n.run.phase = .returned none ∧ n.key = ⟨[107]⟩ :=
    ⟨_, rfl, rfl, rfl⟩
  obtain ⟨m, hi, hm, hmkey⟩ := hm
  obtain ⟨n, hj, hn, hnkey⟩ := hn
  obtain ⟨a, r, a', r', ha, hr, ha', hr', _, _, hdisjoint⟩ :=
    (@successful_run_certifies 1 _ rfl contention).2 0 1 m n (by decide) hi hj hm hn
      (hmkey.trans hnkey.symm)
  exact ⟨m, n, a, r, a', r', hi, hj, hm, hn, ha, hr, ha', hr', hdisjoint⟩

end GoLease.Overlap
