import GoLease.Client
import GoLease.Lifecycle

/-!
The identity of a handle: what no reply of any backend can change about the
record it was opened with.
-/

namespace GoLease.Identity

open Lifecycle Traces Pool

def snapshot (handle : Handle) : Record := handle.record

/-- The record is one of the acquisition that was granted with this record. -/
structure Belongs (key : Key) (owner : Bytes) (granted record : Record) : Prop where
  key : record.key = key
  owner : record.owner = owner
  token : record.token = granted.token
  acquiredAt : record.acquiredAt = granted.acquiredAt
  ordered : record.acquiredAt < record.expiresAt

theorem sameAcquisition_iff {current next : Record} : sameAcquisition current next = true ↔
    next.key = current.key ∧ next.owner = current.owner ∧ next.token = current.token ∧
      next.acquiredAt = current.acquiredAt ∧ next.acquiredAt < next.expiresAt := by
  obtain ⟨⟨value⟩, owner, token, acquiredAt, expiresAt⟩ := current
  obtain ⟨⟨value'⟩, owner', token', acquiredAt', expiresAt'⟩ := next
  simp only [sameAcquisition, Bool.and_eq_true, beq_iff_eq, decide_eq_true_eq, Key.mk.injEq, and_assoc]
  constructor
  · rintro ⟨rfl, rfl, rfl, rfl, h⟩
    exact ⟨rfl, rfl, rfl, rfl, h⟩
  · rintro ⟨rfl, rfl, rfl, rfl, h⟩
    exact ⟨rfl, rfl, rfl, rfl, h⟩

section Acquisition

open Client

variable {key : Key} {owner : Bytes} {policy : Policy}

theorem accept_refuses {started : Reading} {record : Record} (h : ¬Answers key owner record) :
    accept key owner policy started record = .error (wrap .errAmbiguousOutcome "acquire response") :=
  if_neg (fun hvalid => h (validAcquisition_iff.mp hvalid))

/-- A successful response that is not one to the request ends either method
of the client, at whatever attempt it comes. -/
structure Refuses (key : Key) (owner : Bytes) (policy : Policy) : Prop where
  tryAcquire : ∀ {ctx : Option Ctx} {source : Except Error Bytes} (started : Reading)
    {backend : Bytes → Reply}, acquisitionContextError ctx = none → newOwner source = .ok owner →
    (backend owner).err = none → ¬Answers key owner (backend owner).record →
    ∃ err, Client.tryAcquire ctx source key policy started backend = .error err ∧
      err.is .errAmbiguousOutcome = true
  acquire : ∀ {ctx : Option Ctx} {slot : Bool} {source : Except Error Bytes} {clock : Int}
    {attempts : Nat → Attempt} {r : Acquisition}, newOwner source = .ok owner →
    Client.acquire ctx slot source key policy clock attempts = some r →
    ∀ n, 0 < n → n ≤ r.calls → (attempts n).reply.err = none →
      ¬Answers key owner (attempts n).reply.record →
      ∃ err, r.result = .error err ∧ err.is .errAmbiguousOutcome = true

theorem refuses : Refuses key owner policy where
  tryAcquire := by
    intro ctx source started backend hctx hsource herr hother
    refine ⟨wrap .errAmbiguousOutcome "acquire response", ?_, rfl⟩
    unfold Client.tryAcquire
    rw [hctx, hsource]
    dsimp only
    rw [herr]
    exact accept_refuses hother
  acquire := by
    intro ctx slot source clock attempts r hsource hr n hn hle herr hother
    refine ⟨wrap .errAmbiguousOutcome "acquire response", ?_, rfl⟩
    rcases acquire_loop hr with ⟨hcalls, -⟩ | ⟨owner', howner, hloop⟩
    · omega
    · cases hsource.symm.trans howner
      have hlast : n = r.calls := by
        apply Nat.le_antisymm hle
        apply Nat.le_of_not_lt
        intro hlt
        obtain ⟨err, hsome, -⟩ := ((loop_retries hloop).2.2 n hn hlt).contended
        rw [herr] at hsome
        cases hsome
      subst hlast
      have hdone := loop_result hloop
      unfold iteration at hdone
      rw [herr] at hdone
      rw [← Verdict.done.inj hdone]
      exact accept_refuses hother

end Acquisition

section Machine

open Client (Answers Obtained)

variable {key : Key} {owner : Bytes} {granted : Record} {m : Machine}

theorem Belongs.same_iff {record next : Record} (h : Belongs key owner granted record) :
    sameAcquisition record next = true ↔ Belongs key owner granted next := by
  rw [sameAcquisition_iff, h.key, h.owner, h.token, h.acquiredAt]
  constructor
  · rintro ⟨hkey, howner, htoken, hacquired, hordered⟩
    exact ⟨hkey, howner, htoken, hacquired, hordered⟩
  · exact fun hn => ⟨hn.key, hn.owner, hn.token, hn.acquiredAt, hn.ordered⟩

/-- The record a call sends. -/
def sent (call : Invocation) : Option Record :=
  match call.stage with
  | .reserved record | .dispatched record _ | .replied record _ _ => some record
  | .returned _ => none

structure Inv (key : Key) (owner : Bytes) (granted : Record) (m : Machine) : Prop where
  held : Belongs key owner granted m.handle.record
  calls : ∀ call ∈ m.calls, ∀ record, sent call = some record → Belongs key owner granted record

theorem Inv.step (h : Inv key owner granted m) (event : Event) :
    Inv key owner granted (m.step event) := by
  have hs := step_stepped m event
  generalize m.step event = m' at hs ⊢
  cases hs with
  | idle event hi renewers =>
      obtain ⟨state, managed, rfl, -⟩ := hi
      exact ⟨h.held, h.calls⟩
  | @invoked event op reading handle admission hs renewers =>
      cases hs with
      | refused | already => exact ⟨h.held, forall_mem_append h.calls nofun⟩
      | expired =>
          obtain ⟨state, managed, he, -⟩ := idles_expireLocked m.handle reading
          rw [he]
          exact ⟨h.held, forall_mem_append h.calls nofun⟩
      | admitted | releasing =>
          refine ⟨h.held, forall_mem_append h.calls ?_⟩
          intro record hsent
          cases hsent
          exact h.held
  | dispatched reading hc =>
      have hcall := h.calls _ (List.mem_of_getElem? hc)
      exact ⟨h.held, forall_mem_set h.calls hcall⟩
  | replied reply hc =>
      have hcall := h.calls _ (List.mem_of_getElem? hc)
      exact ⟨h.held, forall_mem_set h.calls hcall⟩
  | finished hc hf =>
      have hsent := h.calls _ (List.mem_of_getElem? hc) _ rfl
      have hcalls (call : Nat) (op : Op) (err : Option Error) := forall_mem_set (i := call)
        (b := (⟨op, .returned err⟩ : Invocation)) h.calls nofun
      cases hf with
      | closed | released => exact ⟨h.held, hcalls _ _ _⟩
      | renewed hreply hsame => exact ⟨hsent.same_iff.mp hsame, hcalls _ _ _⟩
      | confirmed op hop hreply hsame => exact ⟨hsent.same_iff.mp hsame, hcalls _ _ _⟩

theorem inv_newHandleAt (h : Client.Answers key owner granted) (policy : Policy) (started : Reading) :
    Inv key owner granted (initial (Handle.newHandleAt policy granted started)) where
  held := ⟨h.key, h.owner, rfl, rfl, h.ordered⟩
  calls _ hmem := absurd hmem List.not_mem_nil

theorem inv_obtained {policy : Policy} {started : Reading} {handle : Handle}
    (h : Obtained key owner policy granted started handle) : Inv key owner granted (initial handle) := by
  obtain ⟨hvalid, rfl⟩ := h.accepted
  exact inv_newHandleAt (Client.validAcquisition_iff.mp hvalid) policy started

/-- How Renew and Validate report a success that is not of this acquisition. -/
def mismatch : Op → Sentinel
  | .renew => .errAmbiguousOutcome
  | .validate | .release => .errBackendUnavailable

theorem replyErr_mismatch {record : Record} {reply : Reply} {op : Op} (hop : op ≠ .release)
    (herr : reply.err = none) (h : sameAcquisition record reply.record = false) :
    ∃ err, Handle.replyErr record reply op = some err ∧ err.is (mismatch op) = true := by
  cases op with
  | renew | validate =>
      simp only [Handle.replyErr]
      rw [if_pos ⟨herr, by simp [h]⟩]
      exact ⟨_, rfl, rfl⟩
  | release => exact absurd rfl hop

theorem Inv.mismatched (h : Inv key owner granted m) {call : Nat} {op : Op} {record : Record}
    {started : Reading} {reply : Reply} (hc : m.calls[call]? = some ⟨op, .replied record started reply⟩)
    (hop : op ≠ .release) (herr : reply.err = none) (hother : ¬Belongs key owner granted reply.record)
    (reading : Reading) :
    ∃ err state, err.is (mismatch op) = true ∧ state ≠ .active ∧
      m.step (.finish call reading) =
        { m with
          handle := { m.handle with busy := false, state }
          calls := m.calls.set call ⟨op, .returned (some err)⟩ } := by
  have hsent := h.calls _ (List.mem_of_getElem? hc) _ rfl
  have hsame : sameAcquisition record reply.record = false := by
    rw [← Bool.not_eq_true, hsent.same_iff]
    exact hother
  obtain ⟨err, hreply, his⟩ := replyErr_mismatch hop herr hsame
  have hreturned := m.handle.finish_err reading started hreply
  obtain ⟨state, hstate, hhandle⟩ := m.handle.finish_failed hreturned
  refine ⟨err, state, his, hstate, ?_⟩
  simp only [Machine.step, Machine.finish, hc, hreturned, hhandle]

/-- Against any backend a handle keeps the identity of the response it was
opened with: its record never names another acquisition, and a success that
does ends the call with an error, the record as it was and the handle closed. -/
theorem identity_immutable {policy : Policy} {started : Reading} {handle : Handle}
    (h : Obtained key owner policy granted started handle) (events : List Event) :
    let m := events.foldl Machine.step (initial handle)
    granted.token ≠ 0 ∧ Belongs key owner granted (snapshot m.handle) ∧
      (∀ call op record started reply, m.calls[call]? = some ⟨op, .replied record started reply⟩ →
        op ≠ .release → reply.err = none → ¬Belongs key owner granted reply.record →
        ∀ reading, ∃ err, err.is (mismatch op) = true ∧
          (m.step (.finish call reading)).calls[call]? = some ⟨op, .returned (some err)⟩ ∧
          snapshot (m.step (.finish call reading)).handle = snapshot m.handle ∧
          ∀ later : List Event,
            (later.foldl Machine.step (m.step (.finish call reading))).handle.state ≠ .active) ∧
      Refuses key owner policy := by
  intro m
  have hinv : Inv key owner granted m :=
    invariant_rule (inv_obtained h) (fun m event h => h.step event) events
  have hlifecycle : Lifecycle.Inv m := by
    obtain ⟨-, rfl⟩ := h.accepted
    exact invariant_rule (inv_initial _ _ _) (fun m event h => h.step event) events
  refine ⟨(Client.validAcquisition_iff.mp h.accepted.1).token, hinv.held, ?_, refuses⟩
  intro call op record started reply hc hop herr hother reading
  obtain ⟨err, state, his, hstate, hstep⟩ := hinv.mismatched hc hop herr hother reading
  have hnext := hlifecycle.step (.finish call reading)
  rw [hstep] at hnext ⊢
  refine ⟨err, his, ?_, rfl, ?_⟩
  · exact List.getElem?_set_self (List.getElem?_eq_some_iff.mp hc).1
  · intro later
    exact (hnext.run_closed (S := (· ≠ .active)) hstate (fun _ _ _ he => edge_closes he) later).2

def accepted : Record := ⟨⟨[107]⟩, [97], 7, 0, 1000⟩

/-- The backend answers the Renew with a success under a newer token. -/
def superseded : List Event :=
  [.invoke .renew ⟨300, 300⟩, .dispatch 0 ⟨310, 305⟩,
    .reply 0 ⟨{ accepted with token := 8, expiresAt := 9000 }, none⟩]

theorem identity_immutable_superseded :
    let handle := Handle.newHandleAt Policy.renewable.1 accepted ⟨5, 0⟩
    let m := superseded.foldl Machine.step (initial handle)
    m.handle.state = .active ∧ snapshot m.handle = accepted ∧
      ∃ err, err.is .errAmbiguousOutcome = true ∧
        (m.step (.finish 0 ⟨320, 320⟩)).calls[0]? = some ⟨.renew, .returned (some err)⟩ ∧
        snapshot (m.step (.finish 0 ⟨320, 320⟩)).handle = accepted := by
  intro handle m
  have hobtained : Obtained ⟨[107]⟩ [97] Policy.renewable.1 accepted ⟨5, 0⟩ handle :=
    @Obtained.tryAcquire _ _ _ (some none) (.ok [97]) ⟨5, 0⟩ (fun _ => ⟨accepted, none⟩) _ rfl rfl
  have hother : ¬Belongs ⟨[107]⟩ [97] accepted { accepted with token := 8, expiresAt := 9000 } :=
    fun h => absurd h.token (by decide)
  obtain ⟨err, his, hreturned, hrecord, -⟩ := (identity_immutable hobtained superseded).2.2.1
    0 .renew accepted ⟨310, 305⟩ _ rfl (by decide) rfl hother ⟨320, 320⟩
  exact ⟨by decide, by decide, err, his, hreturned, hrecord⟩

end Machine

end GoLease.Identity
