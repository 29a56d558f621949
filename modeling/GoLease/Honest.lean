import GoLease.Identity
import GoLease.Memory.Reference

/-!
Clients and handles over one memory store whose clock never goes back, with no
relation at all between that clock and theirs.
-/

namespace GoLease.Honest

open Lifecycle Traces Pool Identity
open Client (Answers)

def Unambiguous (err : Error) : Prop := err.is .errAmbiguousOutcome = false

section Store

open Memory Memory.Store

variable {store store' : Memory.Store} {now : Int} {request : Request} {reply : Reply}

/-- The entries of the store are well formed at its present time. -/
structure Formed (now : Int) (store : Memory.Store) : Prop where
  fence : ∀ key, store.fence key ≤ maxUint64
  entries : ∀ key entry, store.lookup key = some entry →
    entry.record.key = key ∧ entry.record.acquiredAt ≤ now ∧
      entry.record.acquiredAt < entry.record.expiresAt

/-- The store granted this record: the key's entry is of that acquisition or
of a later one. -/
def Known (store : Memory.Store) (granted : Record) : Prop :=
  ∃ entry, store.lookup granted.key = some entry ∧ granted.token ≤ entry.record.token ∧
    (entry.record.token = granted.token →
      entry.record.owner = granted.owner ∧ entry.record.acquiredAt = granted.acquiredAt)

theorem formed_empty (now : Int) (maxKeys : Nat) : Formed now ⟨maxKeys, ∅⟩ := by
  have hlookup (key : Key) : Memory.Store.lookup ⟨maxKeys, ∅⟩ key = none := AList.lookup_empty key.value
  constructor
  · intro key
    simp [fence, hlookup]
  · intro key entry hl
    rw [hlookup] at hl
    cases hl

theorem Formed.later {later : Int} (h : Formed now store) (hle : now ≤ later) : Formed later store := by
  refine ⟨h.fence, fun key entry hl => ?_⟩
  obtain ⟨hkey, hacquired, hordered⟩ := h.entries key entry hl
  exact ⟨hkey, Int.le_trans hacquired hle, hordered⟩

theorem ttl_pos {ctx : Ctx} {key : Key} {owner : Bytes} {ttl : Int}
    (h : Memory.validate ctx key owner ttl = none) : 0 < ttl := by
  unfold Memory.validate at h
  split at h
  next => cases h
  next =>
    split at h
    next => cases h
    next hpos => exact Int.not_le.mp hpos

theorem Formed.put (h : Formed now store) {key : Key} {entry : Entry}
    (hfence : entry.record.token ≤ maxUint64)
    (hentry : entry.record.key = key ∧ entry.record.acquiredAt ≤ now ∧
      entry.record.acquiredAt < entry.record.expiresAt) : Formed now (store.put key entry) := by
  constructor
  · intro other
    by_cases hk : other = key
    · rw [hk, fence_put_self]
      exact hfence
    · rw [fence_put_of_ne store hk]
      exact h.fence other
  · intro other e hl
    by_cases hk : other = key
    · rw [hk, lookup_put_self] at hl
      cases hl
      rw [hk]
      exact hentry
    · rw [lookup_put_of_ne store hk] at hl
      exact h.entries other e hl

theorem next_token (h : Formed now store) {key : Key} (hne : store.fence key ≠ maxUint64) :
    (store.fence key + 1) % 2 ^ 64 = store.fence key + 1 ∧ store.fence key + 1 ≤ maxUint64 := by
  have hle := h.fence key
  simp only [maxUint64] at hle hne ⊢
  exact ⟨Nat.mod_eq_of_lt (by omega), by omega⟩

theorem Formed.step (h : Formed now store) (hs : store.Step now request store' reply) :
    Formed now store' := by
  cases hs with
  | rejected | validated | releasedAgain => exact h
  | acquired key owner ttl hvalid hvacant hcapacity htoken =>
      have hpos := ttl_pos hvalid
      obtain ⟨hnext, hle⟩ := next_token h htoken
      refine h.put ?_ ⟨rfl, Int.le_refl _, ?_⟩
      · dsimp only
        rw [hnext]
        exact hle
      · dsimp only
        omega
  | renewed owned ttl current hvalid hheld =>
      have hpos := ttl_pos hvalid
      have hle := h.fence owned.key
      obtain ⟨hkey, hacquired, -⟩ := h.entries _ _ hheld.1
      rw [fence_of_lookup store hheld.1] at hle
      refine h.put hle ⟨hkey, hacquired, ?_⟩
      dsimp only
      omega
  | released owned current hlookup hactive howner htoken =>
      have hle := h.fence owned.key
      have hentry := h.entries _ _ hlookup
      rw [fence_of_lookup store hlookup] at hle
      exact h.put hle hentry

theorem Known.put {granted : Record} (h : Known store granted) {key : Key} {entry old : Entry}
    (hold : store.lookup key = some old) (hsame : entry.record.token = old.record.token ∧
      entry.record.owner = old.record.owner ∧ entry.record.acquiredAt = old.record.acquiredAt) :
    Known (store.put key entry) granted := by
  obtain ⟨current, hl, hle, hidentity⟩ := h
  by_cases hk : granted.key = key
  · subst hk
    cases hl.symm.trans hold
    obtain ⟨htoken, howner, hacquired⟩ := hsame
    refine ⟨entry, lookup_put_self _ _ _, htoken ▸ hle, ?_⟩
    rw [htoken, howner, hacquired]
    exact hidentity
  · exact ⟨current, (lookup_put_of_ne store hk entry).trans hl, hle, hidentity⟩

theorem Known.step {granted : Record} (h : Known store granted) (hf : Formed now store)
    (hs : store.Step now request store' reply) : Known store' granted := by
  cases hs with
  | rejected | validated | releasedAgain => exact h
  | acquired key owner ttl hvalid hvacant hcapacity htoken =>
      obtain ⟨current, hl, hle, hidentity⟩ := h
      obtain ⟨hnext, -⟩ := next_token hf htoken
      by_cases hk : granted.key = key
      · subst hk
        rw [fence_of_lookup store hl] at hnext htoken ⊢
        refine ⟨_, lookup_put_self _ _ _, ?_, ?_⟩
        · dsimp only
          omega
        · intro heq
          dsimp only at heq
          omega
      · exact ⟨current, (lookup_put_of_ne store hk _).trans hl, hle, hidentity⟩
  | renewed owned ttl current hvalid hheld => exact h.put hheld.1 ⟨rfl, rfl, rfl⟩
  | released owned current hlookup => exact h.put hlookup ⟨rfl, rfl, rfl⟩

theorem wrap_unambiguous {target : Sentinel} (operation : String) (h : target ≠ .errAmbiguousOutcome) :
    Unambiguous (wrap target operation) := by
  unfold Unambiguous
  rw [wrap_is]
  exact beq_false_of_ne h

theorem validateIdentity_unambiguous {ctx : Ctx} {key : Key} {owner : Bytes} {token : Nat} {err : Error}
    (h : validateIdentity ctx key owner token = some err) : Unambiguous err := by
  unfold validateIdentity at h
  split at h
  next =>
    cases h
    exact wrap_unambiguous _ (by decide)
  next =>
    split at h
    next =>
      cases h
      exact wrap_unambiguous _ (by decide)
    next => cases h

/-- No error of TryAcquire on the store is ambiguous. -/
theorem tryAcquire_unambiguous {ctx : Ctx} {key : Key} {owner : Bytes} {ttl : Int} {err : Error}
    (h : (store.exec ⟨now, ctx, .tryAcquire key owner ttl⟩).2.err = some err) : Unambiguous err := by
  simp only [exec, Store.tryAcquire] at h
  split at h
  next err' hv =>
    cases h
    unfold Memory.validate at hv
    split at hv
    next hi =>
      cases hv
      exact validateIdentity_unambiguous hi
    next =>
      split at hv
      next =>
        cases hv
        exact wrap_unambiguous _ (by decide)
      next => cases hv
  next =>
    split at h
    next =>
      cases h
      exact wrap_unambiguous _ (by decide)
    next =>
      split at h
      next =>
        cases h
        exact wrap_unambiguous _ (by decide)
      next =>
        split at h
        next =>
          cases h
          exact wrap_unambiguous _ (by decide)
        next => cases h

/-- A granted record answers the request and is known from then on. -/
theorem tryAcquire_known (hf : Formed now store) {ctx : Ctx} {key : Key} {owner : Bytes} {ttl : Int}
    (h : (store.exec ⟨now, ctx, .tryAcquire key owner ttl⟩).2.err = none) :
    Memory.validate none key owner ttl = none ∧
      Answers key owner (store.exec ⟨now, ctx, .tryAcquire key owner ttl⟩).2.record ∧
      Known (store.exec ⟨now, ctx, .tryAcquire key owner ttl⟩).1
        (store.exec ⟨now, ctx, .tryAcquire key owner ttl⟩).2.record := by
  obtain ⟨hvalid, -, hmax, hrecord, hstore⟩ :=
    (store.exec_step ⟨now, ctx, .tryAcquire key owner ttl⟩).acquired_of_ok h
  have hpos := ttl_pos hvalid
  have hnext := (next_token hf hmax).1
  rw [hstore, hrecord]
  refine ⟨hvalid, ⟨rfl, rfl, ?_, ?_⟩, _, lookup_put_self _ _ _, Nat.le_refl _, fun _ => ⟨rfl, rfl⟩⟩
  · dsimp only
    omega
  · dsimp only
    omega

/-- A reply that a handle neither doubts nor mistakes: a success of its own
acquisition, or an error that means its loss. -/
def Genuine (op : Op) (record : Record) (reply : Reply) : Prop :=
  ∀ err, Handle.replyErr record reply op = some err → err.is .errStaleOwner = true ∧ Unambiguous err

theorem genuine_stale (op : Op) (record : Record) (operation : String) :
    Genuine op record ⟨zeroRecord, some (wrap .errStaleOwner operation)⟩ := by
  intro err herr
  cases op with
  | renew | validate | release =>
      cases herr
      exact ⟨rfl, rfl⟩

/-- A success that a handle takes for genuine names the acquisition it sent. -/
theorem Genuine.same {op : Op} {record : Record} {reply : Reply} (h : Genuine op record reply)
    (hop : op ≠ .release) (herr : reply.err = none) : sameAcquisition record reply.record = true := by
  apply by_contra
  intro hsame
  cases op with
  | renew => cases (h _ (if_pos ⟨herr, hsame⟩)).1
  | validate => cases (h _ (if_pos ⟨herr, hsame⟩)).1
  | release => exact hop rfl

theorem genuine_same {op : Op} {record next : Record} (h : sameAcquisition record next = true) :
    Genuine op record ⟨next, none⟩ := by
  intro err herr
  cases op with
  | renew | validate =>
      rw [(Handle.replyErr_eq_none (by decide)).mpr ⟨rfl, h⟩] at herr
      cases herr
  | release => cases herr

/-- The store's entry for an acquisition it knows is one its handle accepts. -/
theorem Known.same {granted record : Record} (h : Known store granted) (hf : Formed now store)
    (hb : Belongs granted.key granted.owner granted record) {current : Entry}
    (hheld : store.Held record.key record.owner record.token now current) {expiresAt : Int}
    (hordered : current.record.acquiredAt < expiresAt) :
    sameAcquisition record { current.record with expiresAt } = true := by
  obtain ⟨entry, hl, -, hidentity⟩ := h
  have hcurrent := hheld.1
  rw [hb.key] at hcurrent
  cases hl.symm.trans hcurrent
  obtain ⟨howner, hacquired⟩ := hidentity (hheld.2.2.2.1.trans hb.token)
  rw [hb.same_iff]
  exact ⟨(hf.entries _ _ hl).1, howner, hheld.2.2.2.1.trans hb.token, hacquired, hordered⟩

/-- Every reply of the store to a call of such a handle is genuine. -/
theorem Known.genuine {granted record : Record} (h : Known store granted) (hf : Formed now store)
    (hb : Belongs granted.key granted.owner granted record) (htoken : granted.token ≠ 0)
    {policy : Policy} (hvalid : Memory.validate none granted.key granted.owner policy.ttl.toInt = none)
    (op : Op) : Genuine op record (store.exec ⟨now, none, op.request policy record⟩).2 := by
  rw [← hb.key, ← hb.owner] at hvalid
  rw [← hb.token] at htoken
  have hidentity := validateIdentity_of_validate hvalid htoken
  have hpos := ttl_pos hvalid
  cases op with
  | renew =>
      by_cases hheld : ∃ current, store.Held record.key record.owner record.token now current
      · obtain ⟨current, hheld⟩ := hheld
        have hacquired := (hf.entries _ _ hheld.1).2.1
        change Genuine .renew record (store.exec ⟨now, none, .renew record policy.ttl.toInt⟩).2
        rw [exec_renew_of_held store hvalid htoken hheld]
        exact genuine_same (h.same hf hb hheld (by omega))
      · change Genuine .renew record (store.exec ⟨now, none, .renew record policy.ttl.toInt⟩).2
        rw [exec_renew_stale hvalid htoken (not_exists.mp hheld)]
        exact genuine_stale _ _ _
  | validate =>
      change Genuine .validate record (store.exec ⟨now, none, .validate record⟩).2
      by_cases hheld : ∃ current, store.Held record.key record.owner record.token now current
      · obtain ⟨current, hheld⟩ := hheld
        rw [exec_validate_of_held hidentity hheld]
        exact genuine_same (h.same hf hb hheld (hf.entries _ _ hheld.1).2.2)
      · rw [exec_validate_stale hidentity (not_exists.mp hheld)]
        exact genuine_stale _ _ _
  | release =>
      change Genuine .release record (store.exec ⟨now, none, .release record⟩).2
      by_cases hown : ∃ entry, store.lookup record.key = some entry ∧
          entry.record.owner = record.owner ∧ entry.record.token = record.token
      · obtain ⟨entry, hl, ho, ht⟩ := hown
        cases hactive : entry.active with
        | true =>
            rw [exec_release_of_active store hidentity hl hactive ho ht]
            exact nofun
        | false =>
            rw [exec_release_again hidentity hl hactive ho ht]
            exact nofun
      · rw [exec_release_stale hidentity (fun entry hl hsame => hown ⟨entry, hl, hsame⟩)]
        exact genuine_stale _ _ _

end Store

section Handle

variable (handle : Handle)

theorem start_unambiguous {op : Op} {reading : Reading} {err : Error}
    (h : (handle.start op reading).2 = .returned (some err)) : Unambiguous err := by
  have hactive (h : (handle.beginActiveOperation reading).2 = .returned (some err)) : Unambiguous err := by
    unfold Handle.beginActiveOperation at h
    cases hrequire : handle.requireActiveLocked reading with
    | mk handle' refused =>
        rw [hrequire] at h
        cases refused with
        | some err' =>
            cases h
            unfold Handle.requireActiveLocked at hrequire
            dsimp only at hrequire
            split at hrequire
            next =>
              cases hrequire
              exact wrap_unambiguous _ (by decide)
            next =>
              split at hrequire
              next =>
                cases hrequire
                exact wrap_unambiguous _ (by decide)
              next => cases hrequire
        | none =>
            dsimp only at h
            split at h
            next =>
              cases h
              exact wrap_unambiguous _ (by decide)
            next => cases h
  cases op with
  | renew | validate => exact hactive h
  | release =>
      simp only [Handle.start, Handle.beginRelease] at h
      split at h
      next => cases h
      next =>
        split at h
        next =>
          cases h
          exact wrap_unambiguous _ (by decide)
        next =>
          split at h
          next =>
            cases h
            exact wrap_unambiguous _ (by decide)
          next => cases h

theorem expire_certain (hs : handle.state ≠ .uncertain) (reading : Reading) :
    (handle.expireLocked reading).state ≠ .uncertain := by
  rcases handle.expireLocked_eq reading with he | ⟨-, he⟩
  · rw [he]
    exact hs
  · rw [he]
    exact nofun

theorem start_certain (hs : handle.state ≠ .uncertain) (op : Op) (reading : Reading) :
    (handle.start op reading).1.state ≠ .uncertain := by
  have hstarted := handle.start_started op reading
  generalize handle.start op reading = result at hstarted ⊢
  obtain ⟨handle', admission⟩ := result
  cases hstarted with
  | refused | already | admitted | releasing => exact hs
  | expired => exact expire_certain handle hs reading

theorem failLocked_certain (hs : handle.state ≠ .uncertain) {err : Error}
    (h : err.is .errStaleOwner = true) : (handle.failLocked err).state ≠ .uncertain := by
  unfold Handle.failLocked
  split
  next => exact hs
  next =>
    rw [if_pos (by rw [h, Bool.true_or])]
    exact nofun

theorem acceptLocked_genuine (hs : handle.state ≠ .uncertain) (record : Record) {err : Option Error}
    (h : ∀ e, err = some e → e.is .errStaleOwner = true ∧ Unambiguous e) (deadline wallDeadline : Int) :
    (handle.acceptLocked record err deadline wallDeadline).1.state ≠ .uncertain ∧
      ∀ e, (handle.acceptLocked record err deadline wallDeadline).2 = some e → Unambiguous e := by
  unfold Handle.acceptLocked
  cases err with
  | some e =>
      refine ⟨failLocked_certain handle hs (h e rfl).1, ?_⟩
      intro e' he
      cases he
      exact (h e rfl).2
  | none =>
      dsimp only
      split
      next =>
        refine ⟨hs, ?_⟩
        intro e he
        cases he
        exact wrap_unambiguous _ (by decide)
      next =>
        split
        next => exact ⟨hs, nofun⟩
        next => exact ⟨hs, nofun⟩

/-- A genuine reply leaves no doubt, and no error of it is ambiguous. -/
theorem finish_genuine (hs : handle.state ≠ .uncertain) {record : Record} {reply : Reply} {op : Op}
    (h : Genuine op record reply) (reading started : Reading) :
    (handle.finish reading record started reply op).1.state ≠ .uncertain ∧
      ∀ err, (handle.finish reading record started reply op).2 = some err → Unambiguous err := by
  have hexpired := expire_certain { handle with busy := false } hs reading
  cases op with
  | renew => exact acceptLocked_genuine _ hexpired _ h _ _
  | validate => exact acceptLocked_genuine _ hexpired _ h _ _
  | release =>
      simp only [Handle.finish, Handle.finishRelease]
      cases herr : Handle.replyErr record reply .release with
      | none => exact ⟨by simp, by simp⟩
      | some err =>
          refine ⟨failLocked_certain { handle with busy := false } hs (h err herr).1, ?_⟩
          intro err' he
          cases he
          exact (h err herr).2

end Handle

section Machine

variable {m : Machine}

def CallOk (call : Invocation) : Prop :=
  match call.stage with
  | .replied record _ reply => Genuine call.op record reply
  | .returned (some err) => Unambiguous err
  | _ => True

structure Calm (m : Machine) : Prop where
  certain : m.handle.state ≠ .uncertain
  calls : ∀ call ∈ m.calls, CallOk call

theorem calm_initial (policy : Policy) (record : Record) (started : Reading) :
    Calm (initial (Handle.newHandleAt policy record started)) := by
  have hactive : (initial (Handle.newHandleAt policy record started)).handle.state = .active := rfl
  constructor
  · rw [hactive]
    exact nofun
  · intro call hmem
    exact absurd hmem List.not_mem_nil

theorem Calm.idle (h : Calm m) {handle : Handle} (hi : Idles m.handle handle) (renewers : List Renewer) :
    Calm { m with handle, renewers } := by
  obtain ⟨state, managed, rfl, hstate⟩ := hi
  refine ⟨?_, h.calls⟩
  rcases hstate with rfl | ⟨-, rfl⟩
  · exact h.certain
  · exact nofun

theorem Calm.invoke (h : Calm m) (op : Op) (reading : Reading) (renewers : List Renewer) :
    Calm { m.invoke op reading with renewers } := by
  refine ⟨start_certain m.handle h.certain op reading, forall_mem_append h.calls ?_⟩
  unfold CallOk
  cases hadmission : (m.handle.start op reading).2 with
  | reserved record => trivial
  | returned err =>
      cases err with
      | none => trivial
      | some err => exact start_unambiguous m.handle hadmission

theorem Calm.setCall (h : Calm m) (call : Nat) {inv : Invocation} (hok : CallOk inv) :
    Calm { m with calls := m.calls.set call inv } :=
  ⟨h.certain, forall_mem_set h.calls hok⟩

theorem Calm.finish (h : Calm m) (call : Nat) (reading : Reading) : Calm (m.step (.finish call reading)) := by
  simp only [Machine.step, Machine.finish]
  split
  next op record started reply hc =>
    have hok : Genuine op record reply := h.calls _ (List.mem_of_getElem? hc)
    obtain ⟨hcertain, herr⟩ := finish_genuine m.handle h.certain hok reading started
    refine ⟨hcertain, forall_mem_set h.calls ?_⟩
    unfold CallOk
    cases hresult : (m.handle.finish reading record started reply op).2 with
    | none => trivial
    | some err => exact herr err hresult
  next => exact h

/-- Replies apart, no step of a handle brings doubt. -/
theorem Calm.step (h : Calm m) (event : Event)
    (hreply : ∀ call reply op record started, event = .reply call reply →
      m.calls[call]? = some ⟨op, .dispatched record started⟩ → Genuine op record reply) :
    Calm (m.step event) := by
  cases event with
  | invoke op reading => exact h.invoke op reading m.renewers
  | finish call reading => exact h.finish call reading
  | dispatch call reading =>
      simp only [Machine.step, Machine.dispatch]
      split
      next => exact h.setCall call trivial
      next => exact h
  | reply call reply =>
      simp only [Machine.step, Machine.reply]
      split
      next op record started hc => exact h.setCall call (hreply call reply op record started rfl hc)
      next => exact h
  | renew renewer reading =>
      simp only [Machine.step, Machine.renew]
      split
      next => exact h.invoke .renew reading _
      next => exact h
  | state reading => exact h.idle (idles_expireLocked m.handle reading) m.renewers
  | startManaged reading slot => exact h.idle (idles_startManaged m.handle reading slot) _
  | wake renewer err =>
      simp only [Machine.step, Machine.wake]
      split
      next => exact h.idle (.refl m.handle) _
      next => exact h
  | resume renewer =>
      simp only [Machine.step, Machine.resume]
      split
      next =>
        split
        next => exact h.idle (.refl m.handle) _
        next => exact h.idle (.refl m.handle) _
        next => exact h
      next => exact h
  | lose renewer reading =>
      simp only [Machine.step, Machine.lose]
      split
      next => exact h.idle (idles_expireLocked m.handle reading) _
      next => exact h
  | exit renewer =>
      simp only [Machine.step, Machine.exit]
      split
      next => exact h.idle (idles_managed m.handle false) _
      next => exact h

theorem step_policy (m : Machine) (event : Event) : (m.step event).handle.policy = m.handle.policy := by
  have hs := step_stepped m event
  generalize m.step event = m' at hs ⊢
  cases hs with
  | idle event hi renewers =>
      obtain ⟨state, managed, rfl, -⟩ := hi
      rfl
  | @invoked event op reading handle admission hs renewers =>
      cases hs with
      | refused | already | admitted | releasing => rfl
      | expired =>
          obtain ⟨state, managed, he, -⟩ := idles_expireLocked m.handle reading
          rw [he]
  | dispatched | replied => rfl
  | finished hc hf =>
      cases hf with
      | closed | renewed | confirmed | released => rfl

end Machine

/-- The method a client was called with: Acquire first takes a waiter slot and
reads the clock for the end of its wait. -/
inductive Method
  | tryAcquire
  | acquire (slot : Bool) (clock : Int)
  deriving DecidableEq, Repr

/-- Where a call of a client stands: an attempt is on its way to the store or
has its reply, Acquire sleeps between two attempts, or the call has returned. -/
inductive Stage
  | calling (number : Nat) (started : Reading)
  | answered (number : Nat) (started : Reading) (reply : Reply)
  | sleeping (number : Nat)
  | returned (err : Error)
  | holding (machine : Machine)

structure Session where
  key : Key
  owner : Bytes
  policy : Policy.Accepted
  method : Method
  stage : Stage

structure System where
  now : Int
  store : Memory.Store
  sessions : List Session

/-- The steps of the system. No context is ever done; what else an attempt
reads, and every reading of a client's clocks, is arbitrary. -/
inductive Event
  | tick (elapsed : Nat)
  | seek (key : Key) (policy : Policy.Accepted) (method : Method) (source : Except Error Bytes)
      (started : Reading)
  | execute (session : Nat)
  | conclude (session : Nat) (attempt : Client.Attempt)
  | retry (session : Nat) (started : Reading)
  | inside (session : Nat) (event : Lifecycle.Event)
  | serve (session call : Nat)

/-- What a client makes of the reply to an attempt. -/
def concluded (s : Session) (number : Nat) (attempt : Client.Attempt) : Stage :=
  match s.method with
  | .tryAcquire =>
    match Client.tryAcquire (some none) (.ok s.owner) s.key s.policy.1 attempt.started
        (fun _ => attempt.reply) with
    | .ok handle => .holding (initial handle)
    | .error err => .returned err
  | .acquire _ clock =>
    match Client.iteration s.key s.owner s.policy.1 (clock + s.policy.1.wait.toInt) number attempt with
    | .done (.ok handle) => .holding (initial handle)
    | .done (.error err) => .returned err
    | .retry _ => .sleeping number

/-- How a call starts before its first attempt. -/
def begun (method : Method) (source : Except Error Bytes) : Except Error Bytes :=
  match method with
  | .acquire false _ => .error (wrap .errBackendUnavailable "waiter capacity")
  | _ => Client.newOwner source

def silent : Lifecycle.Event → Bool
  | .reply _ _ => false
  | _ => true

namespace System

variable (s : System)

def setStage (i : Nat) (session : Session) (stage : Stage) : System :=
  { s with sessions := s.sessions.set i { session with stage } }

def seek (key : Key) (policy : Policy.Accepted) (method : Method) (source : Except Error Bytes)
    (started : Reading) : System :=
  match begun method source with
  | .ok owner => { s with sessions := s.sessions ++ [⟨key, owner, policy, method, .calling 1 started⟩] }
  | .error err => { s with sessions := s.sessions ++ [⟨key, [], policy, method, .returned err⟩] }

def execute (i : Nat) : System :=
  match s.sessions[i]? with
  | some session =>
    match session.stage with
    | .calling number started =>
      let result := s.store.exec
        ⟨s.now, none, .tryAcquire session.key session.owner session.policy.1.ttl.toInt⟩
      { s with store := result.1 }.setStage i session (.answered number started result.2)
    | _ => s
  | none => s

def conclude (i : Nat) (attempt : Client.Attempt) : System :=
  match s.sessions[i]? with
  | some session =>
    match session.stage with
    | .answered number started reply =>
      s.setStage i session (concluded session number { attempt with started, reply })
    | _ => s
  | none => s

def retry (i : Nat) (started : Reading) : System :=
  match s.sessions[i]? with
  | some session =>
    match session.stage with
    | .sleeping number => s.setStage i session (.calling (number + 1) started)
    | _ => s
  | none => s

def inside (i : Nat) (event : Lifecycle.Event) : System :=
  match s.sessions[i]? with
  | some session =>
    match session.stage with
    | .holding m => if silent event then s.setStage i session (.holding (m.step event)) else s
    | _ => s
  | none => s

/-- The store executes a call of a handle and the handle receives the reply. -/
def serve (i call : Nat) : System :=
  match s.sessions[i]? with
  | some session =>
    match session.stage with
    | .holding m =>
      match m.calls[call]? with
      | some ⟨op, .dispatched record _⟩ =>
        let result := s.store.exec ⟨s.now, none, op.request m.handle.policy record⟩
        { s with store := result.1 }.setStage i session (.holding (m.step (.reply call result.2)))
      | _ => s
    | _ => s
  | none => s

def step : Event → System
  | .tick elapsed => { s with now := s.now + elapsed }
  | .seek key policy method source started => s.seek key policy method source started
  | .execute i => s.execute i
  | .conclude i attempt => s.conclude i attempt
  | .retry i started => s.retry i started
  | .inside i event => s.inside i event
  | .serve i call => s.serve i call

end System

/-- What holds of a handle and the store that granted its record. -/
structure Holding (store : Memory.Store) (session : Session) (granted : Record) (m : Machine) : Prop where
  identity : Identity.Inv session.key session.owner granted m
  answers : Answers session.key session.owner granted
  known : Known store granted
  valid : Memory.validate none session.key session.owner session.policy.1.ttl.toInt = none
  policy_eq : m.handle.policy = session.policy.1
  calm : Calm m

/-- And of a reply that an attempt has received. -/
structure Replied (store : Memory.Store) (session : Session) (reply : Reply) : Prop where
  granted : reply.err = none → Answers session.key session.owner reply.record ∧
    Known store reply.record ∧
    Memory.validate none session.key session.owner session.policy.1.ttl.toInt = none
  refused : ∀ err, reply.err = some err → Unambiguous err

def StageOk (store : Memory.Store) (session : Session) : Prop :=
  match session.stage with
  | .calling _ _ | .sleeping _ => True
  | .answered _ _ reply => Replied store session reply
  | .returned err => Unambiguous err
  | .holding m => ∃ granted, Holding store session granted m

structure Inv (s : System) : Prop where
  formed : Formed s.now s.store
  sessions : ∀ session ∈ s.sessions, StageOk s.store session

section Invariant

variable {s : System}

theorem Inv.answered (h : Inv s) {session : Session} (hmem : session ∈ s.sessions) {number : Nat}
    {started : Reading} {reply : Reply} (hstage : session.stage = .answered number started reply) :
    Replied s.store session reply := by
  have hok := h.sessions session hmem
  rw [StageOk, hstage] at hok
  exact hok

theorem Inv.holding (h : Inv s) {session : Session} (hmem : session ∈ s.sessions) {m : Machine}
    (hstage : session.stage = .holding m) : ∃ granted, Holding s.store session granted m := by
  have hok := h.sessions session hmem
  rw [StageOk, hstage] at hok
  exact hok

theorem StageOk.keep {store store' : Memory.Store} {session : Session} (h : StageOk store session)
    (hknown : ∀ granted, Known store granted → Known store' granted) : StageOk store' session := by
  obtain ⟨key, owner, policy, method, stage⟩ := session
  cases stage with
  | calling | sleeping => trivial
  | answered number started reply =>
      obtain ⟨hok, herr⟩ := h
      exact ⟨fun hn => ⟨(hok hn).1, hknown _ (hok hn).2.1, (hok hn).2.2⟩, herr⟩
  | returned err => exact h
  | holding m =>
      obtain ⟨granted, hh⟩ := h
      exact ⟨granted, { hh with known := hknown _ hh.known }⟩

theorem Inv.setStage (h : Inv s) {i : Nat} {session : Session} {stage : Stage}
    (hok : StageOk s.store { session with stage }) : Inv (s.setStage i session stage) :=
  ⟨h.formed, forall_mem_set h.sessions hok⟩

/-- The store takes one call; what the sessions rely on stays. -/
theorem Inv.exec (h : Inv s) (request : Request) :
    Inv { s with store := (s.store.exec ⟨s.now, none, request⟩).1 } := by
  have hs := s.store.exec_step ⟨s.now, none, request⟩
  exact ⟨h.formed.step hs, fun session hmem =>
    (h.sessions session hmem).keep (fun granted hk => hk.step h.formed hs)⟩

theorem newOwner_unambiguous {source : Except Error Bytes} {err : Error}
    (h : Client.newOwner source = .error err) : Unambiguous err := by
  unfold Client.newOwner at h
  split at h
  next =>
    split at h
    next =>
      cases h
      exact wrap_unambiguous _ (by decide)
    next => cases h
  next =>
    cases h
    exact wrap_unambiguous _ (by decide)

theorem begun_unambiguous {method : Method} {source : Except Error Bytes} {err : Error}
    (h : begun method source = .error err) : Unambiguous err := by
  unfold begun at h
  split at h
  next =>
    cases h
    exact wrap_unambiguous _ (by decide)
  next => exact newOwner_unambiguous h

theorem Inv.seek (h : Inv s) (key : Key) (policy : Policy.Accepted) (method : Method)
    (source : Except Error Bytes) (started : Reading) : Inv (s.seek key policy method source started) := by
  unfold System.seek
  cases hbegun : begun method source with
  | ok owner => exact ⟨h.formed, forall_mem_append h.sessions trivial⟩
  | error err => exact ⟨h.formed, forall_mem_append h.sessions (begun_unambiguous hbegun)⟩

theorem Inv.replied (h : Inv s) (session : Session) :
    Replied
      (s.store.exec ⟨s.now, none, .tryAcquire session.key session.owner session.policy.1.ttl.toInt⟩).1 session
      (s.store.exec ⟨s.now, none, .tryAcquire session.key session.owner session.policy.1.ttl.toInt⟩).2 where
  granted hn := by
    obtain ⟨hvalid, hanswers, hknown⟩ := tryAcquire_known h.formed hn
    exact ⟨hanswers, hknown, hvalid⟩
  refused _ herr := tryAcquire_unambiguous herr

theorem Inv.execute (h : Inv s) (i : Nat) : Inv (s.execute i) := by
  unfold System.execute
  split
  next session hi =>
    split
    next number started hstage =>
      have hexec := h.exec (.tryAcquire session.key session.owner session.policy.1.ttl.toInt)
      have hreplied := h.replied session
      generalize s.store.exec _ = result at hexec hreplied ⊢
      exact hexec.setStage ⟨hreplied.granted, hreplied.refused⟩
    next => exact h
  next => exact h

/-- An accepted record opens a handle that is known to the store. -/
theorem holding_initial {store : Memory.Store} {session : Session} {started : Reading} {record : Record}
    {handle : Handle}
    (haccept : Client.accept session.key session.owner session.policy.1 started record = .ok handle)
    (hknown : Known store record)
    (hvalid : Memory.validate none session.key session.owner session.policy.1.ttl.toInt = none) :
    Holding store session record (initial handle) := by
  obtain ⟨hanswers, rfl⟩ := Client.accept_ok haccept
  rw [Client.validAcquisition_iff] at hanswers
  exact ⟨inv_newHandleAt hanswers _ _, hanswers, hknown, hvalid, rfl, calm_initial _ _ _⟩

/-- A granted reply ends either method with a handle. -/
theorem Replied.opens {store : Memory.Store} {session : Session} {reply : Reply}
    (h : Replied store session reply) (herr : reply.err = none) (started : Reading) :
    ∃ handle, Client.accept session.key session.owner session.policy.1 started reply.record =
        .ok handle ∧
      StageOk store { session with stage := .holding (initial handle) } := by
  obtain ⟨hanswers, hknown, hvalid⟩ := h.granted herr
  have haccept : Client.accept session.key session.owner session.policy.1 started reply.record =
      .ok (Handle.newHandleAt session.policy.1 reply.record started) :=
    if_pos (Client.validAcquisition_iff.mpr hanswers)
  exact ⟨_, haccept, reply.record, holding_initial haccept hknown hvalid⟩

theorem newOwner_ok {owner owner' : Bytes} (h : Client.newOwner (.ok owner) = .ok owner') :
    owner = owner' := by
  unfold Client.newOwner at h
  dsimp only at h
  split at h
  next => cases h
  next => exact Except.ok.inj h

theorem concluded_ok {store : Memory.Store} {session : Session} (number : Nat) (attempt : Client.Attempt)
    (h : Replied store session attempt.reply) :
    StageOk store { session with stage := concluded session number attempt } := by
  unfold concluded
  split
  next =>
    unfold Client.tryAcquire
    cases howner : Client.newOwner (.ok session.owner) with
    | error err => exact newOwner_unambiguous howner
    | ok owner =>
        obtain rfl := newOwner_ok howner
        cases herr : attempt.reply.err with
        | some err =>
            simp only [Client.acquisitionContextError, herr]
            exact h.refused err herr
        | none =>
            obtain ⟨handle, haccept, hok⟩ := h.opens herr attempt.started
            simp only [Client.acquisitionContextError, herr, haccept]
            exact hok
  next slot clock _ =>
    have hi := @Client.iteration_iterated session.key session.owner session.policy.1
      (clock + session.policy.1.wait.toInt) number attempt
    generalize Client.iteration session.key session.owner session.policy.1
      (clock + session.policy.1.wait.toInt) number attempt = verdict at hi ⊢
    cases hi with
    | accepted herr =>
        obtain ⟨handle, haccept, hok⟩ := h.opens herr attempt.started
        rw [haccept]
        exact hok
    | late err herr hwait => exact wrap_unambiguous _ (by decide)
    | failed err herr hwait hcontended => exact h.refused err herr
    | contended err stop herr hcontended hstop hnot =>
        apply wrap_unambiguous
        rcases hstop with rfl | rfl <;> decide
    | retried => trivial

theorem Inv.conclude (h : Inv s) (i : Nat) (attempt : Client.Attempt) : Inv (s.conclude i attempt) := by
  unfold System.conclude
  split
  next session hi =>
    split
    next number started reply hstage =>
      have hreplied := h.answered (List.mem_of_getElem? hi) hstage
      exact h.setStage (concluded_ok number { attempt with started, reply } hreplied)
    next => exact h
  next => exact h

theorem Inv.retry (h : Inv s) (i : Nat) (started : Reading) : Inv (s.retry i started) := by
  unfold System.retry
  split
  next session hi =>
    split
    next => exact h.setStage trivial
    next => exact h
  next => exact h

theorem Holding.step {store : Memory.Store} {session : Session} {granted : Record} {m : Machine}
    (h : Holding store session granted m) (event : Lifecycle.Event)
    (hreply : ∀ call reply op record started, event = .reply call reply →
      m.calls[call]? = some ⟨op, .dispatched record started⟩ → Genuine op record reply) (stage : Stage) :
    Holding store { session with stage := stage } granted (m.step event) where
  identity := h.identity.step event
  answers := h.answers
  known := h.known
  valid := h.valid
  policy_eq := (step_policy m event).trans h.policy_eq
  calm := h.calm.step event hreply

theorem Inv.inside (h : Inv s) (i : Nat) (event : Lifecycle.Event) : Inv (s.inside i event) := by
  unfold System.inside
  split
  next session hi =>
    split
    next m hstage =>
      obtain ⟨granted, hh⟩ := h.holding (List.mem_of_getElem? hi) hstage
      split
      next hsilent =>
        refine h.setStage ⟨granted, hh.step event ?_ _⟩
        rintro call reply op record started rfl
        cases hsilent
      next => exact h
    next => exact h
  next => exact h

theorem Inv.serve (h : Inv s) (i call : Nat) : Inv (s.serve i call) := by
  unfold System.serve
  split
  next session hi =>
    split
    next m hstage =>
      obtain ⟨granted, hh⟩ := h.holding (List.mem_of_getElem? hi) hstage
      split
      next op record started hc =>
        have hexec := h.exec (op.request m.handle.policy record)
        have hknown := hh.known.step h.formed
          (s.store.exec_step ⟨s.now, none, op.request m.handle.policy record⟩)
        have hsent := hh.identity.calls _ (List.mem_of_getElem? hc) record rfl
        rw [← hh.answers.key, ← hh.answers.owner] at hsent
        have hvalid := hh.valid
        rw [← hh.answers.key, ← hh.answers.owner, ← hh.policy_eq] at hvalid
        have hgenuine := hh.known.genuine h.formed hsent hh.answers.token hvalid op
        generalize s.store.exec ⟨s.now, none, op.request m.handle.policy record⟩ = result
          at hexec hknown hgenuine ⊢
        have hnext : Holding result.1 session granted m := { hh with known := hknown }
        refine hexec.setStage ⟨granted, hnext.step _ ?_ _⟩
        intro call' reply op' record' started' hevent hc'
        cases hevent
        cases hc.symm.trans hc'
        exact hgenuine
      next => exact h
    next => exact h
  next => exact h

theorem Inv.step (h : Inv s) (event : Event) : Inv (s.step event) := by
  cases event with
  | tick elapsed =>
      have hle : s.now ≤ s.now + elapsed := by omega
      exact ⟨h.formed.later hle, h.sessions⟩
  | seek key policy method source started => exact h.seek key policy method source started
  | execute i => exact h.execute i
  | conclude i attempt => exact h.conclude i attempt
  | retry i started => exact h.retry i started
  | inside i event => exact h.inside i event
  | serve i call => exact h.serve i call

/-- Over an honest store every reply passes the checks of the client, so that
nothing is ever reported ambiguous and no handle is left in doubt. -/
theorem no_false_alarms {maxKeys : Nat} {store : Memory.Store} (hnew : Memory.new maxKeys = .ok store)
    (now : Int) (events : List Event) :
    ∀ session ∈ (events.foldl System.step ⟨now, store, []⟩).sessions,
      (∀ number started reply, session.stage = .answered number started reply → reply.err = none →
        Client.validAcquisition session.key session.owner reply.record = true) ∧
      (∀ err, session.stage = .returned err → err.is .errAmbiguousOutcome = false) ∧
      ∀ m, session.stage = .holding m → m.handle.state ≠ .uncertain ∧
        (∀ op record started reply, ⟨op, .replied record started reply⟩ ∈ m.calls → op ≠ .release →
          reply.err = none → sameAcquisition record reply.record = true) ∧
        ∀ op err, ⟨op, .returned (some err)⟩ ∈ m.calls → err.is .errAmbiguousOutcome = false := by
  obtain rfl := Memory.new_ok hnew
  have hinitial : Inv ⟨now, ⟨maxKeys, ∅⟩, []⟩ :=
    ⟨formed_empty now maxKeys, fun session hmem => absurd hmem List.not_mem_nil⟩
  have hinv : Inv (events.foldl System.step ⟨now, ⟨maxKeys, ∅⟩, []⟩) :=
    invariant_rule hinitial (fun s event h => h.step event) events
  intro session hmem
  refine ⟨?_, ?_, ?_⟩
  · intro number started reply hstage herr
    exact Client.validAcquisition_iff.mpr ((hinv.answered hmem hstage).granted herr).1
  · intro err hstage
    have hok := hinv.sessions session hmem
    rw [StageOk, hstage] at hok
    exact hok
  · intro m hstage
    obtain ⟨granted, hh⟩ := hinv.holding hmem hstage
    refine ⟨hh.calm.certain, ?_, ?_⟩
    · intro op record started reply hcall hop herr
      have hgenuine : Genuine op record reply := hh.calm.calls _ hcall
      exact hgenuine.same hop herr
    · intro op err hcall
      have hreturned : Unambiguous err := hh.calm.calls _ hcall
      exact hreturned

/-- A client takes a key and renews it: the store has answered the renewal. -/
def renewal : List Event :=
  [.seek ⟨[107]⟩ Policy.renewable .tryAcquire (.ok [97]) ⟨0, 0⟩, .tick 3, .execute 0,
    .conclude 0 ⟨⟨0, 0⟩, ⟨zeroRecord, none⟩, none, none, 0, 0, none, none, none⟩,
    .inside 0 (.invoke .renew ⟨5, 5⟩), .inside 0 (.dispatch 0 ⟨5, 5⟩), .tick 200, .serve 0 0]

/-- Its session then: the call has kept the record it sent. -/
def renewed : Session where
  key := ⟨[107]⟩
  owner := [97]
  policy := Policy.renewable
  method := .tryAcquire
  stage := .holding
    { handle :=
        { Handle.newHandleAt Policy.renewable.1 ⟨⟨[107]⟩, [97], 1, 3, 1003⟩ ⟨0, 0⟩ with busy := true }
      calls := [⟨.renew, .replied ⟨⟨[107]⟩, [97], 1, 3, 1003⟩ ⟨5, 5⟩ ⟨⟨⟨[107]⟩, [97], 1, 3, 1203⟩, none⟩⟩]
      renewers := [] }

theorem no_false_alarms_renewal :
    (renewal.foldl System.step ⟨0, ⟨1, ∅⟩, []⟩).sessions = [renewed] ∧
      sameAcquisition ⟨⟨[107]⟩, [97], 1, 3, 1003⟩ ⟨⟨[107]⟩, [97], 1, 3, 1203⟩ = true := by
  have hnew : Memory.new 1 = .ok ⟨1, ∅⟩ := rfl
  have hrun : (renewal.foldl System.step ⟨0, ⟨1, ∅⟩, []⟩).sessions = [renewed] := rfl
  have hmem : renewed ∈ (renewal.foldl System.step ⟨0, ⟨1, ∅⟩, []⟩).sessions := by
    rw [hrun]
    exact List.mem_singleton_self _
  have hcalm := (no_false_alarms hnew 0 renewal renewed hmem).2.2 _ rfl
  exact ⟨hrun, hcalm.2.1 _ _ _ _ (List.mem_singleton_self _) nofun rfl⟩

end Invariant

end GoLease.Honest
