import GoLease.Backend
import Mathlib.Data.List.AList

namespace GoLease.Memory

structure Entry where
  record : Record
  active : Bool
  deriving DecidableEq, Repr

/-- The clock is left out: each operation receives the reading it takes under
the mutex. -/
structure Store where
  maxKeys : Nat
  entries : AList (fun _ : Bytes => Entry)

/-- New rejects a zero capacity; the capacity is a uint32. -/
def new (maxKeys : Nat) : Except Error Store :=
  if maxKeys = 0 then .error (.detailed (.sentinel .errInvalidState) "invalid memory options")
  else .ok ⟨maxKeys, ∅⟩

theorem new_ok {maxKeys : Nat} {store : Store} (h : new maxKeys = .ok store) : ⟨maxKeys, ∅⟩ = store := by
  simp only [new] at h
  split at h
  next => cases h
  next => exact Except.ok.inj h

def validateIdentity (ctx : Ctx) (key : Key) (owner : Bytes) (token : Nat) : Option Error :=
  if ctx.isSome then some (wrap .errCanceled "context")
  else if key.value = [] ∨ owner = [] ∨ owner.length > 128 ∨ token = 0
    then some (wrap .errInvalidState "identity")
  else none

def validate (ctx : Ctx) (key : Key) (owner : Bytes) (ttl : Int) : Option Error :=
  match validateIdentity ctx key owner 1 with
  | some err => some err
  | none => if ttl ≤ 0 then some (wrap .errInvalidState "duration") else none

def sameOwner (current candidate : Record) : Bool :=
  current.owner == candidate.owner && current.token == candidate.token

namespace Store

variable (store : Store)

def lookup (key : Key) : Option Entry := store.entries.lookup key.value

def put (key : Key) (entry : Entry) : Store :=
  { store with entries := store.entries.insert key.value entry }

/-- The fence of a key is the token of its retained record, zero before the
first acquisition. -/
def fence (key : Key) : Nat := (store.lookup key).elim 0 (fun entry => entry.record.token)

def tryAcquire (now : Int) (ctx : Ctx) (key : Key) (owner : Bytes) (ttl : Int) :
    Store × Except Error Record :=
  match validate ctx key owner ttl with
  | some err => (store, .error err)
  | none =>
    let current := (store.lookup key).getD ⟨zeroRecord, false⟩
    if (store.lookup key).isSome ∧ current.active ∧ now < current.record.expiresAt then
      (store, .error (wrap .errContended "try acquire"))
    else if (store.lookup key).isNone ∧ store.entries.keys.length % 2 ^ 32 ≥ store.maxKeys then
      (store, .error (wrap .errBackendUnavailable "key capacity"))
    else if current.record.token = maxUint64 then
      (store, .error (wrap .errBackendUnavailable "token exhausted"))
    else
      let record : Record := ⟨key, owner, (current.record.token + 1) % 2 ^ 64, now, now + ttl⟩
      (store.put key ⟨record, true⟩, .ok record)

def renew (now : Int) (ctx : Ctx) (owned : Record) (ttl : Int) :
    Store × Except Error Record :=
  match validate ctx owned.key owned.owner ttl with
  | some err => (store, .error err)
  | none =>
    if owned.token = 0 then (store, .error (wrap .errInvalidState "renew"))
    else match store.lookup owned.key with
      | none => (store, .error (wrap .errStaleOwner "renew"))
      | some current =>
        if ¬current.active then (store, .error (wrap .errStaleOwner "renew"))
        else if ¬sameOwner current.record owned then (store, .error (wrap .errStaleOwner "renew"))
        else if ¬now < current.record.expiresAt then (store, .error (wrap .errStaleOwner "renew"))
        else
          let record := { current.record with expiresAt := now + ttl }
          (store.put owned.key ⟨record, current.active⟩, .ok record)

def validate (now : Int) (ctx : Ctx) (owned : Record) : Except Error Record :=
  match validateIdentity ctx owned.key owned.owner owned.token with
  | some err => .error err
  | none =>
    match store.lookup owned.key with
    | none => .error (wrap .errStaleOwner "validate")
    | some current =>
      if ¬current.active then .error (wrap .errStaleOwner "validate")
      else if ¬sameOwner current.record owned then .error (wrap .errStaleOwner "validate")
      else if ¬now < current.record.expiresAt then .error (wrap .errStaleOwner "validate")
      else .ok current.record

def release (ctx : Ctx) (owned : Record) : Store × Option Error :=
  match validateIdentity ctx owned.key owned.owner owned.token with
  | some err => (store, some err)
  | none =>
    match store.lookup owned.key with
    | none => (store, some (wrap .errStaleOwner "release"))
    | some current =>
      if ¬current.active then
        if sameOwner current.record owned then (store, none)
        else (store, some (wrap .errStaleOwner "release"))
      else if ¬sameOwner current.record owned then (store, some (wrap .errStaleOwner "release"))
      else (store.put owned.key ⟨current.record, false⟩, none)

/-- One call of the Backend interface on the store. -/
def exec (call : Call) : Store × Reply :=
  match call.request with
  | .tryAcquire key owner ttl =>
    let result := store.tryAcquire call.now call.ctx key owner ttl
    (result.1, .ofRecord result.2)
  | .renew owned ttl =>
    let result := store.renew call.now call.ctx owned ttl
    (result.1, .ofRecord result.2)
  | .validate owned => (store, .ofRecord (store.validate call.now call.ctx owned))
  | .release owned =>
    let result := store.release call.ctx owned
    (result.1, .ofErr result.2)

@[simp] theorem lookup_put_self (key : Key) (entry : Entry) :
    (store.put key entry).lookup key = some entry := AList.lookup_insert _

theorem lookup_put_of_ne {key other : Key} (h : other ≠ key) (entry : Entry) :
    (store.put key entry).lookup other = store.lookup other := by
  apply AList.lookup_insert_ne
  intro he
  exact h (by cases key; cases other; exact congrArg Key.mk he)

@[simp] theorem fence_put_self (key : Key) (entry : Entry) :
    (store.put key entry).fence key = entry.record.token := by simp [fence]

theorem fence_put_of_ne {key other : Key} (h : other ≠ key) (entry : Entry) :
    (store.put key entry).fence other = store.fence other := by
  simp [fence, lookup_put_of_ne store h]

theorem fence_of_lookup {key : Key} {entry : Entry} (h : store.lookup key = some entry) :
    store.fence key = entry.record.token := by simp [fence, h]

/-- No unexpired active entry stands in the way of an acquisition. -/
def Vacant (key : Key) (now : Int) : Prop :=
  ∀ entry, store.lookup key = some entry → entry.active = false ∨ entry.record.expiresAt ≤ now

/-- The key's entry is active, carries this owner and token, and is unexpired. -/
def Held (key : Key) (owner : Bytes) (token : Nat) (now : Int) (entry : Entry) : Prop :=
  store.lookup key = some entry ∧ entry.active = true ∧ entry.record.owner = owner ∧
    entry.record.token = token ∧ now < entry.record.expiresAt

section OwnerChecks

variable {α : Type} {now : Int} {owned : Record} {current : Entry}

theorem checks_of_held (h : store.Held owned.key owned.owner owned.token now current) (stale ok : α) :
    (if ¬current.active then stale else if ¬sameOwner current.record owned then stale
      else if ¬now < current.record.expiresAt then stale else ok) = ok := by
  obtain ⟨_, ha, ho, ht, hlt⟩ := h
  have hs : sameOwner current.record owned = true := by
    simp only [sameOwner, ho, ht, beq_self_eq_true, Bool.and_true]
  rw [if_neg (not_not.mpr ha), if_neg (not_not.mpr hs), if_neg (not_not.mpr hlt)]

theorem checks_of_not_held (hl : store.lookup owned.key = some current)
    (h : ¬store.Held owned.key owned.owner owned.token now current) (stale ok : α) :
    (if ¬current.active then stale else if ¬sameOwner current.record owned then stale
      else if ¬now < current.record.expiresAt then stale else ok) = stale := by
  split
  next => rfl
  next ha =>
    split
    next => rfl
    next hs =>
      rw [if_pos]
      intro hlt
      simp only [sameOwner, Bool.and_eq_true, beq_iff_eq, not_not] at ha hs
      exact h ⟨hl, ha, hs.1, hs.2, hlt⟩

end OwnerChecks

/-- Everything one call can do to the store, with the guards under which it
does it. A call that returns an error changes nothing. -/
inductive Step (now : Int) : Request → Store → Reply → Prop
  | rejected (request : Request) (err : Error) : Step now request store ⟨zeroRecord, some err⟩
  | acquired (key : Key) (owner : Bytes) (ttl : Int)
      (hvalid : Memory.validate none key owner ttl = none) (hvacant : store.Vacant key now)
      (hcapacity : store.lookup key = none → store.entries.keys.length % 2 ^ 32 < store.maxKeys)
      (htoken : store.fence key ≠ maxUint64) :
      Step now (.tryAcquire key owner ttl)
        (store.put key ⟨⟨key, owner, (store.fence key + 1) % 2 ^ 64, now, now + ttl⟩, true⟩)
        ⟨⟨key, owner, (store.fence key + 1) % 2 ^ 64, now, now + ttl⟩, none⟩
  | renewed (owned : Record) (ttl : Int) (current : Entry)
      (hvalid : Memory.validate none owned.key owned.owner ttl = none)
      (hheld : store.Held owned.key owned.owner owned.token now current) :
      Step now (.renew owned ttl)
        (store.put owned.key ⟨{ current.record with expiresAt := now + ttl }, true⟩)
        ⟨{ current.record with expiresAt := now + ttl }, none⟩
  | validated (owned : Record) (current : Entry)
      (hheld : store.Held owned.key owned.owner owned.token now current) :
      Step now (.validate owned) store ⟨current.record, none⟩
  | released (owned : Record) (current : Entry) (hlookup : store.lookup owned.key = some current)
      (hactive : current.active = true) (howner : current.record.owner = owned.owner)
      (htoken : current.record.token = owned.token) :
      Step now (.release owned) (store.put owned.key ⟨current.record, false⟩) ⟨zeroRecord, none⟩
  | releasedAgain (owned : Record) (current : Entry)
      (hlookup : store.lookup owned.key = some current) (hactive : current.active = false)
      (howner : current.record.owner = owned.owner) (htoken : current.record.token = owned.token) :
      Step now (.release owned) store ⟨zeroRecord, none⟩

section Inversion

variable {store store' : Store} {now ttl : Int} {reply : Reply}

theorem Step.acquired_of_ok {key : Key} {owner : Bytes}
    (h : store.Step now (.tryAcquire key owner ttl) store' reply) (hr : reply.err = none) :
    Memory.validate none key owner ttl = none ∧ store.Vacant key now ∧ store.fence key ≠ maxUint64 ∧
      reply.record = ⟨key, owner, (store.fence key + 1) % 2 ^ 64, now, now + ttl⟩ ∧
      store' = store.put key ⟨reply.record, true⟩ := by
  cases h with
  | rejected => cases hr
  | acquired key owner ttl hvalid hvacant hcapacity htoken => exact ⟨hvalid, hvacant, htoken, rfl, rfl⟩

theorem Step.lookup_of_ne {request : Request} {key : Key}
    (h : store.Step now request store' reply) (hne : request.key ≠ key) :
    store'.lookup key = store.lookup key := by
  cases h with
  | rejected | validated | releasedAgain => rfl
  | acquired | renewed | released => exact lookup_put_of_ne _ hne.symm _

theorem Step.contended {key : Key} {owner : Bytes} {entry : Entry}
    (h : store.Step now (.tryAcquire key owner ttl) store' reply)
    (hl : store.lookup key = some entry) (ha : entry.active = true)
    (hlt : now < entry.record.expiresAt) : store' = store := by
  cases h with
  | rejected => rfl
  | acquired key owner ttl hvalid hvacant hcapacity htoken =>
      rcases hvacant entry hl with hf | hle
      · rw [ha] at hf
        cases hf
      · omega

theorem Step.renewed_of_ok {owned : Record} (h : store.Step now (.renew owned ttl) store' reply)
    (hr : reply.err = none) :
    ∃ current, store.Held owned.key owned.owner owned.token now current ∧
      reply.record = { current.record with expiresAt := now + ttl } ∧
      store' = store.put owned.key ⟨reply.record, true⟩ := by
  cases h with
  | rejected => cases hr
  | renewed owned ttl current hvalid hheld => exact ⟨current, hheld, rfl, rfl⟩

end Inversion

theorem getD_token (key : Key) :
    ((store.lookup key).getD ⟨zeroRecord, false⟩).record.token = store.fence key := by
  cases h : store.lookup key <;> simp [fence, h, zeroRecord]

theorem ctx_of_validateIdentity {ctx : Ctx} {key : Key} {owner : Bytes} {token : Nat}
    (h : validateIdentity ctx key owner token = none) : ctx = none := by
  cases ctx with
  | none => rfl
  | some err => simp [validateIdentity] at h

theorem ctx_of_validate {ctx : Ctx} {key : Key} {owner : Bytes} {ttl : Int}
    (h : Memory.validate ctx key owner ttl = none) : ctx = none := by
  cases hi : validateIdentity ctx key owner 1 with
  | none => exact ctx_of_validateIdentity hi
  | some err => simp [Memory.validate, hi] at h

theorem validateIdentity_of_validate {key : Key} {owner : Bytes} {ttl : Int} {token : Nat}
    (h : Memory.validate none key owner ttl = none) (ht : token ≠ 0) :
    validateIdentity none key owner token = none := by
  cases hi : validateIdentity none key owner 1 with
  | none => simpa [validateIdentity, ht] using hi
  | some err => simp [Memory.validate, hi] at h

theorem tryAcquire_step (now : Int) (ctx : Ctx) (key : Key) (owner : Bytes) (ttl : Int) :
    store.Step now (.tryAcquire key owner ttl) (store.tryAcquire now ctx key owner ttl).1
      (.ofRecord (store.tryAcquire now ctx key owner ttl).2) := by
  cases hv : Memory.validate ctx key owner ttl with
  | some err => simp only [tryAcquire, hv]; exact .rejected _ _
  | none =>
      obtain rfl := ctx_of_validate hv
      simp only [tryAcquire, hv, getD_token]
      split
      next => exact .rejected _ _
      next hlive =>
        split
        next => exact .rejected _ _
        next hfull =>
          split
          next => exact .rejected _ _
          next htoken =>
            refine .acquired key owner ttl hv ?_ ?_ htoken
            · intro entry he
              simp only [he, Option.isSome_some, Option.getD_some, true_and, not_and] at hlive
              cases hactive : entry.active with
              | false => exact .inl rfl
              | true => exact .inr (Int.not_lt.mp (hlive hactive))
            · intro he
              simpa [he] using hfull

theorem renew_step (now : Int) (ctx : Ctx) (owned : Record) (ttl : Int) :
    store.Step now (.renew owned ttl) (store.renew now ctx owned ttl).1
      (.ofRecord (store.renew now ctx owned ttl).2) := by
  cases hv : Memory.validate ctx owned.key owned.owner ttl with
  | some err => simp only [renew, hv]; exact .rejected _ _
  | none =>
      obtain rfl := ctx_of_validate hv
      simp only [renew, hv]
      split
      next => exact .rejected _ _
      next htoken =>
        split
        next => exact .rejected _ _
        next current hlookup =>
          by_cases hheld : store.Held owned.key owned.owner owned.token now current
          · rw [checks_of_held store hheld, hheld.2.1]
            exact .renewed owned ttl current hv hheld
          · rw [checks_of_not_held store hlookup hheld]
            exact .rejected _ _

theorem validate_step (now : Int) (ctx : Ctx) (owned : Record) :
    store.Step now (.validate owned) store (.ofRecord (store.validate now ctx owned)) := by
  cases hv : validateIdentity ctx owned.key owned.owner owned.token with
  | some err => simp only [validate, hv]; exact .rejected _ _
  | none =>
      simp only [validate, hv]
      split
      next => exact .rejected _ _
      next current hlookup =>
        by_cases hheld : store.Held owned.key owned.owner owned.token now current
        · rw [checks_of_held store hheld]
          exact .validated owned current hheld
        · rw [checks_of_not_held store hlookup hheld]
          exact .rejected _ _

theorem release_step (now : Int) (ctx : Ctx) (owned : Record) :
    store.Step now (.release owned) (store.release ctx owned).1
      (.ofErr (store.release ctx owned).2) := by
  cases hv : validateIdentity ctx owned.key owned.owner owned.token with
  | some err => simp only [release, hv]; exact .rejected _ _
  | none =>
      simp only [release, hv]
      split
      next => exact .rejected _ _
      next current hlookup =>
        split
        next hactive =>
          split
          next hsame =>
            simp only [sameOwner, Bool.and_eq_true, beq_iff_eq, Bool.not_eq_true] at hactive hsame
            exact .releasedAgain owned current hlookup hactive hsame.1 hsame.2
          next => exact .rejected _ _
        next hactive =>
          split
          next => exact .rejected _ _
          next hsame =>
            simp only [sameOwner, Bool.and_eq_true, beq_iff_eq, not_not] at hactive hsame
            exact .released owned current hlookup hactive hsame.1 hsame.2

theorem exec_step (call : Call) :
    store.Step call.now call.request (store.exec call).1 (store.exec call).2 := by
  cases h : call.request with
  | tryAcquire key owner ttl => simpa only [exec, h] using store.tryAcquire_step _ _ key owner ttl
  | renew owned ttl => simpa only [exec, h] using store.renew_step _ _ owned ttl
  | validate owned => simpa only [exec, h] using store.validate_step _ _ owned
  | release owned => simpa only [exec, h] using store.release_step _ _ owned

theorem exec_renew_of_held {now ttl : Int} {owned : Record} {current : Entry}
    (hvalid : Memory.validate none owned.key owned.owner ttl = none) (htoken : owned.token ≠ 0)
    (hheld : store.Held owned.key owned.owner owned.token now current) :
    store.exec ⟨now, none, .renew owned ttl⟩ =
      (store.put owned.key ⟨{ current.record with expiresAt := now + ttl }, true⟩,
        ⟨{ current.record with expiresAt := now + ttl }, none⟩) := by
  obtain ⟨hl, ha, ho, ht, hlt⟩ := hheld
  simp [exec, renew, hvalid, htoken, hl, ha, sameOwner, ho, ht, hlt, Reply.ofRecord]

theorem exec_release_of_active {now : Int} {owned : Record} {current : Entry}
    (hvalid : validateIdentity none owned.key owned.owner owned.token = none)
    (hl : store.lookup owned.key = some current) (ha : current.active = true)
    (ho : current.record.owner = owned.owner) (ht : current.record.token = owned.token) :
    store.exec ⟨now, none, .release owned⟩ =
      (store.put owned.key ⟨current.record, false⟩, .ofErr none) := by
  simp [exec, release, hvalid, hl, ha, sameOwner, ho, ht]

end Store

end GoLease.Memory
