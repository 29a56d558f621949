import GoLease.Memory.History
import GoLease.Valkey.Outcomes

namespace GoLease.Valkey

open Decimal Script Traces Memory.History

/-- The number a counter key holds. -/
def Keyspace.count (keys : Keyspace) (counter : Bytes) : Nat :=
  match keys counter with
  | some ⟨.text text, _⟩ => (Decimal.value text).getD 0
  | _ => 0

/-- A lease hash whose token lies above one bound and not above another. -/
def Marked (low high : Nat) (item : Item) : Prop :=
  ∃ owner token acquired expires deadline,
    item = ⟨leaseHash owner (format token) acquired expires, some deadline⟩ ∧
      low < token ∧ token ≤ high

/-- The milliseconds the scripts are sent. -/
def span (ttl : Int) : Nat := (ttl.tdiv millisecond).toNat

namespace Store

variable (store : Store)

/-- One call against a server whose clock shows the instant of the call. -/
def serve (keys : Keyspace) (call : Call) : Keyspace × Reply :=
  store.exec (nativeExecutor (call.now / 1000).toNat) keys call.ctx call.request

def fence (keys : Keyspace) (key : Key) : Nat := keys.count (store.counterKey key)

/-- What the scripts leave behind: each counter is a plain numeral without a
deadline, and each lease hash has one and carries a token the counter has reached. -/
structure WellFormed (keys : Keyspace) : Prop where
  counter : ∀ key, keys (store.counterKey key) = counterItem (store.fence keys key)
  bound : ∀ key, store.fence keys key < 2 ^ 63
  lease : ∀ key item, keys (store.leaseKey key) = some item → Marked 0 (store.fence keys key) item

/-- What one call does to the keyspace of a server. -/
inductive Step (us : Nat) (keys : Keyspace) : Request → Keyspace × Reply → Prop
  | kept {request : Request} {reply : Reply}
      (hacquire : ∀ key owner ttl, request = .tryAcquire key owner ttl → reply.err ≠ none)
      (hrenew : ∀ owned ttl, request = .renew owned ttl → reply.err ≠ none) :
      Step us keys request (keys, reply)
  | acquired {key : Key} {owner : Bytes} {ttl : Int}
      (hvalid : Valkey.validate none key owner 1 ttl = none)
      (hl : keys.find (us / 1000) (store.leaseKey key) = none)
      (hn : store.fence keys key < 2 ^ 63 - 1) :
      Step us keys (.tryAcquire key owner ttl)
        (Function.update
            (Function.update keys (store.counterKey key) (counterItem (store.fence keys key + 1)))
            (store.leaseKey key) (some ⟨leaseHash owner (format (store.fence keys key + 1))
              (tostring (us / 1000)) (tostring (us / 1000 + span ttl)), some (us / 1000 + span ttl)⟩),
          .ofRecord (parseRecord key owner [ok, format (store.fence keys key + 1),
            tostring (us / 1000), tostring (us / 1000 + span ttl)] .errContended))
  | renewed {owned : Record} {ttl : Int} {acquired expires : Bytes} {deadline : Option Nat}
      {reply : Reply}
      (hvalid : Valkey.validate none owned.key owned.owner owned.token ttl = none)
      (hl : keys.find (us / 1000) (store.leaseKey owned.key) =
        some ⟨leaseHash owned.owner (format owned.token) acquired expires, deadline⟩) :
      Step us keys (.renew owned ttl)
        (Function.update keys (store.leaseKey owned.key)
          (some ⟨leaseHash owned.owner (format owned.token) acquired
            (tostring (us / 1000 + span ttl)), some (us / 1000 + span ttl)⟩), reply)
  | released {owned : Record} {acquired expires : Bytes} {deadline : Option Nat}
      (hl : keys.find (us / 1000) (store.leaseKey owned.key) =
        some ⟨leaseHash owned.owner (format owned.token) acquired expires, deadline⟩) :
      Step us keys (.release owned) (Function.update keys (store.leaseKey owned.key) none, .ofErr none)

variable {store} {us : Nat} {keys : Keyspace} {key : Key}

theorem counterKey_eq_of_leaseKey {other : Key} (h : store.leaseKey other = store.leaseKey key) :
    store.counterKey other = store.counterKey key := by
  have hd : store.digest other = store.digest key := leaseKey_injective h
  unfold counterKey tag
  rw [← digest, ← digest, hd]

theorem leaseKey_eq_of_counterKey {other : Key} (h : store.counterKey other = store.counterKey key) :
    store.leaseKey other = store.leaseKey key := by
  have hd : store.digest other = store.digest key := counterKey_injective h
  unfold leaseKey tag
  rw [← digest, ← digest, hd]

theorem fence_eq {n : Nat} (h : keys (store.counterKey key) = counterItem n) :
    store.fence keys key = n := by
  unfold fence Keyspace.count
  rw [h, counterItem]
  by_cases hz : n = 0
  · rw [if_pos hz, hz]
  · rw [if_neg hz]
    dsimp only
    rw [value_format, Option.getD_some]

theorem fence_update_leaseKey (other : Key) (item : Option Item) :
    store.fence (Function.update keys (store.leaseKey other) item) key = store.fence keys key := by
  unfold fence Keyspace.count
  rw [Function.update_of_ne counterKey_ne_leaseKey]

theorem fence_update_counterKey (other : Key) (n : Nat) :
    store.fence (Function.update keys (store.counterKey other) (counterItem n)) key =
      if store.counterKey key = store.counterKey other then n else store.fence keys key := by
  split
  next h =>
    apply fence_eq
    rw [h, Function.update_self]
  next h =>
    unfold fence Keyspace.count
    rw [Function.update_of_ne h]

theorem spec_of_validate {ctx : Ctx} {owner : Bytes} {token : Nat} {ttl : Int}
    (h : Valkey.validate ctx key owner token ttl = none) :
    ctx = none ∧ (token < 2 ^ 64 → ValidIdentity key owner token) ∧ millisecond ≤ ttl := by
  obtain ⟨hctx, hkey, howner, hlen, htoken, httl⟩ := validate_eq_none.mp h
  refine ⟨hctx, ?_, httl⟩
  intro hmax
  exact ⟨hkey, howner, hlen, Nat.pos_of_ne_zero htoken, hmax⟩

theorem formatMilliseconds_eq (ttl : Int) : formatMilliseconds ttl = format (span ttl) := rfl

theorem span_range {ttl : Int} (hmin : millisecond ≤ ttl) (hmax : ttl < 2 ^ 63) :
    0 < span ttl ∧ span ttl < 2 ^ 63 := by
  unfold span
  simp only [millisecond] at hmin ⊢
  have hdiv : ttl.tdiv 1000000 = ttl / 1000000 := Int.tdiv_eq_ediv_of_nonneg (by omega)
  rw [hdiv]
  omega

/-- The server's answer to an acquisition names the caller's key and owner and
the token the counter has just reached. -/
theorem parseRecord_names {owner : Bytes} {expected : Sentinel} {token : Nat} {acquired expires : Bytes}
    {record : Record} (hlt : token < 2 ^ 64)
    (h : parseRecord key owner [ok, format token, acquired, expires] expected = .ok record) :
    record.key = key ∧ record.owner = owner ∧ record.token = token := by
  simp only [parseRecord, parseUint_format hlt, List.length_cons, List.length_nil, Nat.reduceAdd,
    OfNat.ofNat_ne_one, false_and, if_false, ne_eq, not_true_eq_false] at h
  split at h
  next =>
    rename_i heq _ _
    split at h
    next => cases h
    next =>
      split at h
      next => cases h
      next =>
        cases h
        exact ⟨rfl, rfl, (Option.some.inj heq).symm⟩
  next => cases h

theorem ofRecord_err {result : Except Error Record} :
    (Reply.ofRecord result).err = none ↔ ∃ record, result = .ok record := by
  cases result with
  | ok record => exact ⟨fun _ => ⟨record, rfl⟩, fun _ => rfl⟩
  | error err => exact ⟨nofun, nofun⟩

theorem kept_of_err {request : Request} {err : Error} :
    store.Step us keys request (keys, ⟨zeroRecord, some err⟩) :=
  .kept (fun _ _ _ _ => nofun) (fun _ _ _ => nofun)

theorem tryAcquire_step (h : store.WellFormed keys) (ctx : Ctx) (owner : Bytes) {ttl : Int}
    (ht : ttl < 2 ^ 63) :
    store.Step us keys (.tryAcquire key owner ttl)
      (store.exec (nativeExecutor us) keys ctx (.tryAcquire key owner ttl)) := by
  rw [exec, tryAcquire]
  cases hvalid : Valkey.validate ctx key owner 1 ttl with
  | some err => exact kept_of_err
  | none =>
      obtain ⟨rfl, _, hmin⟩ := spec_of_validate hvalid
      obtain ⟨hpos, hlt⟩ := span_range hmin ht
      cases hl : keys.find (us / 1000) (store.leaseKey key) with
      | some item =>
          have hscript := nativeExecutor_ok .opAcquire (store.keys key) [owner, format (span ttl)]
            [contended] (acquireScript_contended _ owner _ hl)
          simp only [formatMilliseconds_eq, hscript]
          exact kept_of_err
      | none =>
          by_cases hn : store.fence keys key < 2 ^ 63 - 1
          · have hscript := nativeExecutor_ok .opAcquire (store.keys key) [owner, format (span ttl)]
              [ok, format (store.fence keys key + 1), tostring (us / 1000),
                tostring (us / 1000 + span ttl)]
              (acquireScript_granted owner counterKey_ne_leaseKey hl (h.counter key) hn hpos hlt)
            simp only [formatMilliseconds_eq, hscript]
            exact .acquired hvalid hl hn
          · have hscript : (script .opAcquire (store.keys key) [owner, format (span ttl)]).exec us keys =
                (.error "ERR increment or decrement would overflow", keys) :=
              acquireScript_overflow owner _ hl (h.counter key) (Nat.not_lt.mp hn)
            simp only [formatMilliseconds_eq, nativeExecutor, hscript]
            exact kept_of_err

/-- The three ways in which the guard of renew, validate and release can end. -/
theorem WellFormed.guard_cases (h : store.WellFormed keys) (ms : Nat) (owned : Record) :
    keys.find ms (store.leaseKey owned.key) = none ∨
      (∃ owner token acquired expires deadline, keys.find ms (store.leaseKey owned.key) =
          some ⟨leaseHash owner token acquired expires, deadline⟩ ∧
        ¬(owner = owned.owner ∧ token = format owned.token)) ∨
      ∃ acquired expires deadline, keys.find ms (store.leaseKey owned.key) =
        some ⟨leaseHash owned.owner (format owned.token) acquired expires, deadline⟩ := by
  cases hf : keys.find ms (store.leaseKey owned.key) with
  | none => exact .inl rfl
  | some item =>
      right
      obtain ⟨owner, token, acquired, expires, deadline, rfl, _⟩ :=
        h.lease _ item (Option.filter_eq_some_iff.mp hf).1
      by_cases hsame : owner = owned.owner ∧ format token = format owned.token
      · right
        rw [hsame.1, hsame.2]
        exact ⟨acquired, expires, some deadline, rfl⟩
      · left
        exact ⟨owner, format token, acquired, expires, some deadline, rfl, hsame⟩

theorem renew_step (h : store.WellFormed keys) (ctx : Ctx) (owned : Record) {ttl : Int}
    (ht : ttl < 2 ^ 63) :
    store.Step us keys (.renew owned ttl)
      (store.exec (nativeExecutor us) keys ctx (.renew owned ttl)) := by
  rw [exec, renew]
  cases hvalid : Valkey.validate ctx owned.key owned.owner owned.token ttl with
  | some err => exact kept_of_err
  | none =>
      obtain ⟨rfl, _, hmin⟩ := spec_of_validate hvalid
      obtain ⟨hpos, hlt⟩ := span_range hmin ht
      have hstale (hs : (renewScript (store.leaseKey owned.key) owned.owner (format owned.token)
          (format (span ttl))).exec us keys = (.ok [some stale], keys)) :
          nativeExecutor us .opRenew (store.keys owned.key)
            [owned.owner, format owned.token, formatMilliseconds ttl] keys = (keys, .ok [stale]) :=
        nativeExecutor_ok .opRenew _ _ [stale] hs
      rcases h.guard_cases (us / 1000) owned with
        hl | ⟨owner, token, acquired, expires, deadline, hl, hne⟩ | ⟨acquired, expires, deadline, hl⟩
      · simp only [hstale (renewScript_absent hl _ _ _)]
        exact kept_of_err
      · simp only [hstale (renewScript_stale hl hne _)]
        exact kept_of_err
      · have hscript := nativeExecutor_ok .opRenew (store.keys owned.key)
          [owned.owner, format owned.token, format (span ttl)]
          [ok, format owned.token, acquired, tostring (us / 1000 + span ttl)]
          (renewScript_renewed hl hpos hlt)
        simp only [formatMilliseconds_eq, hscript]
        cases parseRecord owned.key owned.owner
            [ok, format owned.token, acquired, tostring (us / 1000 + span ttl)] .errStaleOwner with
        | error err => exact .renewed hvalid hl
        | ok record =>
            dsimp only
            split
            next => exact .renewed hvalid hl
            next => exact .renewed hvalid hl

theorem validate_step (h : store.WellFormed keys) (ctx : Ctx) (owned : Record) :
    store.Step us keys (.validate owned)
      (store.exec (nativeExecutor us) keys ctx (.validate owned)) := by
  have hkept (reply : Reply) : store.Step us keys (.validate owned) (keys, reply) :=
    .kept nofun nofun
  have hstate : (store.exec (nativeExecutor us) keys ctx (.validate owned)).1 = keys := by
    rw [exec, validate]
    cases hvalid : Valkey.validate ctx owned.key owned.owner owned.token millisecond with
    | some err => rfl
    | none =>
        obtain ⟨reply, hr⟩ : ∃ reply, nativeExecutor us .opValidate (store.keys owned.key)
            [owned.owner, format owned.token] keys = (keys, .ok reply) := by
          rcases h.guard_cases (us / 1000) owned with
            hl | ⟨owner, token, acquired, expires, deadline, hl, hne⟩ | ⟨acquired, expires, deadline, hl⟩
          · exact ⟨[stale], nativeExecutor_ok .opValidate _ _ [stale] (validateScript_absent hl _ _)⟩
          · exact ⟨[stale], nativeExecutor_ok .opValidate _ _ [stale] (validateScript_stale hl hne)⟩
          · exact ⟨[ok, format owned.token, acquired, expires],
              nativeExecutor_ok .opValidate _ _ [ok, _, _, _] (validateScript_ok hl)⟩
        simp only [hr]
        split
        next => rfl
        next => split <;> rfl
  rw [← Prod.eta (store.exec (nativeExecutor us) keys ctx (.validate owned)), hstate]
  exact hkept _

theorem release_step (h : store.WellFormed keys) (ctx : Ctx) (owned : Record) :
    store.Step us keys (.release owned)
      (store.exec (nativeExecutor us) keys ctx (.release owned)) := by
  have hkept (reply : Reply) : store.Step us keys (.release owned) (keys, reply) :=
    .kept nofun nofun
  rw [exec, release]
  cases hvalid : Valkey.validate ctx owned.key owned.owner owned.token millisecond with
  | some err => exact hkept _
  | none =>
      have hanswer {keys' : Keyspace} {status : Bytes}
          (hs : (releaseScript (store.leaseKey owned.key) owned.owner (format owned.token)).exec us keys =
            (.ok [some status], keys')) :
          nativeExecutor us .opRelease (store.keys owned.key) [owned.owner, format owned.token] keys =
            (keys', .ok [status]) :=
        nativeExecutor_ok .opRelease _ _ [status] hs
      rcases h.guard_cases (us / 1000) owned with
        hl | ⟨owner, token, acquired, expires, deadline, hl, hne⟩ | ⟨acquired, expires, deadline, hl⟩
      · simp only [hanswer (releaseScript_missing hl _ _)]
        exact hkept _
      · simp only [hanswer (releaseScript_stale hl hne)]
        exact hkept _
      · simp only [hanswer (releaseScript_released hl)]
        exact .released hl

theorem serve_step (h : store.WellFormed keys) (call : Call) (hr : call.request.Representable) :
    store.Step (call.now / 1000).toNat keys call.request (store.serve keys call) := by
  obtain ⟨now, ctx, request⟩ := call
  cases request with
  | tryAcquire key owner ttl => exact tryAcquire_step h ctx owner hr
  | renew owned ttl => exact renew_step h ctx owned hr
  | validate owned => exact validate_step h ctx owned
  | release owned => exact release_step h ctx owned

variable {keys' : Keyspace} {request : Request} {reply : Reply}

theorem Step.fence_le (hs : store.Step us keys request (keys', reply)) (key : Key) :
    store.fence keys key ≤ store.fence keys' key := by
  cases hs with
  | kept => exact Nat.le_refl _
  | renewed | released => rw [fence_update_leaseKey]
  | @acquired other =>
      rw [fence_update_leaseKey, fence_update_counterKey]
      split
      next heq =>
        have hsame : store.fence keys key = store.fence keys other := congrArg keys.count heq
        omega
      next => exact Nat.le_refl _

/-- A lower bound on the token of a key's lease hash stays one as long as it is
not above the counter. -/
theorem Step.marked (hs : store.Step us keys request (keys', reply)) {low : Nat}
    (hlow : low ≤ store.fence keys key)
    (hm : ∀ item, keys (store.leaseKey key) = some item → Marked low (store.fence keys key) item) :
    ∀ item, keys' (store.leaseKey key) = some item → Marked low (store.fence keys' key) item := by
  have hle := hs.fence_le key
  have hsame (item : Item) (hi : keys (store.leaseKey key) = some item) :
      Marked low (store.fence keys' key) item := by
    obtain ⟨owner, token, acquired, expires, deadline, rfl, hlt, htoken⟩ := hm item hi
    exact ⟨owner, token, acquired, expires, deadline, rfl, hlt, Nat.le_trans htoken hle⟩
  intro item hi
  cases hs with
  | kept => exact hsame item hi
  | @acquired other =>
      by_cases hk : store.leaseKey key = store.leaseKey other
      · have hc := counterKey_eq_of_leaseKey hk
        rw [hk, Function.update_self] at hi
        cases hi
        have hsum : store.fence keys key = store.fence keys other := congrArg keys.count hc
        rw [fence_update_leaseKey, fence_update_counterKey, if_pos hc]
        exact ⟨_, _, _, _, _, rfl, by omega, Nat.le_refl _⟩
      · rw [Function.update_of_ne hk, Function.update_of_ne counterKey_ne_leaseKey.symm] at hi
        exact hsame item hi
  | @renewed owned ttl acquired expires deadline _ hvalid hl =>
      by_cases hk : store.leaseKey key = store.leaseKey owned.key
      · rw [hk, Function.update_self] at hi
        cases hi
        rw [← hk] at hl
        obtain ⟨owner, token, acquired', expires', deadline', heq, hlt, htoken⟩ :=
          hsame _ (Option.filter_eq_some_iff.mp hl).1
        obtain ⟨_, ht⟩ := leaseHash_injective (Item.mk.inj heq).1
        rw [← format_injective ht] at hlt htoken
        exact ⟨owned.owner, owned.token, acquired, _, _, rfl, hlt, htoken⟩
      · rw [Function.update_of_ne hk] at hi
        exact hsame item hi
  | @released owned =>
      by_cases hk : store.leaseKey key = store.leaseKey owned.key
      · rw [hk, Function.update_self] at hi
        cases hi
      · rw [Function.update_of_ne hk] at hi
        exact hsame item hi

theorem WellFormed.step (h : store.WellFormed keys) (hs : store.Step us keys request (keys', reply)) :
    store.WellFormed keys' where
  counter key := by
    cases hs with
    | kept => exact h.counter key
    | renewed | released =>
        rw [fence_update_leaseKey, Function.update_of_ne counterKey_ne_leaseKey]
        exact h.counter key
    | @acquired other =>
        rw [fence_update_leaseKey, fence_update_counterKey, Function.update_of_ne counterKey_ne_leaseKey]
        split
        next heq => rw [heq, Function.update_self]
        next hne => rw [Function.update_of_ne hne, h.counter]
  bound key := by
    cases hs with
    | kept => exact h.bound key
    | renewed | released =>
        rw [fence_update_leaseKey]
        exact h.bound key
    | acquired _ _ hn =>
        rw [fence_update_leaseKey, fence_update_counterKey]
        split
        next => omega
        next => exact h.bound key
  lease key := hs.marked (Nat.zero_le _) (h.lease key)

theorem wellFormed_empty : store.WellFormed (fun _ => none) where
  counter _ := rfl
  bound _ := by
    change (0 : Nat) < 2 ^ 63
    decide
  lease := nofun

/-- Every value of a counter occurs. -/
theorem wellFormed_counter {n : Nat} (hn : n < 2 ^ 63) (key : Key) :
    store.WellFormed (Function.update (fun _ => none) (store.counterKey key) (counterItem n)) where
  counter other := by
    rw [fence_update_counterKey]
    split
    next h => rw [h, Function.update_self]
    next h =>
      rw [Function.update_of_ne h]
      rfl
  bound other := by
    rw [fence_update_counterKey]
    split
    next => exact hn
    next => exact wellFormed_empty.bound other
  lease other item hi := by
    rw [Function.update_of_ne counterKey_ne_leaseKey.symm] at hi
    cases hi

theorem run_wellFormed (h : store.WellFormed keys) {calls : List Call}
    (hr : ∀ call ∈ calls, call.request.Representable) :
    store.WellFormed (run store.serve keys calls) :=
  run_rule h (fun _ call hw hc => hw.step (serve_step hw call hc)) hr

theorem run_fence_le (h : store.WellFormed keys) (key : Key) {calls : List Call}
    (hr : ∀ call ∈ calls, call.request.Representable) :
    store.fence keys key ≤ store.fence (run store.serve keys calls) key := by
  refine (run_rule (P := fun later => store.WellFormed later ∧
    store.fence keys key ≤ store.fence later key) ⟨h, Nat.le_refl _⟩ ?_ hr).2
  rintro later call ⟨hw, hle⟩ hc
  have hs := serve_step hw call hc
  exact ⟨hw.step hs, Nat.le_trans hle (hs.fence_le key)⟩

/-- The token of an acquisition is above the counter before it and is the
counter after it. -/
theorem serve_granted (h : store.WellFormed keys) {call : Call} (hr : call.request.Representable)
    (hg : granted key (call, (store.serve keys call).2) = true) :
    (store.serve keys call).2.record.key = key ∧
      (∃ ttl, Valkey.validate none key (store.serve keys call).2.record.owner 1 ttl = none) ∧
      (store.serve keys call).2.record.token = store.fence keys key + 1 ∧
      store.fence (store.serve keys call).1 key = store.fence keys key + 1 ∧
      ∀ item, (store.serve keys call).1 (store.leaseKey key) = some item →
        Marked (store.fence keys key) (store.fence keys key + 1) item := by
  have hs := serve_step h call hr
  obtain ⟨now, ctx, request⟩ := call
  generalize store.serve keys ⟨now, ctx, request⟩ = result at hs hg ⊢
  obtain ⟨keys', reply⟩ := result
  cases hs with
  | renewed | released => cases hg
  | kept hacquire =>
      cases request with
      | tryAcquire requested owner ttl =>
          simp only [granted, Bool.and_eq_true, Option.isNone_iff_eq_none] at hg
          exact absurd hg.2 (hacquire _ _ _ rfl)
      | renew | validate | release => cases hg
  | @acquired requested owner ttl hvalid hl hn =>
      simp only [granted, Bool.and_eq_true, beq_iff_eq, Option.isNone_iff_eq_none] at hg
      obtain ⟨rfl, herr⟩ := hg
      obtain ⟨record, hrecord⟩ := ofRecord_err.mp herr
      have hlt : store.fence keys requested + 1 < 2 ^ 64 := by omega
      obtain ⟨hk, ho, ht⟩ := parseRecord_names hlt hrecord
      dsimp only
      rw [hrecord, fence_update_leaseKey, fence_update_counterKey, if_pos rfl, Function.update_self]
      refine ⟨hk, ⟨ttl, ?_⟩, ht, rfl, ?_⟩
      · rw [Reply.ofRecord, ho]
        exact hvalid
      · rintro item hi
        cases hi
        exact ⟨_, _, _, _, _, rfl, Nat.lt_succ_self _, Nat.le_refl _⟩

/-- Some acquisition of the key has a higher token than this one, and so has
whatever hash the key holds. -/
def Passed (store : Store) (key : Key) (token : Nat) (keys : Keyspace) : Prop :=
  token ≤ store.fence keys key ∧
    ∀ item, keys (store.leaseKey key) = some item → Marked token (store.fence keys key) item

theorem passed_of_granted (h : store.WellFormed keys) {call : Call} (hr : call.request.Representable)
    (hg : granted key (call, (store.serve keys call).2) = true) {token : Nat}
    (hle : token ≤ store.fence keys key) : store.Passed key token (store.serve keys call).1 := by
  obtain ⟨_, _, _, hfence, hm⟩ := serve_granted h hr hg
  rw [Passed, hfence]
  refine ⟨Nat.le_succ_of_le hle, ?_⟩
  intro item hi
  obtain ⟨owner, current, acquired, expires, deadline, rfl, hlt, htoken⟩ := hm item hi
  exact ⟨owner, current, acquired, expires, deadline, rfl, Nat.lt_of_le_of_lt hle hlt, htoken⟩

theorem Passed.run (h : store.WellFormed keys) {token : Nat} (hp : store.Passed key token keys)
    {calls : List Call} (hr : ∀ call ∈ calls, call.request.Representable) :
    store.Passed key token (run store.serve keys calls) := by
  refine (run_rule (P := fun keys => store.WellFormed keys ∧ store.Passed key token keys)
    ⟨h, hp⟩ ?_ hr).2
  rintro keys call ⟨hw, hle, hm⟩ hc
  have hs := serve_step hw call hc
  exact ⟨hw.step hs, Nat.le_trans hle (hs.fence_le key), hs.marked hle hm⟩

/-- A token below the one in the lease hash is refused while the hash is there;
without a hash there is nothing left to compare it with. -/
theorem Passed.release {owned : Record} (hp : store.Passed owned.key owned.token keys)
    (hid : ValidIdentity owned.key owned.owner owned.token) (now : Int) :
    store.serve keys ⟨now, none, .release owned⟩ =
      (keys, .ofErr (if (keys.find ((now / 1000).toNat / 1000) (store.leaseKey owned.key)).isSome then
        some (wrap .errStaleOwner "valkey release") else none)) := by
  cases hf : keys.find ((now / 1000).toNat / 1000) (store.leaseKey owned.key) with
  | none => exact exec_release hid (releaseScript_missing hf _ _)
  | some item =>
      obtain ⟨owner, token, acquired, expires, deadline, rfl, hlt, _⟩ :=
        hp.2 item (Option.filter_eq_some_iff.mp hf).1
      have hne : ¬(owner = owned.owner ∧ format token = format owned.token) := by
        rintro ⟨_, heq⟩
        have htoken := format_injective heq
        omega
      exact exec_release hid (releaseScript_stale hf hne)

/-- A record that a later acquisition of its key has superseded releases
nothing. The store says stale while some lease hash is there and, once the
successor's hash is gone too, nil, as for every key without an owner. -/
theorem superseded_release (store : Store) {keys : Keyspace} (hkeys : store.WellFormed keys) (key : Key)
    (before between after : List Call) (first second : Call)
    (hcalls : ∀ call ∈ before ++ first :: between ++ second :: after, call.request.Representable)
    (hfirst : granted key (first, (store.serve (run store.serve keys before) first).2) = true)
    (hsecond : granted key
      (second, (store.serve (run store.serve keys (before ++ first :: between)) second).2) = true) :
    let superseded := (store.serve (run store.serve keys before) first).2.record
    let current := run store.serve keys (before ++ first :: between ++ second :: after)
    ∀ (owned : Record) (now : Int), owned.key = superseded.key → owned.owner = superseded.owner →
      owned.token = superseded.token →
      store.serve current ⟨now, none, .release owned⟩ =
        (current, .ofErr (if (current.find ((now / 1000).toNat / 1000) (store.leaseKey key)).isSome then
          some (wrap .errStaleOwner "valkey release") else none)) := by
  intro superseded current owned now hkey howner htoken
  have hbefore : ∀ call ∈ before ++ first :: between, call.request.Representable :=
    fun call hm => hcalls call (List.mem_append_left _ hm)
  have hafter : ∀ call ∈ second :: after, call.request.Representable :=
    fun call hm => hcalls call (List.mem_append_right _ hm)
  -- What the first acquisition found and left.
  have hw := run_wellFormed hkeys (fun call hm => hbefore call (List.mem_append_left _ hm))
  have hr : first.request.Representable := hbefore first (by simp)
  obtain ⟨hk, ⟨ttl, hvalid⟩, ht, hfence, _⟩ := serve_granted hw hr hfirst
  -- The counter has reached its token when the second acquisition is made.
  have hup : superseded.token ≤ store.fence (run store.serve keys (before ++ first :: between)) key := by
    rw [run_append, show superseded.token = _ from ht.trans hfence.symm]
    apply run_fence_le (hw.step (serve_step hw first hr))
    exact fun call hm => hbefore call (List.mem_append_right _ (List.mem_cons_of_mem _ hm))
  have hw' := run_wellFormed hkeys hbefore
  have hr' : second.request.Representable := hafter second List.mem_cons_self
  have hpassed : store.Passed owned.key owned.token current := by
    rw [hkey, htoken, hk]
    change store.Passed key _ (run store.serve keys (_ ++ second :: after))
    rw [run_append]
    exact (passed_of_granted hw' hr' hsecond hup).run (hw'.step (serve_step hw' second hr'))
      (fun call hm => hafter call (List.mem_cons_of_mem _ hm))
  have hid : ValidIdentity owned.key owned.owner owned.token := by
    obtain ⟨hkey', howner', hlen, _⟩ := (spec_of_validate hvalid).2.1 (by decide)
    have hbound := hw.bound key
    rw [hkey, howner, htoken, hk]
    refine ⟨hkey', howner', hlen, ?_, ?_⟩
    · rw [ht]
      exact Nat.succ_pos _
    · rw [ht]
      omega
  have hrelease := hpassed.release hid now
  rw [show owned.key = key from hkey.trans hk] at hrelease
  exact hrelease

def plain : Store := ⟨id, [108]⟩

/-- An acquisition for one millisecond. -/
def acquisition (now : Int) (owner : Bytes) : Call := ⟨now, none, .tryAcquire ⟨[107]⟩ owner 1000000⟩

/-- The successor's hash stands, so the record it superseded is stale. -/
theorem superseded_release_live :
    let current := run plain.serve (fun _ => none) [acquisition 0 [97], acquisition 2000000 [98]]
    plain.serve current ⟨2500000, none, .release ⟨⟨[107]⟩, [97], 1, 0, 1000000⟩⟩ =
      (current, .ofErr (some (wrap .errStaleOwner "valkey release"))) := by
  intro current
  have h := superseded_release plain wellFormed_empty ⟨[107]⟩ [] [] [] (acquisition 0 [97])
    (acquisition 2000000 [98]) (by simp [acquisition, Request.Representable]) (by decide) (by decide)
    ⟨⟨[107]⟩, [97], 1, 0, 1000000⟩ 2500000 (by decide) (by decide) (by decide)
  have hlive : (current.find ((2500000 / 1000 : Int).toNat / 1000) (plain.leaseKey ⟨[107]⟩)).isSome = true :=
    by decide
  exact h.trans (congrArg (fun err => (current, Reply.ofErr err)) (if_pos hlive))

/-- The successor releases, and the release of the record it superseded returns
nil. -/
theorem superseded_release_unnoticed :
    let first := plain.serve (fun _ => none) (acquisition 0 [97])
    let second := plain.serve first.1 (acquisition 2000000 [98])
    let freed := plain.serve second.1 ⟨2000000, none, .release second.2.record⟩
    first.2.err = none ∧ second.2.err = none ∧ first.2.record.token < second.2.record.token ∧
      freed.2.err = none ∧
      (plain.serve freed.1 ⟨2000000, none, .release first.2.record⟩).2.err = none := by
  decide

end Store

end GoLease.Valkey
