import GoLease.Availability.Lapsing
import GoLease.Lossy.Calls
import GoLease.Memory.Reference
import GoLease.Postgres.Ownership
import GoLease.Valkey.Ownership

namespace GoLease.Availability

open Traces

/-- The call was answered with a lease. -/
def Given (reply : Reply) : Prop := reply.err = none

theorem grants_iff {κ : Type} {slot : Key → κ} {P : Reply → Prop} {k : κ} {limit now : Int} {ctx : Ctx}
    {request : Request} {reply : Reply} {key : Key} {ttl : Int} (h : extension request = some (key, ttl)) :
    Grants slot P k limit (⟨now, ctx, request⟩, reply) ↔ P reply ∧ slot key = k ∧ limit = now + ttl := by
  simp only [Grants, h, Option.some.injEq, Prod.mk.injEq]
  constructor
  · rintro ⟨hp, _, _, ⟨rfl, rfl⟩, hk, hl⟩
    exact ⟨hp, hk, hl⟩
  · rintro ⟨hp, hk, hl⟩
    exact ⟨hp, _, _, ⟨rfl, rfl⟩, hk, hl⟩

section Memory

open Memory

def memoryEnds (store : Memory.Store) (key : Key) : Option Int :=
  ((store.lookup key).filter Entry.active).map (fun entry => entry.record.expiresAt)

theorem memoryEnds_put (store : Memory.Store) (key other : Key) (entry : Entry) :
    memoryEnds (store.put key entry) other =
      if other = key then (if entry.active then some entry.record.expiresAt else none)
      else memoryEnds store other := by
  unfold memoryEnds
  split
  next h =>
    subst h
    cases ha : entry.active <;> simp [Option.filter, ha]
  next h => rw [store.lookup_put_of_ne h]

theorem memory_moves {store store' : Memory.Store} {now : Int} {ctx : Ctx} {request : Request}
    {reply : Reply} (h : store.Step now request store' reply) (k : Key) :
    memoryEnds store' k = none ∨
    memoryEnds store' k = memoryEnds store k ∧
      (∀ limit, ¬Grants id Given k limit (⟨now, ctx, request⟩, reply)) ∨
    ∃ limit e, Grants id Given k limit (⟨now, ctx, request⟩, reply) ∧ memoryEnds store' k = some e ∧
      e ≤ limit := by
  have hput {key : Key} {ttl : Int} {entry : Entry} (hext : extension request = some (key, ttl))
      (hgiven : Given reply) (hentry : entry.active = true ∧ entry.record.expiresAt = now + ttl)
      (hstore : store' = store.put key entry) :
      memoryEnds store' k = memoryEnds store k ∧
        (∀ limit, ¬Grants id Given k limit (⟨now, ctx, request⟩, reply)) ∨
      ∃ limit e, Grants id Given k limit (⟨now, ctx, request⟩, reply) ∧ memoryEnds store' k = some e ∧
        e ≤ limit := by
    rw [hstore, memoryEnds_put]
    by_cases hk : k = key
    · refine .inr ⟨now + ttl, now + ttl, (grants_iff hext).mpr ⟨hgiven, hk.symm, rfl⟩, ?_, Int.le_refl _⟩
      rw [if_pos hk, if_pos hentry.1, hentry.2]
    · rw [if_neg hk]
      exact .inl ⟨rfl, fun limit hg => hk ((grants_iff hext).mp hg).2.1.symm⟩
  cases h with
  | rejected request err =>
      exact .inr (.inl ⟨rfl, fun limit hg => absurd hg.1 (Option.some_ne_none err)⟩)
  | acquired | renewed => exact .inr (hput rfl rfl ⟨rfl, rfl⟩ rfl)
  | validated | releasedAgain =>
      refine .inr (.inl ⟨rfl, ?_⟩)
      rintro limit ⟨_, _, _, hext, _⟩
      cases hext
  | released owned current =>
      rw [memoryEnds_put]
      split
      next => exact .inl rfl
      next =>
        refine .inr (.inl ⟨rfl, ?_⟩)
        rintro limit ⟨_, _, _, hext, _⟩
        cases hext

theorem memory_contended {store : Memory.Store} {now ttl : Int} {ctx : Ctx} {key : Key} {owner : Bytes}
    {err : Error} (herr : (store.exec ⟨now, ctx, .tryAcquire key owner ttl⟩).2.err = some err)
    (hcontended : err.is .errContended = true) : ∃ e, memoryEnds store key = some e ∧ now < e := by
  simp only [Store.exec, Store.tryAcquire] at herr
  split at herr
  next refusal hv =>
    cases herr
    unfold Memory.validate validateIdentity at hv
    split at hv
    next hidentity =>
      cases hv
      split_ifs at hidentity <;> cases hidentity <;> cases hcontended
    next =>
      split_ifs at hv
      cases hv
      cases hcontended
  next =>
    split_ifs at herr with hheld
    · obtain ⟨hsome, hactive, hlt⟩ := hheld
      obtain ⟨entry, hl⟩ := Option.isSome_iff_exists.mp hsome
      rw [hl, Option.getD_some] at hactive hlt
      refine ⟨entry.record.expiresAt, ?_, hlt⟩
      simp only [memoryEnds, hl, Option.filter_some, hactive, if_true, Option.map_some]
    all_goals
      cases herr
      try cases hcontended

def memoryLapsing : Lapsing Memory.Store.exec id Given (fun _ => True) where
  ok _ := True
  ends := memoryEnds
  ok_exec _ _ := trivial
  moves {store call} _ _ k := memory_moves (store.exec_step call) k
  contended := by
    rintro store ⟨now, ctx, request⟩ key owner ttl err _ _ rfl herr hcontended
    exact memory_contended herr hcontended

end Memory

section Postgres

open Postgres Database

def rowEnds (row : Row) : Option Int := if row.active then some row.expiresAt else none

def postgresEnds (db : Database) (digest : Bytes) : Option Int := (db.records digest).bind rowEnds

theorem postgresEnds_setRecord (db : Database) (digest other : Bytes) (row : Row) :
    postgresEnds (db.setRecord digest row) other =
      if other = digest then rowEnds row else postgresEnds db other := by
  unfold postgresEnds
  split
  next h =>
    subst h
    rw [setRecord_self]
    rfl
  next h => rw [setRecord_of_ne db h]

theorem milliseconds_le {ttl : Int} (h : millisecond ≤ ttl) : milliseconds ttl * millisecond ≤ ttl := by
  unfold milliseconds
  simp only [millisecond] at h ⊢
  rw [Int.tdiv_eq_ediv_of_nonneg (by omega)]
  omega

variable {store : Postgres.Store} {db : Database} {now : Int} {ctx : Ctx}

/-- The update of a row that the guard of the statement lets through. -/
theorem renewSQL_current {digest owner : Bytes} {token : Nat} {ms : Int} {row updated : Row}
    (hr : db.records digest = some row) (hc : Current row owner token now)
    (hupdated : updated = { row with expiresAt := now + ms * millisecond, updatedAt := now }) :
    db.renewSQL (frozen now) digest owner token ms =
      if updated.check then
        (db.setRecord digest updated, some (some ⟨token, updated.acquiredAt, updated.expiresAt⟩))
      else (db, none) := by
  have hguard : row.ours owner token ∧ row.active ∧ row.expiresAt > frozen now 2 := current_iff.mpr hc
  subst hupdated
  unfold renewSQL
  rw [hr]
  refine (if_pos hguard).trans ?_
  by_cases hcheck : ({ row with expiresAt := now + ms * millisecond, updatedAt := now } : Row).check = true
  · rw [if_pos hcheck]
    exact if_neg (not_not.mpr hcheck)
  · rw [if_neg hcheck]
    exact if_pos hcheck

theorem renew_kept {owned : Record} {ttl : Int} {answer : Except Error (Option RecordRow)}
    (hv : Postgres.validate ctx owned.key owned.owner owned.token ttl = none)
    (hquery : store.query db owned.owner (db.renewSQL (frozen now) (store.digest owned.key) owned.owner
      owned.token (milliseconds ttl)) = (db, answer)) :
    (store.exec (frozen now) db ctx (.renew owned ttl)).1 = db := by
  simp only [Store.exec, Store.renew, hv, hquery]
  split
  next => split <;> rfl
  next => split <;> rfl

/-- A renewal that changes the row is acknowledged. -/
theorem renew_given (owned : Record) (ttl : Int) :
    (store.exec (frozen now) db ctx (.renew owned ttl)).1 = db ∨
      Given (store.exec (frozen now) db ctx (.renew owned ttl)).2 := by
  cases hv : Postgres.validate ctx owned.key owned.owner owned.token ttl with
  | some err =>
      simp only [Store.exec, Store.renew, hv]
      exact .inl trivial
  | none =>
      by_cases htext : store.isText owned.owner = true
      · by_cases hcurrent : ∃ row, db.records (store.digest owned.key) = some row ∧
            Current row owned.owner owned.token now
        · obtain ⟨row, hr, hc⟩ := hcurrent
          obtain ⟨updated, hupdated⟩ : ∃ updated : Row, updated =
            { row with expiresAt := now + milliseconds ttl * millisecond, updatedAt := now } := ⟨_, rfl⟩
          have hsql := renewSQL_current hr hc hupdated
          by_cases hcheck : updated.check = true
          · rw [if_pos hcheck] at hsql
            obtain ⟨_, hpos, hlt⟩ := check_iff.mp hcheck
            have htoken : 0 < owned.token := by
              rw [← hc.2.1]
              rw [hupdated] at hpos
              exact hpos
            rw [Store.exec_renew_ok hv htext htoken hlt hsql]
            exact .inr rfl
          · rw [if_neg hcheck] at hsql
            exact .inl (renew_kept hv (by rw [hsql, Store.query, if_pos htext]))
        · simp only [not_exists, not_and] at hcurrent
          rw [Store.exec_renew_stale hv htext (renewSQL_stale hcurrent)]
          exact .inl rfl
      · exact .inl (renew_kept hv (Store.query_not_text htext _))

theorem postgres_kept (store : Postgres.Store) (db : Database) (call : Call)
    (hgiven : ¬Given (store.serve db call).2) : (store.serve db call).1.records = db.records := by
  obtain ⟨now, ctx, request⟩ := call
  have hs := @Store.serve_step store db ⟨now, ctx, request⟩
  have hrenew (owned : Record) (ttl : Int) (he : request = .renew owned ttl) :
      (store.serve db ⟨now, ctx, request⟩).1 = db := by
    subst he
    exact (renew_given owned ttl).resolve_right hgiven
  generalize store.serve db ⟨now, ctx, request⟩ = result at hs hrenew hgiven ⊢
  dsimp only at hs
  cases hs with
  | kept | contended => rfl
  | acquired | released => exact absurd rfl hgiven
  | renewed => exact congrArg Database.records (hrenew _ _ rfl)

/-- A row that is written for an extension, as the slots see it. -/
theorem moves_setRecord {request : Request} {reply : Reply} {key : Key} {ttl : Int} {row : Row}
    (hext : extension request = some (key, ttl)) (hgiven : Given reply) (hactive : row.active = true)
    (hexpires : row.expiresAt ≤ now + ttl) (k : Bytes) :
    postgresEnds (db.setRecord (store.digest key) row) k = postgresEnds db k ∧
      (∀ limit, ¬Grants store.digest Given k limit (⟨now, ctx, request⟩, reply)) ∨
    ∃ limit e, Grants store.digest Given k limit (⟨now, ctx, request⟩, reply) ∧
      postgresEnds (db.setRecord (store.digest key) row) k = some e ∧ e ≤ limit := by
  rw [postgresEnds_setRecord]
  by_cases hk : k = store.digest key
  · rw [if_pos hk, rowEnds, if_pos hactive]
    exact .inr ⟨now + ttl, row.expiresAt, (grants_iff hext).mpr ⟨hgiven, hk.symm, rfl⟩, rfl, hexpires⟩
  · rw [if_neg hk]
    exact .inl ⟨rfl, fun limit hg => hk ((grants_iff hext).mp hg).2.1.symm⟩

theorem postgres_moves (store : Postgres.Store) (db : Database) (call : Call) (k : Bytes) :
    postgresEnds (store.serve db call).1 k = none ∨
    postgresEnds (store.serve db call).1 k = postgresEnds db k ∧
      (∀ limit, ¬Grants store.digest Given k limit (call, (store.serve db call).2)) ∨
    ∃ limit e, Grants store.digest Given k limit (call, (store.serve db call).2) ∧
      postgresEnds (store.serve db call).1 k = some e ∧ e ≤ limit := by
  by_cases hgiven : Given (store.serve db call).2
  · have hs := @Store.serve_step store db call
    generalize store.serve db call = result at hs hgiven ⊢
    obtain ⟨now, ctx, request⟩ := call
    dsimp only at hs
    cases hs with
    | kept hacquire hrenew =>
        refine .inr (.inl ⟨rfl, ?_⟩)
        rintro limit ⟨_, key, ttl, hext, _⟩
        cases request with
        | tryAcquire key owner ttl => exact hacquire key owner ttl rfl hgiven
        | renew owned ttl => exact hrenew owned ttl rfl hgiven
        | validate | release => cases hext
    | contended => cases hgiven
    | acquired hvalid =>
        have hle := milliseconds_le (accepted hvalid).2.2.2
        exact .inr (moves_setRecord rfl hgiven rfl (by dsimp only; omega) k)
    | renewed hvalid hrow hcurrent =>
        have hle := milliseconds_le (accepted hvalid).2.2.2
        refine .inr (moves_setRecord rfl hgiven ?_ ?_ k)
        · exact hcurrent.2.2.1
        · dsimp only
          omega
    | released =>
        rw [postgresEnds_setRecord]
        split
        next => exact .inl rfl
        next =>
          refine .inr (.inl ⟨rfl, ?_⟩)
          rintro limit ⟨_, _, _, hext, _⟩
          cases hext
  · refine .inr (.inl ⟨?_, fun limit hg => hgiven hg.1⟩)
    unfold postgresEnds
    rw [postgres_kept store db call hgiven]

theorem validate_not_contended {key : Key} {owner : Bytes} {token : Nat} {ttl : Int} {err : Error}
    (h : Postgres.validate ctx key owner token ttl = some err) : err.is .errContended = false := by
  unfold Postgres.validate at h
  split_ifs at h <;> cases h <;> rfl

theorem postgres_contended {key : Key} {owner : Bytes} {ttl : Int} {err : Error}
    (herr : (store.serve db ⟨now, ctx, .tryAcquire key owner ttl⟩).2.err = some err)
    (hcontended : err.is .errContended = true) :
    ∃ e, postgresEnds db (store.digest key) = some e ∧ now < e := by
  unfold Store.serve at herr
  cases hv : Postgres.validate ctx key owner 1 ttl with
  | some refusal =>
      simp only [Store.exec, Store.tryAcquire, hv] at herr
      cases herr
      rw [validate_not_contended hv] at hcontended
      cases hcontended
  | none =>
      obtain ⟨_, hown, _, hmin⟩ := accepted hv
      have hms := Store.milliseconds_pos hmin
      by_cases htext : store.isText owner = true
      · cases ht : db.nextFence (store.digest key) with
        | none =>
            have hrefused : db.acquireSQL (frozen now) (store.digest key) owner (milliseconds ttl) =
                (db, some ⟨0, now, now, .exhausted⟩) := by
              simp only [acquireSQL, ht, frozen, refusal_exhausted ht]
            simp only [Store.exec, Store.tryAcquire, hv, Store.query, htext, if_true, hrefused,
              Option.elim_some] at herr
            cases herr
            cases hcontended
        | some token =>
            by_contra hnone
            have hvacant : ∀ row, db.records (store.digest key) = some row →
                row.active = false ∨ row.expiresAt ≤ now := by
              intro row hr
              by_contra hrow
              simp only [not_or, Bool.not_eq_false, Int.not_le] at hrow
              refine hnone ⟨row.expiresAt, ?_, hrow.2⟩
              simp only [postgresEnds, hr, Option.bind_some, rowEnds, hrow.1, if_true]
            have hlt : now < now + milliseconds ttl * millisecond := by
              simp only [millisecond]
              omega
            rw [Store.exec_tryAcquire_ok hv htext (Fences.nextFence_range ht).1 hlt
              (acquireSQL_granted ht hown hms hvacant)] at herr
            cases herr
      · simp only [Store.exec, Store.tryAcquire, hv, Store.query_not_text htext] at herr
        cases herr
        cases hcontended

def postgresLapsing (store : Postgres.Store) : Lapsing store.serve store.digest Given (fun _ => True) where
  ok _ := True
  ends := postgresEnds
  ok_exec _ _ := trivial
  moves {db call} _ _ k := postgres_moves store db call k
  contended := by
    rintro db ⟨now, ctx, request⟩ key owner ttl err _ _ rfl herr hcontended
    exact postgres_contended herr hcontended

end Postgres

section Valkey

open Valkey Decimal

/-- What a store makes of an answer whose numbers it cannot read. -/
def unreadable : Error := wrap .errBackendUnavailable "valkey response"

/-- The script has given a lease; the store may not be able to read it. -/
def Answered (reply : Reply) : Prop := reply.err = none ∨ reply.err = some unreadable

def valkeyEnds (keys : Keyspace) (name : Bytes) : Option Int :=
  (keys name).bind (fun item => item.expires.map (fun gone : Nat => unixMilli gone))

theorem parseRecord_answered (key : Key) (owner : Bytes) (token acquired expires : Bytes)
    (expected : Sentinel) :
    (∃ record, parseRecord key owner [ok, token, acquired, expires] expected = .ok record) ∨
      parseRecord key owner [ok, token, acquired, expires] expected = .error unreadable := by
  unfold parseRecord
  rw [if_neg (by simp)]
  dsimp only
  rw [if_neg (not_not.mpr rfl)]
  split
  next =>
    split
    next => exact .inr rfl
    next =>
      split
      next => exact .inr rfl
      next => exact .inl ⟨_, rfl⟩
  next => exact .inr rfl

theorem valkeyValidate_refuses {ctx : Ctx} {key : Key} {owner : Bytes} {token : Nat} {ttl : Int} {err : Error}
    (h : Valkey.validate ctx key owner token ttl = some err) :
    err ≠ unreadable ∧ err.is .errContended = false := by
  unfold Valkey.validate at h
  split_ifs at h <;> cases h <;> exact ⟨by decide, rfl⟩

variable {store : Valkey.Store} {keys : Keyspace} {us : Nat} {ctx : Ctx}

theorem token_lt_of_find (h : store.WellFormed keys) {ms : Nat} {key : Key} {owner : Bytes}
    {token : Nat} {acquired expires : Bytes} {deadline : Option Nat}
    (hl : keys.find ms (store.leaseKey key) =
      some ⟨leaseHash owner (format token) acquired expires, deadline⟩) : token < 2 ^ 64 := by
  obtain ⟨_, other, _, _, _, hitem, _, hle⟩ := h.lease _ _ (Option.filter_eq_some_iff.mp hl).1
  have htoken : token = other := format_injective (leaseHash_injective (Item.mk.inj hitem).1).2
  have hbound := h.bound key
  omega

/-- The two ways of an acquisition. -/
theorem valkey_tryAcquire (h : store.WellFormed keys) (key : Key) (owner : Bytes) {ttl : Int}
    (ht : ttl < 2 ^ 63) :
    let result := store.exec (nativeExecutor us) keys ctx (.tryAcquire key owner ttl)
    (result.1 = keys ∧ ∃ err, result.2.err = some err ∧ err ≠ unreadable ∧
      (err.is .errContended = true → (keys.find (us / 1000) (store.leaseKey key)).isSome)) ∨
    millisecond ≤ ttl ∧ Answered result.2 ∧ ∃ counter value, result.1 =
      Function.update (Function.update keys (store.counterKey key) (counterItem counter))
        (store.leaseKey key) (some ⟨value, some (us / 1000 + span ttl)⟩) := by
  simp only [Store.exec, Store.tryAcquire]
  cases hvalid : Valkey.validate ctx key owner 1 ttl with
  | some err =>
      obtain ⟨hne, hnot⟩ := valkeyValidate_refuses hvalid
      exact .inl ⟨rfl, err, rfl, hne, fun hc => absurd (hnot.symm.trans hc) Bool.false_ne_true⟩
  | none =>
      obtain ⟨rfl, _, hmin⟩ := Store.spec_of_validate hvalid
      obtain ⟨hpos, hlt⟩ := Store.span_range hmin ht
      cases hl : keys.find (us / 1000) (store.leaseKey key) with
      | some item =>
          have hscript := Store.nativeExecutor_ok .opAcquire (store.keys key) [owner, format (span ttl)]
            [contended] (acquireScript_contended _ owner _ hl)
          simp only [Store.formatMilliseconds_eq, hscript]
          exact .inl ⟨trivial, _, rfl, by decide, fun _ => rfl⟩
      | none =>
          by_cases hn : store.fence keys key < 2 ^ 63 - 1
          · have hscript := Store.nativeExecutor_ok .opAcquire (store.keys key) [owner, format (span ttl)]
              [ok, format (store.fence keys key + 1), tostring (us / 1000),
                tostring (us / 1000 + span ttl)]
              (acquireScript_granted owner Store.counterKey_ne_leaseKey hl (h.counter key) hn hpos hlt)
            simp only [Store.formatMilliseconds_eq, hscript]
            refine .inr ⟨hmin, ?_, _, _, rfl⟩
            rcases parseRecord_answered key owner (format (store.fence keys key + 1))
              (tostring (us / 1000)) (tostring (us / 1000 + span ttl)) .errContended with ⟨record, hp⟩ | hp
            · rw [hp]
              exact .inl rfl
            · rw [hp]
              exact .inr rfl
          · have hscript : (script .opAcquire (store.keys key) [owner, format (span ttl)]).exec us keys =
                (.error "ERR increment or decrement would overflow", keys) :=
              acquireScript_overflow owner _ hl (h.counter key) (Nat.not_lt.mp hn)
            simp only [Store.formatMilliseconds_eq, nativeExecutor, hscript]
            exact .inl ⟨trivial, _, rfl, by decide, fun hc => by cases hc⟩

theorem valkey_renew (h : store.WellFormed keys) (owned : Record) {ttl : Int} (ht : ttl < 2 ^ 63) :
    let result := store.exec (nativeExecutor us) keys ctx (.renew owned ttl)
    (result.1 = keys ∧ ¬Answered result.2) ∨
    millisecond ≤ ttl ∧ Answered result.2 ∧ ∃ value, result.1 =
      Function.update keys (store.leaseKey owned.key) (some ⟨value, some (us / 1000 + span ttl)⟩) := by
  simp only [Store.exec, Store.renew]
  cases hvalid : Valkey.validate ctx owned.key owned.owner owned.token ttl with
  | some err =>
      obtain ⟨hne, _⟩ := valkeyValidate_refuses hvalid
      refine .inl ⟨rfl, ?_⟩
      rintro (herr | herr)
      · cases herr
      · exact hne (Option.some.inj herr)
  | none =>
      obtain ⟨rfl, _, hmin⟩ := Store.spec_of_validate hvalid
      obtain ⟨hpos, hlt⟩ := Store.span_range hmin ht
      have hstale (hs : (renewScript (store.leaseKey owned.key) owned.owner (format owned.token)
          (format (span ttl))).exec us keys = (.ok [some stale], keys)) :
          nativeExecutor us .opRenew (store.keys owned.key)
            [owned.owner, format owned.token, formatMilliseconds ttl] keys = (keys, .ok [stale]) :=
        Store.nativeExecutor_ok .opRenew _ _ [stale] hs
      have hrefused : ¬Answered ⟨zeroRecord, some (wrap .errStaleOwner "valkey operation")⟩ := by
        rintro (herr | herr)
        · cases herr
        · exact absurd herr (by decide)
      rcases h.guard_cases (us / 1000) owned with
        hl | ⟨owner, token, acquired, expires, deadline, hl, hne⟩ | ⟨acquired, expires, deadline, hl⟩
      · simp only [hstale (renewScript_absent hl _ _ _)]
        exact .inl ⟨rfl, hrefused⟩
      · simp only [hstale (renewScript_stale hl hne _)]
        exact .inl ⟨rfl, hrefused⟩
      · have hscript := Store.nativeExecutor_ok .opRenew (store.keys owned.key)
          [owned.owner, format owned.token, format (span ttl)]
          [ok, format owned.token, acquired, tostring (us / 1000 + span ttl)]
          (renewScript_renewed hl hpos hlt)
        simp only [Store.formatMilliseconds_eq, hscript]
        rcases parseRecord_answered owned.key owned.owner (format owned.token) acquired
          (tostring (us / 1000 + span ttl)) .errStaleOwner with ⟨record, hp⟩ | hp
        · obtain ⟨_, _, htoken⟩ := Store.parseRecord_names (token_lt_of_find h hl) hp
          simp only [hp, htoken, ne_eq, not_true_eq_false, if_false]
          exact .inr ⟨hmin, .inl rfl, _, rfl⟩
        · simp only [hp]
          exact .inr ⟨hmin, .inr rfl, _, rfl⟩

theorem valkeyEnds_update (keys : Keyspace) (name other : Bytes) (item : Option Item) :
    valkeyEnds (Function.update keys name item) other =
      if other = name then item.bind (fun item => item.expires.map (fun gone : Nat => unixMilli gone))
      else valkeyEnds keys other := by
  unfold valkeyEnds
  split
  next h => rw [h, Function.update_self]
  next h => rw [Function.update_of_ne h]

/-- Durations are 64-bit, and the server's clock is not set before 1970. -/
def Valkeyable (call : Call) : Prop := call.request.Representable ∧ 0 ≤ call.now

theorem gone_le {now ttl : Int} (hnow : 0 ≤ now) (hmin : millisecond ≤ ttl) :
    unixMilli ((now / 1000).toNat / 1000 + span ttl : Nat) ≤ now + ttl := by
  unfold unixMilli span
  simp only [millisecond] at hmin ⊢
  rw [Int.tdiv_eq_ediv_of_nonneg (by omega)]
  omega

/-- A hash that is written for an extension, as the slots see it. -/
theorem moves_hash {request : Request} {reply : Reply} {key : Key} {now ttl : Int} {value : Value} {k : Bytes}
    (hext : extension request = some (key, ttl)) (hgiven : Answered reply) (hnow : 0 ≤ now)
    (hmin : millisecond ≤ ttl) (before : Keyspace) (hother : k ≠ store.leaseKey key →
      valkeyEnds before k = none ∨ valkeyEnds before k = valkeyEnds keys k) :
    let after := Function.update before (store.leaseKey key)
      (some ⟨value, some ((now / 1000).toNat / 1000 + span ttl)⟩)
    valkeyEnds after k = none ∨
    valkeyEnds after k = valkeyEnds keys k ∧
      (∀ limit, ¬Grants store.leaseKey Answered k limit (⟨now, ctx, request⟩, reply)) ∨
    ∃ limit e, Grants store.leaseKey Answered k limit (⟨now, ctx, request⟩, reply) ∧
      valkeyEnds after k = some e ∧ e ≤ limit := by
  intro after
  by_cases hk : k = store.leaseKey key
  · refine .inr (.inr ⟨now + ttl, _, (grants_iff hext).mpr ⟨hgiven, hk.symm, rfl⟩, ?_, gone_le hnow hmin⟩)
    rw [valkeyEnds_update, if_pos hk]
    rfl
  · rw [valkeyEnds_update, if_neg hk]
    rcases hother hk with hnone | hsame
    · exact .inl hnone
    · exact .inr (.inl ⟨hsame, fun limit hg => hk ((grants_iff hext).mp hg).2.1.symm⟩)

theorem valkey_moves (h : store.WellFormed keys) {call : Call} (hcall : Valkeyable call) (k : Bytes) :
    valkeyEnds (store.serve keys call).1 k = none ∨
    valkeyEnds (store.serve keys call).1 k = valkeyEnds keys k ∧
      (∀ limit, ¬Grants store.leaseKey Answered k limit (call, (store.serve keys call).2)) ∨
    ∃ limit e, Grants store.leaseKey Answered k limit (call, (store.serve keys call).2) ∧
      valkeyEnds (store.serve keys call).1 k = some e ∧ e ≤ limit := by
  have hs := Store.serve_step h call hcall.1
  obtain ⟨now, ctx, request⟩ := call
  obtain ⟨hfits, hnow⟩ := hcall
  cases request with
  | tryAcquire key owner ttl =>
      rcases @valkey_tryAcquire store keys (now / 1000).toNat ctx h key owner ttl hfits with
        ⟨hkept, err, herr, hne, _⟩ | ⟨hmin, hanswered, counter, value, hstate⟩
      · simp only [Store.serve, hkept]
        refine .inr (.inl ⟨trivial, ?_⟩)
        rintro limit ⟨hnone | hunread, _⟩
        · cases herr.symm.trans hnone
        · exact hne (Option.some.inj (herr.symm.trans hunread))
      · simp only [Store.serve, hstate]
        refine moves_hash rfl hanswered hnow hmin _ fun hk => ?_
        rw [valkeyEnds_update]
        split
        next =>
          unfold counterItem
          split <;> exact .inl rfl
        next => exact .inr rfl
  | renew owned ttl =>
      rcases @valkey_renew store keys (now / 1000).toNat ctx h owned ttl hfits with
        ⟨hkept, hnot⟩ | ⟨hmin, hanswered, value, hstate⟩
      · simp only [Store.serve, hkept]
        exact .inr (.inl ⟨trivial, fun limit hg => hnot hg.1⟩)
      · simp only [Store.serve, hstate]
        exact moves_hash rfl hanswered hnow hmin keys (fun _ => .inr rfl)
  | validate owned =>
      generalize store.serve keys _ = result at hs ⊢
      dsimp only at hs
      cases hs with
      | kept =>
          refine .inr (.inl ⟨rfl, ?_⟩)
          rintro limit ⟨_, _, _, hext, _⟩
          cases hext
  | release owned =>
      generalize store.serve keys _ = result at hs ⊢
      dsimp only at hs
      have hnot (limit : Int) :
          ¬Grants store.leaseKey Answered k limit (⟨now, ctx, .release owned⟩, result.2) := by
        rintro ⟨_, _, _, hext, _⟩
        cases hext
      cases hs with
      | kept => exact .inr (.inl ⟨rfl, hnot⟩)
      | released =>
          rw [valkeyEnds_update]
          split
          next => exact .inl rfl
          next => exact .inr (.inl ⟨rfl, hnot⟩)

theorem valkey_contended (h : store.WellFormed keys) {now ttl : Int} {key : Key} {owner : Bytes} {err : Error}
    (hfits : ttl < 2 ^ 63)
    (herr : (store.serve keys ⟨now, ctx, .tryAcquire key owner ttl⟩).2.err = some err)
    (hcontended : err.is .errContended = true) :
    ∃ e, valkeyEnds keys (store.leaseKey key) = some e ∧ now < e := by
  rcases @valkey_tryAcquire store keys (now / 1000).toNat ctx h key owner ttl hfits with
    ⟨_, other, hother, _, hpresent⟩ | ⟨_, hnone | hunread, _⟩
  · obtain rfl : err = other := Option.some.inj (herr.symm.trans hother)
    obtain ⟨item, hfind⟩ := Option.isSome_iff_exists.mp (hpresent hcontended)
    obtain ⟨hk, hlive⟩ := Option.filter_eq_some_iff.mp hfind
    obtain ⟨_, _, _, _, gone, rfl, _⟩ := h.lease key item hk
    refine ⟨unixMilli gone, ?_, ?_⟩
    · simp only [valkeyEnds, hk, Option.bind_some, Option.map_some]
    · simp only [Item.live, Option.all_some, decide_eq_true_eq] at hlive
      simp only [unixMilli, millisecond]
      omega
  · cases herr.symm.trans hnone
  · obtain rfl : err = unreadable := Option.some.inj (herr.symm.trans hunread)
    cases hcontended

def valkeyLapsing (store : Valkey.Store) : Lapsing store.serve store.leaseKey Answered Valkeyable where
  ok := store.WellFormed
  ends := valkeyEnds
  ok_exec {_ call} hok hcall := hok.step (Store.serve_step hok call hcall.1)
  moves hok hcall k := valkey_moves hok hcall k
  contended := by
    rintro keys ⟨now, ctx, request⟩ key owner ttl err hok hcall rfl herr hcontended
    exact valkey_contended hok hcall.1 herr hcontended

end Valkey

/-- What a refusal for contention tells: the last grant of the slot, as the
history has it, has not run out. -/
def Owed {σ κ : Type} (exec : σ → Call → σ × Reply) (slot : Key → κ) (P : Reply → Prop) (start : σ)
    (past : List Call) (call : Call) (key : Key) : Prop :=
  ∀ err, (exec (run exec start past) call).2.err = some err → err.is .errContended = true →
    ∃ limit, LastGrant slot P (slot key) limit (trace exec start past) ∧ call.now < limit

/-- A lease that nobody renews or releases, its holder having crashed, stops
refusing others once the TTL of its last grant is over. -/
theorem contention_lapses {maxKeys : Nat} {memory : Memory.Store} (hnew : Memory.new maxKeys = .ok memory)
    (postgres : Postgres.Store) (valkey : Valkey.Store) (past : List Call) {call : Call} {key : Key}
    {owner : Bytes} {ttl : Int} (hrequest : call.request = .tryAcquire key owner ttl) :
    Owed Memory.Store.exec id Given memory past call key ∧
    Owed postgres.serve postgres.digest Given .empty past call key ∧
    ((∀ c ∈ past, Valkeyable c) → Valkeyable call →
      Owed valkey.serve valkey.leaseKey Answered (fun _ => none) past call key) := by
  refine ⟨?_, ?_, ?_⟩
  · intro err herr hcontended
    obtain rfl := Memory.new_ok hnew
    exact memoryLapsing.contention trivial (fun _ => rfl) (fun _ _ => trivial) trivial hrequest herr
      hcontended
  · intro err herr hcontended
    exact (postgresLapsing postgres).contention trivial (fun _ => rfl) (fun _ _ => trivial) trivial hrequest
      herr hcontended
  · intro hpast hcall err herr hcontended
    exact (valkeyLapsing valkey).contention Valkey.Store.wellFormed_empty (fun _ => rfl) hpast hcall hrequest
      herr hcontended

def held : List Call := [⟨0, none, .tryAcquire ⟨[107]⟩ [97] 5000000⟩]

def rival : Call := ⟨4000000, none, .tryAcquire ⟨[107]⟩ [98] 5000000⟩

theorem valkeyable_held : ∀ call ∈ held, Valkeyable call := by
  intro call hmem
  rw [List.mem_singleton.mp hmem]
  exact ⟨(by decide : (5000000 : Int) < 2 ^ 63), by decide⟩

theorem contention_lapses_held :
    (∃ limit, LastGrant id Given ⟨[107]⟩ limit (trace Memory.Store.exec ⟨1, ∅⟩ held) ∧ 4000000 < limit) ∧
    (∃ limit, LastGrant (Postgres.Store.digest ⟨id, fun _ => true⟩) Given [107] limit
      (trace (Postgres.Store.serve ⟨id, fun _ => true⟩) .empty held) ∧ 4000000 < limit) ∧
    ∃ limit, LastGrant Valkey.Store.plain.leaseKey Answered (Valkey.Store.plain.leaseKey ⟨[107]⟩) limit
      (trace Valkey.Store.plain.serve (fun _ => none) held) ∧ 4000000 < limit := by
  obtain ⟨hmemory, hpostgres, hvalkey⟩ := @contention_lapses 1 ⟨1, ∅⟩ rfl ⟨id, fun _ => true⟩
    Valkey.Store.plain held rival _ _ _ rfl
  have hrival : Valkeyable rival := ⟨(by decide : (5000000 : Int) < 2 ^ 63), by decide⟩
  exact ⟨hmemory _ rfl rfl, hpostgres _ rfl rfl, hvalkey valkeyable_held hrival _ rfl rfl⟩

end GoLease.Availability
