import GoLease.Postgres.Store
import Mathlib.Tactic.SplitIfs

/-!
The store over any driver: what it makes of the values that a Scan leaves
behind, whatever they are.
-/

namespace GoLease.Postgres.Responses

/-- The destinations of a Scan. -/
structure RecordScan where
  token : Int
  acquiredAt : Int
  expiresAt : Int
  deriving DecidableEq, Repr

structure AcquireScan extends RecordScan where
  outcome : Bytes
  deriving DecidableEq, Repr

/-- QueryRow and Scan for each statement, over the state that they act on. -/
structure Driver (σ : Type) where
  acquireSQL : (digest owner : Bytes) → (ms : Int) → σ → σ × Except Error AcquireScan
  renewSQL : (digest owner : Bytes) → (token : Nat) → (ms : Int) → σ → σ × Except Error RecordScan
  validateSQL : (digest owner : Bytes) → (token : Nat) → σ → σ × Except Error RecordScan
  releaseSQL : (digest owner : Bytes) → (token : Nat) → σ → σ × Except Error Bytes
  cleanupSQL : (batch : Nat) → σ → σ × Except Error Int

def contended : Bytes := ascii ['c', 'o', 'n', 't', 'e', 'n', 'd', 'e', 'd']

def exhausted : Bytes := ascii ['e', 'x', 'h', 'a', 'u', 's', 't', 'e', 'd']

def ok : Bytes := ascii ['o', 'k']

def idempotent : Bytes := ascii ['i', 'd', 'e', 'm', 'p', 'o', 't', 'e', 'n', 't']

def stale : Bytes := ascii ['s', 't', 'a', 'l', 'e']

def recordFromValues (key : Key) (owner : Bytes) (scan : RecordScan) : Except Error Record :=
  if scan.token ≤ 0 ∨ ¬scan.acquiredAt < scan.expiresAt then
    .error (wrap .errBackendUnavailable "postgres response")
  else .ok ⟨key, owner, scan.token.toNat, scan.acquiredAt, scan.expiresAt⟩

def scanRecord (key : Key) (owner : Bytes) : Except Error RecordScan → Except Error Record
  | .error err => .error err
  | .ok scan => recordFromValues key owner scan

section Decoding

variable (ctx : Ctx)

/-- TryAcquire from its Scan on. -/
def acquired (key : Key) (owner : Bytes) : Except Error AcquireScan → Except Error Record
  | .error err => .error (classify ctx err true)
  | .ok scan =>
    if scan.outcome = contended then .error (wrap .errContended "postgres acquire")
    else if scan.outcome = exhausted then .error (wrap .errBackendUnavailable "postgres fence exhausted")
    else if scan.outcome = ok then
      match recordFromValues key owner scan.toRecordScan with
      | .error err => .error (classify ctx err true)
      | .ok record => .ok record
    else .error (classify ctx (wrap .errBackendUnavailable "postgres acquire response") true)

/-- Renew and Validate from their Scan on. -/
def continued (operation : String) (ambiguous : Bool) (mismatch : Error) (owned : Record)
    (scan : Except Error RecordScan) : Except Error Record :=
  match scanRecord owned.key owned.owner scan with
  | .error err =>
    if err.is .pgxErrNoRows then .error (wrap .errStaleOwner operation)
    else .error (classify ctx err ambiguous)
  | .ok record => if record.token ≠ owned.token then .error mismatch else .ok record

def renewed (owned : Record) (scan : Except Error RecordScan) : Except Error Record :=
  continued ctx "postgres renew" true (wrap .errAmbiguousOutcome "postgres renew response") owned scan

/-- The context is the one found after the statement. -/
def validated (owned : Record) (scan : Except Error RecordScan) : Except Error Record :=
  continued ctx "postgres validate" false (wrap .errBackendUnavailable "postgres validate response") owned
    scan

def released : Except Error Bytes → Option Error
  | .error err => some (classify ctx err true)
  | .ok outcome =>
    if outcome = ok ∨ outcome = idempotent then none
    else if outcome = stale then some (wrap .errStaleOwner "postgres release")
    else some (wrap .errBackendUnavailable "postgres response")

def cleaned (batch : Nat) : Except Error Int → Except Error Nat
  | .error err => .error (classify ctx err true)
  | .ok count =>
    if count < 0 ∨ count > batch then .error (wrap .errBackendUnavailable "postgres cleanup response")
    else .ok count.toNat

end Decoding

section Methods

variable (store : Store) {σ : Type} (driver : Driver σ) (state : σ)

def tryAcquire (ctx : Ctx) (key : Key) (owner : Bytes) (ttl : Int) : σ × Except Error Record :=
  match Postgres.validate ctx key owner 1 ttl with
  | some err => (state, .error err)
  | none =>
    let result := driver.acquireSQL (store.digest key) owner (milliseconds ttl) state
    (result.1, acquired ctx key owner result.2)

def renew (ctx : Ctx) (owned : Record) (ttl : Int) : σ × Except Error Record :=
  match Postgres.validate ctx owned.key owned.owner owned.token ttl with
  | some err => (state, .error err)
  | none =>
    let result := driver.renewSQL (store.digest owned.key) owned.owner owned.token (milliseconds ttl) state
    (result.1, renewed ctx owned result.2)

def validate (ctx after : Ctx) (owned : Record) : σ × Except Error Record :=
  match Postgres.validate ctx owned.key owned.owner owned.token millisecond with
  | some err => (state, .error err)
  | none =>
    let result := driver.validateSQL (store.digest owned.key) owned.owner owned.token state
    (result.1, validated after owned result.2)

def release (ctx : Ctx) (owned : Record) : σ × Option Error :=
  match Postgres.validate ctx owned.key owned.owner owned.token millisecond with
  | some err => (state, some err)
  | none =>
    let result := driver.releaseSQL (store.digest owned.key) owned.owner owned.token state
    (result.1, released ctx result.2)

def cleanup (ctx : Ctx) (batch : Nat) : σ × Except Error Nat :=
  if ctx.isSome then (state, .error (wrap .errCanceled "postgres cleanup"))
  else if batch = 0 ∨ batch > 10000 then (state, .error (wrap .errInvalidState "postgres cleanup"))
  else
    let result := driver.cleanupSQL batch state
    (result.1, cleaned ctx batch result.2)

/-- One call of the Backend interface. -/
def exec (ctx after : Ctx) (request : Request) : σ × Reply :=
  match request with
  | .tryAcquire key owner ttl =>
    let result := tryAcquire store driver state ctx key owner ttl
    (result.1, .ofRecord result.2)
  | .renew owned ttl =>
    let result := renew store driver state ctx owned ttl
    (result.1, .ofRecord result.2)
  | .validate owned =>
    let result := validate store driver state ctx after owned
    (result.1, .ofRecord result.2)
  | .release owned =>
    let result := release store driver state ctx owned
    (result.1, .ofErr result.2)

end Methods

section Server

/-- The texts that the statements select. -/
def acquireText : AcquireOutcome → Bytes
  | .ok => ok
  | .contended => contended
  | .exhausted => exhausted

def releaseText : ReleaseOutcome → Bytes
  | .ok => ok
  | .idempotent => idempotent
  | .stale => stale

/-- The values of a row; a query without one is an error of the Scan. -/
def scanned : Except Error (Option RecordRow) → Except Error RecordScan
  | .error err => .error err
  | .ok none => .error (.sentinel .pgxErrNoRows)
  | .ok (some row) => .ok ⟨row.token, row.acquiredAt, row.expiresAt⟩

variable (store : Store) (clock : Clock)

/-- The driver of a reachable server. The rows that a cleanup has locked are an
argument, as in cleanupSQL. -/
def serving (doomed : List (Bytes × Int)) : Driver Database where
  acquireSQL digest owner ms db :=
    let result := store.query db owner (db.acquireSQL clock digest owner ms)
    (result.1, result.2.map (fun row =>
      ⟨⟨row.token, row.acquiredAt, row.expiresAt⟩, acquireText row.outcome⟩))
  renewSQL digest owner token ms db :=
    let result := store.query db owner (db.renewSQL clock digest owner token ms)
    (result.1, scanned result.2)
  validateSQL digest owner token db :=
    let result := store.query db owner (db, some (db.validateSQL clock digest owner token))
    (result.1, scanned result.2)
  releaseSQL digest owner token db :=
    let result := db.releaseSQL clock digest owner token
    let result := store.query db owner (result.1, some result.2)
    (result.1, result.2.map releaseText)
  cleanupSQL batch db :=
    let result := db.cleanupSQL batch doomed
    (result.1, .ok result.2)

theorem recordFromValues_natCast (key : Key) (owner : Bytes) (token : Nat) (acquiredAt expiresAt : Int) :
    recordFromValues key owner ⟨token, acquiredAt, expiresAt⟩ =
      Postgres.recordFromValues key owner token acquiredAt expiresAt := by
  have hzero : (token : Int) ≤ 0 ↔ token = 0 := by omega
  simp only [recordFromValues, Postgres.recordFromValues, hzero, Int.toNat_natCast]

theorem scanRecord_scanned (key : Key) (owner : Bytes) (rows : Except Error (Option RecordRow)) :
    scanRecord key owner (scanned rows) = Postgres.scanRecord key owner rows := by
  rcases rows with err | _ | row
  · rfl
  · rfl
  · exact recordFromValues_natCast key owner row.token row.acquiredAt row.expiresAt

variable (db : Database) (ctx : Ctx) (doomed : List (Bytes × Int))

theorem tryAcquire_serving (key : Key) (owner : Bytes) (ttl : Int) :
    tryAcquire store (serving store clock doomed) db ctx key owner ttl =
      store.tryAcquire clock db ctx key owner ttl := by
  simp only [tryAcquire, Store.tryAcquire, serving]
  cases Postgres.validate ctx key owner 1 ttl with
  | some err => rfl
  | none =>
      dsimp only
      generalize store.query db owner _ = result
      obtain ⟨db', err | ⟨token, acquiredAt, expiresAt, outcome⟩⟩ := result
      · rfl
      · cases outcome with
        | ok =>
            simp only [Except.map, acquireText, acquired, recordFromValues_natCast]
            rw [if_neg (by decide), if_neg (by decide), if_pos trivial]
            cases Postgres.recordFromValues key owner token acquiredAt expiresAt <;> rfl
        | contended => rfl
        | exhausted => rfl

theorem renew_serving (owned : Record) (ttl : Int) :
    renew store (serving store clock doomed) db ctx owned ttl = store.renew clock db ctx owned ttl := by
  simp only [renew, Store.renew, serving, renewed, continued, scanRecord_scanned]
  cases Postgres.validate ctx owned.key owned.owner owned.token ttl with
  | some err => rfl
  | none =>
      dsimp only
      generalize store.query db owned.owner _ = result
      obtain ⟨db', rows⟩ := result
      dsimp only
      cases Postgres.scanRecord owned.key owned.owner rows <;> dsimp only <;> split <;> rfl

theorem validate_serving (owned : Record) :
    validate store (serving store clock doomed) db ctx ctx owned =
      (db, store.validate clock db ctx owned) := by
  have hdb (rows : Option (Option RecordRow)) : (store.query db owned.owner (db, rows)).1 = db := by
    unfold Store.query
    split <;> rfl
  simp only [validate, Store.validate, serving, validated, continued, scanRecord_scanned, hdb]
  cases Postgres.validate ctx owned.key owned.owner owned.token millisecond with
  | some err => rfl
  | none => cases Postgres.scanRecord owned.key owned.owner _ <;> rfl

theorem release_serving (owned : Record) :
    release store (serving store clock doomed) db ctx owned = store.release clock db ctx owned := by
  simp only [release, Store.release, serving]
  cases Postgres.validate ctx owned.key owned.owner owned.token millisecond with
  | some err => rfl
  | none =>
      dsimp only
      generalize store.query db owned.owner _ = result
      obtain ⟨db', err | outcome⟩ := result
      · rfl
      · cases outcome <;> rfl

theorem cleanup_serving (batch : Nat) :
    cleanup (serving store clock doomed) db ctx batch = Store.cleanup db ctx batch doomed := by
  have hcount : ((db.cleanupSQL batch doomed).2 : Int) < 0 ∨ ((db.cleanupSQL batch doomed).2 : Int) > batch ↔
      (db.cleanupSQL batch doomed).2 > batch := by omega
  simp only [cleanup, Store.cleanup, serving, cleaned, hcount, Int.toNat_natCast]
  split_ifs <;> rfl

/-- Over a server that answers, no default branch is ever taken. -/
theorem exec_serving (request : Request) :
    exec store (serving store clock doomed) db ctx ctx request = store.exec clock db ctx request := by
  cases request with
  | tryAcquire key owner ttl => simp only [exec, Store.exec, tryAcquire_serving]
  | renew owned ttl => simp only [exec, Store.exec, renew_serving]
  | validate owned => simp only [exec, Store.exec, validate_serving]
  | release owned => simp only [exec, Store.exec, release_serving]

end Server

end GoLease.Postgres.Responses
