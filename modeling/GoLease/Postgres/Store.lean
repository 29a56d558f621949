import GoLease.Postgres.Database

namespace GoLease.Postgres

/-- The store borrows its database with every call. SHA-256 and the server's
test that a string is text in its encoding are parameters. -/
structure Store where
  sha256 : Bytes → Bytes
  isText : Bytes → Bool

def validate (ctx : Ctx) (key : Key) (owner : Bytes) (token : Nat) (ttl : Int) : Option Error :=
  if ctx.isSome then some (wrap .errCanceled "postgres context")
  else if key.value = [] then some (wrap .errInvalidState "postgres input")
  else if owner = [] then some (wrap .errInvalidState "postgres input")
  else if owner.length > 128 then some (wrap .errInvalidState "postgres input")
  else if token = 0 then some (wrap .errInvalidState "postgres input")
  else if token > maxInt64 then some (wrap .errInvalidState "postgres input")
  else if ttl < millisecond then some (wrap .errInvalidState "postgres input")
  else none

def classify (ctx : Ctx) (err : Error) (ambiguous : Bool) : Error :=
  classifyAs "postgres operation" ctx err ambiguous

def recordFromValues (key : Key) (owner : Bytes) (token : Nat) (acquiredAt expiresAt : Int) :
    Except Error Record :=
  if token = 0 ∨ ¬acquiredAt < expiresAt then
    .error (wrap .errBackendUnavailable "postgres response")
  else .ok ⟨key, owner, token, acquiredAt, expiresAt⟩

def scanRecord (key : Key) (owner : Bytes) : Except Error (Option RecordRow) → Except Error Record
  | .error err => .error err
  | .ok none => .error (.sentinel .pgxErrNoRows)
  | .ok (some row) => recordFromValues key owner row.token row.acquiredAt row.expiresAt

def milliseconds (ttl : Int) : Int := ttl.tdiv millisecond

namespace Store

variable (store : Store) (clock : Clock) (db : Database)

def digest (key : Key) : Bytes := store.sha256 key.value

/-- A statement that carries an owner: the server refuses a parameter that is
not text, and aborts a statement that violates a constraint. -/
def query {α : Type} (owner : Bytes) (result : Database × Option α) : Database × Except Error α :=
  if store.isText owner then (result.1, result.2.elim (.error (.foreign "check constraint")) .ok)
  else (db, .error (.foreign "invalid byte sequence"))

def tryAcquire (ctx : Ctx) (key : Key) (owner : Bytes) (ttl : Int) : Database × Except Error Record :=
  match Postgres.validate ctx key owner 1 ttl with
  | some err => (db, .error err)
  | none =>
    match store.query db owner (db.acquireSQL clock (store.digest key) owner (milliseconds ttl)) with
    | (db, .error err) => (db, .error (classify ctx err true))
    | (db, .ok row) =>
      match row.outcome with
      | .contended => (db, .error (wrap .errContended "postgres acquire"))
      | .exhausted => (db, .error (wrap .errBackendUnavailable "postgres fence exhausted"))
      | .ok =>
        match recordFromValues key owner row.token row.acquiredAt row.expiresAt with
        | .error err => (db, .error (classify ctx err true))
        | .ok record => (db, .ok record)

def renew (ctx : Ctx) (owned : Record) (ttl : Int) : Database × Except Error Record :=
  match Postgres.validate ctx owned.key owned.owner owned.token ttl with
  | some err => (db, .error err)
  | none =>
    match store.query db owned.owner
        (db.renewSQL clock (store.digest owned.key) owned.owner owned.token (milliseconds ttl)) with
    | (db, rows) =>
      match scanRecord owned.key owned.owner rows with
      | .error err =>
        if err.is .pgxErrNoRows then (db, .error (wrap .errStaleOwner "postgres renew"))
        else (db, .error (classify ctx err true))
      | .ok record =>
        if record.token ≠ owned.token then
          (db, .error (wrap .errAmbiguousOutcome "postgres renew response"))
        else (db, .ok record)

def validate (ctx : Ctx) (owned : Record) : Except Error Record :=
  match Postgres.validate ctx owned.key owned.owner owned.token millisecond with
  | some err => .error err
  | none =>
    let rows := db.validateSQL clock (store.digest owned.key) owned.owner owned.token
    match scanRecord owned.key owned.owner (store.query db owned.owner (db, some rows)).2 with
    | .error err =>
      if err.is .pgxErrNoRows then .error (wrap .errStaleOwner "postgres validate")
      else .error (classify ctx err false)
    | .ok record =>
      if record.token ≠ owned.token then
        .error (wrap .errBackendUnavailable "postgres validate response")
      else .ok record

def release (ctx : Ctx) (owned : Record) : Database × Option Error :=
  match Postgres.validate ctx owned.key owned.owner owned.token millisecond with
  | some err => (db, some err)
  | none =>
    let result := db.releaseSQL clock (store.digest owned.key) owned.owner owned.token
    match store.query db owned.owner (result.1, some result.2) with
    | (db, .error err) => (db, some (classify ctx err true))
    | (db, .ok .ok) | (db, .ok .idempotent) => (db, none)
    | (db, .ok .stale) => (db, some (wrap .errStaleOwner "postgres release"))

/-- The rows that the statement has locked are an argument, as in cleanupSQL. -/
def cleanup (ctx : Ctx) (batch : Nat) (doomed : List (Bytes × Int)) : Database × Except Error Nat :=
  if ctx.isSome then (db, .error (wrap .errCanceled "postgres cleanup"))
  else if batch = 0 ∨ batch > 10000 then (db, .error (wrap .errInvalidState "postgres cleanup"))
  else
    let result := db.cleanupSQL batch doomed
    if result.2 > batch then (result.1, .error (wrap .errBackendUnavailable "postgres cleanup response"))
    else (result.1, .ok result.2)

/-- One call of the Backend interface; its context stays as it was found. -/
def exec (ctx : Ctx) (request : Request) : Database × Reply :=
  match request with
  | .tryAcquire key owner ttl =>
    let result := store.tryAcquire clock db ctx key owner ttl
    (result.1, .ofRecord result.2)
  | .renew owned ttl =>
    let result := store.renew clock db ctx owned ttl
    (result.1, .ofRecord result.2)
  | .validate owned => (db, .ofRecord (store.validate clock db ctx owned))
  | .release owned =>
    let result := store.release clock db ctx owned
    (result.1, .ofErr result.2)

end Store

end GoLease.Postgres
