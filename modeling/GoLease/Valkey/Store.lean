import GoLease.Valkey.Server

namespace GoLease.Valkey

open Decimal

/-- The executor interface over the state it acts on. -/
abbrev Executor (σ : Type) :=
  Operation → List Bytes → List Bytes → σ → σ × Except Error (List Bytes)

/-- The store borrows its executor with every call; SHA-256 is a parameter. -/
structure Store where
  sha256 : Bytes → Bytes
  keyPrefix : Bytes

/-- The bytes that newStore excludes: braces, NUL, CR, LF and the space. -/
def reserved : Bytes := [123, 125, 0, 13, 10, 32]

def newStore (sha256 : Bytes → Bytes) (keyPrefix : Bytes) : Except Error Store :=
  if keyPrefix = [] then .error (wrap .errInvalidState "valkey options")
  else if keyPrefix.length > 64 then .error (wrap .errInvalidState "valkey options")
  else if keyPrefix.any (reserved.contains ·) then .error (wrap .errInvalidState "valkey options")
  else .ok ⟨sha256, keyPrefix⟩

def hexDigit (n : Nat) : UInt8 := UInt8.ofNat (if n < 10 then 48 + n else 87 + n)

/-- Lower-case hexadecimal, two digits for each byte. -/
def encodeToString (sum : Bytes) : Bytes :=
  sum.flatMap (fun b => [hexDigit (b.toNat / 16), hexDigit (b.toNat % 16)])

def leaseSuffix : Bytes := ascii [':', 'l', 'e', 'a', 's', 'e']

def counterSuffix : Bytes := ascii [':', 'c', 'o', 'u', 'n', 't', 'e', 'r']

def validate (ctx : Ctx) (key : Key) (owner : Bytes) (token : Nat) (ttl : Int) : Option Error :=
  if ctx.isSome then some (wrap .errCanceled "valkey context")
  else if key.value = [] then some (wrap .errInvalidState "valkey input")
  else if owner = [] then some (wrap .errInvalidState "valkey input")
  else if owner.length > 128 then some (wrap .errInvalidState "valkey input")
  else if token = 0 then some (wrap .errInvalidState "valkey input")
  else if ttl < millisecond then some (wrap .errInvalidState "valkey input")
  else none

def classify (ctx : Ctx) (err : Error) (ambiguous : Bool) : Error :=
  classifyAs "valkey operation" ctx err ambiguous

def parseRecord (key : Key) (owner : Bytes) (reply : List Bytes) (expected : Sentinel) :
    Except Error Record :=
  if reply.length = 1 ∧ reply.head? ≠ some ok then .error (wrap expected "valkey operation")
  else match reply with
    | [status, tokenText, acquiredText, expiresText] =>
      if status ≠ ok then .error (wrap .errBackendUnavailable "valkey response")
      else match parseUint tokenText, parseInt acquiredText, parseInt expiresText with
        | some token, some acquired, some expires =>
          if token = 0 then .error (wrap .errBackendUnavailable "valkey response")
          else if expires ≤ acquired then .error (wrap .errBackendUnavailable "valkey response")
          else .ok ⟨key, owner, token, unixMilli acquired, unixMilli expires⟩
        | _, _, _ => .error (wrap .errBackendUnavailable "valkey response")
    | _ => .error (wrap .errBackendUnavailable "valkey response")

/-- Duration.Milliseconds in decimal, for durations of at least one. -/
def formatMilliseconds (ttl : Int) : Bytes := format (ttl.tdiv millisecond).toNat

/-- strings.IndexByte, with none in place of -1. -/
def indexByte (text : Bytes) (c : UInt8) : Option Nat := text.idxOf? c

/-- The bytes between the first opening brace and the first closing one after it. -/
def hashTag (key : Bytes) : Bytes :=
  match indexByte key 123 with
  | none => []
  | some start =>
    let rest := key.drop (start + 1)
    match indexByte rest 125 with
    | none => []
    | some stop => rest.take stop

/-- The coordinates that a protected writer compares with the lease hash. -/
structure Guard where
  storageKey : Bytes
  owner : Bytes
  token : Bytes
  deriving DecidableEq, Repr

namespace Store

variable (store : Store) {σ : Type} (executor : Executor σ) (state : σ)

def tag (key : Key) : Bytes :=
  [123] ++ encodeToString ((store.sha256 key.value).take 16) ++ [125]

def leaseKey (key : Key) : Bytes := store.keyPrefix ++ [58] ++ store.tag key ++ leaseSuffix

def counterKey (key : Key) : Bytes := store.keyPrefix ++ [58] ++ store.tag key ++ counterSuffix

def keys (key : Key) : List Bytes := [store.leaseKey key, store.counterKey key]

def guard (owned : Record) : Except Error Guard :=
  if owned.key.value = [] then .error (wrap .errInvalidState "valkey guard")
  else if owned.owner = [] then .error (wrap .errInvalidState "valkey guard")
  else if owned.owner.length > 128 then .error (wrap .errInvalidState "valkey guard")
  else if owned.token = 0 then .error (wrap .errInvalidState "valkey guard")
  else .ok ⟨store.leaseKey owned.key, owned.owner, format owned.token⟩

def tryAcquire (ctx : Ctx) (key : Key) (owner : Bytes) (ttl : Int) : σ × Except Error Record :=
  match Valkey.validate ctx key owner 1 ttl with
  | some err => (state, .error err)
  | none =>
    match executor .opAcquire (store.keys key) [owner, formatMilliseconds ttl] state with
    | (state, .error err) => (state, .error (classify ctx err true))
    | (state, .ok reply) => (state, parseRecord key owner reply .errContended)

def renew (ctx : Ctx) (owned : Record) (ttl : Int) : σ × Except Error Record :=
  match Valkey.validate ctx owned.key owned.owner owned.token ttl with
  | some err => (state, .error err)
  | none =>
    match executor .opRenew (store.keys owned.key)
        [owned.owner, format owned.token, formatMilliseconds ttl] state with
    | (state, .error err) => (state, .error (classify ctx err true))
    | (state, .ok reply) =>
      match parseRecord owned.key owned.owner reply .errStaleOwner with
      | .error err => (state, .error err)
      | .ok record =>
        if record.token ≠ owned.token then
          (state, .error (wrap .errAmbiguousOutcome "valkey renew response"))
        else (state, .ok record)

/-- The second context is the one found after the script has run. -/
def validate (ctx after : Ctx) (owned : Record) : σ × Except Error Record :=
  match Valkey.validate ctx owned.key owned.owner owned.token millisecond with
  | some err => (state, .error err)
  | none =>
    match executor .opValidate (store.keys owned.key) [owned.owner, format owned.token] state with
    | (state, .error err) => (state, .error (classify after err false))
    | (state, .ok reply) =>
      match parseRecord owned.key owned.owner reply .errStaleOwner with
      | .error err => (state, .error err)
      | .ok record =>
        if record.token ≠ owned.token then
          (state, .error (wrap .errBackendUnavailable "valkey validate response"))
        else (state, .ok record)

def release (ctx : Ctx) (owned : Record) : σ × Option Error :=
  match Valkey.validate ctx owned.key owned.owner owned.token millisecond with
  | some err => (state, some err)
  | none =>
    match executor .opRelease (store.keys owned.key) [owned.owner, format owned.token] state with
    | (state, .error err) => (state, some (classify ctx err true))
    | (state, .ok [status]) =>
      if status = ok ∨ status = missing then (state, none)
      else if status = stale then (state, some (wrap .errStaleOwner "valkey release"))
      else (state, some (wrap .errBackendUnavailable "valkey response"))
    | (state, .ok _) => (state, some (wrap .errBackendUnavailable "valkey response"))

/-- One call of the Backend interface; its context stays as it was found. -/
def exec (ctx : Ctx) (request : Request) : σ × Reply :=
  match request with
  | .tryAcquire key owner ttl =>
    let result := store.tryAcquire executor state ctx key owner ttl
    (result.1, .ofRecord result.2)
  | .renew owned ttl =>
    let result := store.renew executor state ctx owned ttl
    (result.1, .ofRecord result.2)
  | .validate owned =>
    let result := store.validate executor state ctx ctx owned
    (result.1, .ofRecord result.2)
  | .release owned =>
    let result := store.release executor state ctx owned
    (result.1, .ofErr result.2)

end Store

/-- nativeExecutor over a reachable server whose clock reads us; a Lua false
inside the reply is an error of the client library. -/
def nativeExecutor (us : Nat) : Executor Keyspace := fun operation keys args state =>
  match (script operation keys args).exec us state with
  | (.error text, state) => (state, .error (.foreign text))
  | (.ok values, state) =>
    match values.mapM id with
    | none => (state, .error (.foreign "valkey nil message"))
    | some reply => (state, .ok reply)

end GoLease.Valkey
