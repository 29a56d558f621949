import GoLease.Fleet
import GoLease.Postgres.Isolation.Server
import GoLease.Postgres.Responses

/-!
Clients and their handles over a PostgreSQL server that runs their statements
concurrently. A call is not an instant here: its statement is sent, waits for
locks, is evaluated and committed or rolled back, and is answered, and time
passes in between.
-/

namespace GoLease.Postgres.Contested

open Isolation Responses

/-- Who waits for a statement: an attempt to acquire, a call of a handle, or
the operator who runs Cleanup. -/
inductive Origin
  | acquire (session : Nat)
  | call (message : Nat)
  | cleanup
  deriving DecidableEq, Repr

structure Ticket where
  origin : Origin
  sent : Int
  deriving DecidableEq, Repr

/-- The server, and for each of its sessions who sent the statement and when. -/
structure Backend where
  server : Server
  tickets : List Ticket

def Backend.submit (b : Backend) (ticket : Ticket) (statement : Statement) : Backend :=
  ⟨{ b.server with sessions := b.server.sessions ++ [⟨statement, .waiting⟩] }, b.tickets ++ [ticket]⟩

abbrev System := Fleet Backend

def start (now : Int) (db : Database) : System := .start now ⟨⟨db, [], []⟩, []⟩

section Calls

variable (store : Store)

def statement : Request → Statement
  | .tryAcquire key owner ttl => .acquire (store.digest key) owner (milliseconds ttl)
  | .renew owned ttl => .renew (store.digest owned.key) owned.owner owned.token (milliseconds ttl)
  | .validate owned => .validate (store.digest owned.key) owned.owner owned.token
  | .release owned => .release (store.digest owned.key) owned.owner owned.token

/-- The arguments that pass the store's checks and are text for the server. -/
def acceptable (ctx : Ctx) : Request → Bool
  | .tryAcquire key owner ttl =>
    (Postgres.validate ctx key owner 1 ttl).isNone && store.isText owner
  | .renew owned ttl =>
    (Postgres.validate ctx owned.key owned.owner owned.token ttl).isNone && store.isText owned.owner
  | .validate owned | .release owned =>
    (Postgres.validate ctx owned.key owned.owner owned.token millisecond).isNone &&
      store.isText owned.owner

/-- What Scan finds, or the error of a statement that was given up. -/
def scanAcquire (err : Error) : Option Answer → Except Error AcquireScan
  | some (.acquired row) => .ok ⟨⟨row.token, row.acquiredAt, row.expiresAt⟩, acquireText row.outcome⟩
  | some .aborted => .error (.foreign "check constraint")
  | _ => .error err

def scanRow (err : Error) : Option Answer → Except Error RecordScan
  | some (.record row) => scanned (.ok row)
  | some .aborted => .error (.foreign "check constraint")
  | _ => .error err

def scanRelease (err : Error) : Option Answer → Except Error Bytes
  | some (.released outcome) => .ok (releaseText outcome)
  | _ => .error err

def reply (ctx : Ctx) (err : Error) (answer : Option Answer) : Request → Reply
  | .tryAcquire key owner _ => .ofRecord (acquired ctx key owner (scanAcquire err answer))
  | .renew owned _ => .ofRecord (renewed ctx owned (scanRow err answer))
  | .validate owned => .ofRecord (validated ctx owned (scanRow err answer))
  | .release _ => .ofErr (released ctx (scanRelease err answer))

/-- A driver without a connection. -/
def unreachable (err : Error) : Driver Backend where
  acquireSQL _ _ _ b := (b, .error err)
  renewSQL _ _ _ _ b := (b, .error err)
  validateSQL _ _ _ b := (b, .error err)
  releaseSQL _ _ _ b := (b, .error err)
  cleanupSQL _ b := (b, .error err)

/-- A call that fails before its statement is sent, or that is given up while
the server still works on it. -/
def refuse (b : Backend) (call : Call) : Backend × Reply :=
  Responses.exec store (unreachable (.foreign "connection")) b call.ctx call.ctx call.request

end Calls

section Steps

variable (store : Store) (f : System)

/-- The request of a call that has no reply yet. -/
def awaited : Origin → Option Request
  | .acquire i =>
    match f.sessions[i]? with
    | some s => if s.reply.isSome then none else some (.tryAcquire s.key s.owner s.policy.1.ttl.toInt)
    | none => none
  | .call n =>
    match f.messages[n]? with
    | some msg => if msg.reply.isSome then none else some msg.request
    | none => none
  | .cleanup => none

def answer (reply : Reply) : Origin → System
  | .acquire i =>
    match f.sessions[i]? with
    | some s => { f with sessions := f.sessions.set i { s with reply := some reply } }
    | none => f
  | .call n =>
    match f.messages[n]? with
    | some msg => { f with messages := f.messages.set n { msg with reply := some reply } }
    | none => f
  | .cleanup => f

def send (origin : Origin) (ctx : Ctx) : System :=
  match awaited f origin with
  | some request =>
    if acceptable store ctx request ∧ ¬f.store.tickets.any (fun ticket => ticket.origin == origin) then
      { f with store := f.store.submit ⟨origin, f.now⟩ (statement store request) }
    else f
  | none => f

/-- The readings of an evaluation. The row that an INSERT proposes may have been
built any time since the statement was sent; what is decided on a locked row is
decided at the instant of the event. -/
def instants (sent : Int) (clock : Clock) : Clock :=
  fun k => if k ≤ 2 then max sent (min (clock k) f.now) else f.now

def stamp : Isolation.Event → Isolation.Event
  | .install i clock =>
    .install i (instants f ((f.store.tickets[i]?).elim f.now Ticket.sent) clock)
  | .update i seen _ => .update i seen (frozen f.now)
  | event => event

def isReturned : Isolation.Session → Bool
  | ⟨_, .returned _ _⟩ => true
  | _ => false

def advance (event : Isolation.Event) : System :=
  { f with store := { f.store with server := f.store.server.step (stamp f event) } }

/-- A step of the server. Whoever waits for the statement has the reply from
the moment it returns, to be delivered later. -/
def serve (event : Isolation.Event) (ctx : Ctx) (err : Error) : System :=
  match f.store.server.sessions[event.session]?, (advance f event).store.server.sessions[event.session]?,
    f.store.tickets[event.session]? with
  | some before, some ⟨_, .returned _ result⟩, some ticket =>
    if isReturned before then advance f event
    else
      match awaited f ticket.origin with
      | some request => answer (advance f event) (reply ctx err result request) ticket.origin
      | none => advance f event
  | _, _, _ => advance f event

end Steps

inductive Event
  | client (event : Fleet.Event)
  | send (origin : Origin) (ctx : Ctx)
  | cleanup (batch : Nat) (doomed : List (Bytes × Int))
  | serve (event : Isolation.Event) (ctx : Ctx) (err : Error)

def step (store : Store) (f : System) : Event → System
  | .client event => f.step (refuse store) event
  | .send origin ctx => send store f origin ctx
  | .cleanup batch doomed =>
    { f with store := f.store.submit ⟨.cleanup, f.now⟩ (.cleanup batch doomed) }
  | .serve event ctx err => serve f event ctx err

end GoLease.Postgres.Contested
