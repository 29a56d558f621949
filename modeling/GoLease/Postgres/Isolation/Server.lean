import GoLease.Postgres.Outcomes

namespace GoLease.Postgres.Isolation

open Database

/-- What a statement has written and keeps locked until it commits: the fence
and the record of one key, or the records that a cleanup deletes. A record that
acquireSQL spares is locked all the same. -/
inductive Effect
  | nothing
  | write (digest : Bytes) (fence : Option Nat) (record : Option Row)
  | delete (digests : List Bytes)
  deriving DecidableEq, Repr

def Effect.locks : Effect → Bytes → Bool
  | .nothing, _ => false
  | .write key _ _, digest => key == digest
  | .delete digests, digest => digests.contains digest

/-- The written rows become visible. -/
def publish (db : Database) : Effect → Database
  | .nothing => db
  | .write digest fence record =>
    let fenced := fence.elim db (db.setFence digest)
    record.elim fenced (fenced.setRecord digest)
  | .delete digests =>
    { db with records := fun digest => if digests.contains digest then none else db.records digest }

section Rows

variable (clock : Clock) (owner : Bytes) (ms : Int) (token : Nat)

def proposed : Row := ⟨owner, token, clock 0, clock 1 + ms * millisecond, true, clock 2⟩

/-- The part of acquireSQL that follows next_fence, on the row in place: none if
a CHECK fails, and no new row if the WHERE spares the one in place. -/
def install (current : Option Row) : Option (Option Row) :=
  if ¬(proposed clock owner ms token).check then none
  else match current with
    | none => some (some (proposed clock owner ms token))
    | some row =>
      if ¬row.active ∨ row.expiresAt ≤ clock 6 then
        let updated : Row := ⟨owner, token, clock 3, clock 4 + ms * millisecond, true, clock 5⟩
        if ¬updated.check then none else some (some updated)
      else some none

/-- renewSQL on the row in place: none if a CHECK fails, and no new row if the
WHERE does not hold. -/
def renewal : Option Row → Option (Option Row)
  | none => some none
  | some row =>
    if row.ours owner token ∧ row.active ∧ row.expiresAt > clock 2 then
      let updated := { row with expiresAt := clock 0 + ms * millisecond, updatedAt := clock 1 }
      if ¬updated.check then none else some (some updated)
    else some none

/-- The update of releaseSQL on the row in place. -/
def releasing : Option Row → Option Row
  | none => none
  | some row =>
    if row.ours owner token ∧ row.active then some { row with active := false, updatedAt := clock 0 }
    else none

/-- The union reads lease_fences in the snapshot of the statement. -/
def acquireAnswer (snapshot : Database) (digest : Bytes) : Option Row → AcquireRow
  | some row => ⟨token, row.acquiredAt, row.expiresAt, .ok⟩
  | none => ⟨0, clock 7, clock 8, snapshot.refusal digest⟩

end Rows

/-- The rows that a statement writes when it finds the tables like this. -/
def effect (db : Database) : Clock × Statement → Effect
  | (clock, .acquire digest owner ms) =>
    match db.nextFence digest with
    | none => .nothing
    | some token =>
      match install clock owner ms token (db.records digest) with
      | none => .nothing
      | some row => .write digest (some token) row
  | (clock, .renew digest owner token ms) =>
    match renewal clock owner ms token (db.records digest) with
    | some (some row) => .write digest none (some row)
    | _ => .nothing
  | (_, .validate _ _ _) => .nothing
  | (clock, .release digest owner token) =>
    match releasing clock owner token (db.records digest) with
    | some row => .write digest none (some row)
    | none => .nothing
  | (_, .cleanup batch doomed) => .delete ((((doomed.filter db.eligible).map Prod.fst).dedup).take batch)

/-- How far a statement has come. It remembers how many commits preceded its
snapshot, and once its rows are locked, under which readings it takes effect. -/
inductive Stage
  | waiting
  | started (since : Nat) (snapshot : Database)
  | fenced (since : Nat) (snapshot : Database) (token : Nat)
  | collecting (since : Nat) (snapshot : Database) (rest taken : List (Bytes × Int))
  | evaluated (since : Nat) (input : Option (Clock × Statement)) (effect : Effect) (answer : Answer)
  | returned (since : Nat) (answer : Option Answer)

structure Session where
  statement : Statement
  stage : Stage

/-- A conflicting insert waits like an update of the row. -/
def Session.locksFence (digest : Bytes) : Session → Bool
  | ⟨.acquire key _ _, .fenced _ _ _⟩ | ⟨.acquire key _ _, .evaluated _ (some _) _ _⟩ => key == digest
  | _ => false

def Session.locksRecord (digest : Bytes) (session : Session) : Bool :=
  match session.stage with
  | .collecting _ _ _ taken => (taken.map Prod.fst).contains digest
  | .evaluated _ _ effect _ => effect.locks digest
  | _ => false

/-- The tables as last committed, the commits in their order, each with the
session it belongs to, and the statements, each in a transaction of its own. -/
structure Server where
  db : Database
  log : List (Nat × Clock × Statement)
  sessions : List Session

/-- Update carries the reading of the first evaluation of its WHERE, take the
one at which the age of a row is tested again. -/
inductive Event
  | start (session : Nat)
  | fence (session : Nat) (clock : Clock)
  | install (session : Nat) (clock : Clock)
  | update (session : Nat) (seen : Int) (clock : Clock)
  | take (session : Nat) (age : Int)
  | commit (session : Nat)
  | cancel (session : Nat)

/-- The statement that takes a step. -/
def Event.session : Event → Nat
  | .start i | .fence i _ | .install i _ | .update i _ _ | .take i _ | .commit i | .cancel i => i

/-- The statement is given up, and not by itself. -/
def Event.isCancel : Event → Bool
  | .cancel _ => true
  | _ => false

namespace Server

variable (s : Server)

def set (i : Nat) (session : Session) : Server := { s with sessions := s.sessions.set i session }

def start (i : Nat) : Statement → Server
  | .cleanup batch doomed =>
    s.set i ⟨.cleanup batch doomed, .collecting s.log.length s.db doomed []⟩
  | statement => s.set i ⟨statement, .started s.log.length s.db⟩

/-- ON CONFLICT waits for the row of lease_fences, takes its latest version and
keeps it locked. -/
def fence (i : Nat) (clock : Clock) (digest owner : Bytes) (ms : Int) (since : Nat)
    (snapshot : Database) : Server :=
  if s.sessions.any (Session.locksFence digest) then s
  else match s.db.nextFence digest with
    | none => s.set i ⟨.acquire digest owner ms, .evaluated since none .nothing
        (.acquired (acquireAnswer clock 0 snapshot digest none))⟩
    | some token => s.set i ⟨.acquire digest owner ms, .fenced since snapshot token⟩

/-- A proposed row that violates a CHECK is refused before the conflict is
looked for. -/
def install (i : Nat) (clock : Clock) (digest owner : Bytes) (ms : Int) (since : Nat)
    (snapshot : Database) (token : Nat) : Server :=
  if ¬(proposed clock owner ms token).check then
    s.set i ⟨.acquire digest owner ms, .returned since (some .aborted)⟩
  else if s.sessions.any (Session.locksRecord digest) then s
  else match Isolation.install clock owner ms token (s.db.records digest) with
    | none => s.set i ⟨.acquire digest owner ms, .returned since (some .aborted)⟩
    | some row => s.set i ⟨.acquire digest owner ms,
        .evaluated since (some (clock, .acquire digest owner ms)) (.write digest (some token) row)
          (.acquired (acquireAnswer clock token snapshot digest row))⟩

/-- A statement that finds no row to write holds no lock and has no commit. -/
def idle (i : Nat) (statement : Statement) (since : Nat) (answer : Answer) : Server :=
  s.set i ⟨statement, .evaluated since none .nothing answer⟩

/-- The row that the WHERE found in the snapshot is locked, and the statement is
evaluated on its latest version. -/
def write (i : Nat) (clock : Clock) (statement : Statement) (since : Nat) (digest : Bytes)
    (unchanged : Answer) : Server :=
  if s.sessions.any (Session.locksRecord digest) then s
  else if (s.db.exec (clock, statement)).2 = .aborted then
    s.set i ⟨statement, .returned since (some .aborted)⟩
  else match effect s.db (clock, statement) with
    | .nothing => s.idle i statement since unchanged
    | written => s.set i ⟨statement,
        .evaluated since (some (clock, statement)) written (s.db.exec (clock, statement)).2⟩

/-- Under READ COMMITTED the WHERE is evaluated on the snapshot first; the plain
SELECTs of releaseSQL see nothing else. -/
def update (i : Nat) (seen : Int) (clock : Clock) (statement : Statement) (since : Nat)
    (snapshot : Database) : Server :=
  match statement with
  | .renew digest owner token _ =>
    if (snapshot.validateSQL (frozen seen) digest owner token).isNone then
      s.idle i statement since (.record none)
    else s.write i clock statement since digest (.record none)
  | .validate digest owner token =>
    s.idle i statement since (.record (snapshot.validateSQL clock digest owner token))
  | .release digest owner token =>
    let unchanged := .released (releaseOutcome owner token false (snapshot.records digest))
    if (releasing clock owner token (snapshot.records digest)).isNone then
      s.idle i statement since unchanged
    else s.write i clock statement since digest unchanged
  | .acquire _ _ _ | .cleanup _ _ => s

/-- FOR UPDATE SKIP LOCKED takes the rows of the snapshot one by one and tests
each again in its latest version. LIMIT ends the scan. -/
def take (i : Nat) (age : Int) (batch : Nat) (doomed : List (Bytes × Int)) (since : Nat)
    (snapshot : Database) (rest taken : List (Bytes × Int)) : Server :=
  match rest with
  | [] => s.set i ⟨.cleanup batch doomed,
      .evaluated since (some (frozen age, .cleanup batch taken)) (.delete (taken.map Prod.fst))
        (.deleted taken.length)⟩
  | candidate :: rest =>
    if taken.length < batch ∧ snapshot.eligible candidate ∧
        ¬s.sessions.any (Session.locksRecord candidate.1) ∧ s.db.eligible (candidate.1, age) then
      s.set i ⟨.cleanup batch doomed,
        .collecting since snapshot rest (taken ++ [(candidate.1, age)])⟩
    else s.set i ⟨.cleanup batch doomed, .collecting since snapshot rest taken⟩

def commit (i : Nat) (statement : Statement) (since : Nat) (input : Option (Clock × Statement))
    (effect : Effect) (answer : Answer) : Server :=
  { db := publish s.db effect
    log := s.log ++ (input.map (fun input => (i, input))).toList
    sessions := s.sessions.set i ⟨statement, .returned since (some answer)⟩ }

/-- A statement that is given up is rolled back. -/
def cancel (i : Nat) (statement : Statement) : Stage → Server
  | .returned _ _ => s
  | .waiting => s.set i ⟨statement, .returned s.log.length none⟩
  | .started since _ | .fenced since _ _ | .collecting since _ _ _ | .evaluated since _ _ _ =>
    s.set i ⟨statement, .returned since none⟩

def step : Event → Server
  | .start i =>
    match s.sessions[i]? with
    | some ⟨statement, .waiting⟩ => s.start i statement
    | _ => s
  | .fence i clock =>
    match s.sessions[i]? with
    | some ⟨.acquire digest owner ms, .started since snapshot⟩ =>
      s.fence i clock digest owner ms since snapshot
    | _ => s
  | .install i clock =>
    match s.sessions[i]? with
    | some ⟨.acquire digest owner ms, .fenced since snapshot token⟩ =>
      s.install i clock digest owner ms since snapshot token
    | _ => s
  | .update i seen clock =>
    match s.sessions[i]? with
    | some ⟨statement, .started since snapshot⟩ => s.update i seen clock statement since snapshot
    | _ => s
  | .take i age =>
    match s.sessions[i]? with
    | some ⟨.cleanup batch doomed, .collecting since snapshot rest taken⟩ =>
      s.take i age batch doomed since snapshot rest taken
    | _ => s
  | .commit i =>
    match s.sessions[i]? with
    | some ⟨statement, .evaluated since input effect answer⟩ =>
      s.commit i statement since input effect answer
    | _ => s
  | .cancel i =>
    match s.sessions[i]? with
    | some ⟨statement, stage⟩ => s.cancel i statement stage
    | _ => s

/-- The statements have been sent and none has begun. -/
def initial (db : Database) (statements : List Statement) : Server :=
  ⟨db, [], statements.map (fun statement => ⟨statement, .waiting⟩)⟩

end Server

end GoLease.Postgres.Isolation
