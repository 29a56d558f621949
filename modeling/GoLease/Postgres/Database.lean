import GoLease.Backend
import Mathlib.Data.List.Dedup
import Mathlib.Logic.Function.Basic

namespace GoLease.Postgres

/-- The readings that one statement takes with clock_timestamp(), numbered in
the order of its text. -/
abbrev Clock := Nat → Int

def maxInt64 : Nat := 2 ^ 63 - 1

/-- A row of lease_records. The timestamps are in nanoseconds, as all instants
here, although the server only reads whole microseconds. -/
structure Row where
  owner : Bytes
  token : Nat
  acquiredAt : Int
  expiresAt : Int
  active : Bool
  updatedAt : Int
  deriving DecidableEq, Repr

/-- The CHECK constraints of lease_records. -/
def Row.check (row : Row) : Bool :=
  decide (1 ≤ row.owner.length ∧ row.owner.length ≤ 128) && decide (0 < row.token) &&
    decide (row.expiresAt > row.acquiredAt)

/-- The two tables of SchemaMigration by their primary key. -/
structure Database where
  fences : Bytes → Option Nat
  records : Bytes → Option Row

inductive AcquireOutcome
  | ok
  | contended
  | exhausted
  deriving DecidableEq, Repr

structure AcquireRow where
  token : Nat
  acquiredAt : Int
  expiresAt : Int
  outcome : AcquireOutcome
  deriving DecidableEq, Repr

structure RecordRow where
  token : Nat
  acquiredAt : Int
  expiresAt : Int
  deriving DecidableEq, Repr

inductive ReleaseOutcome
  | ok
  | idempotent
  | stale
  deriving DecidableEq, Repr

/-- The rows of doomed are those a cleanup has locked, in its order, each with
the reading at which its age was tested. -/
inductive Statement
  | acquire (digest owner : Bytes) (ms : Int)
  | renew (digest owner : Bytes) (token : Nat) (ms : Int)
  | validate (digest owner : Bytes) (token : Nat)
  | release (digest owner : Bytes) (token : Nat)
  | cleanup (batch : Nat) (doomed : List (Bytes × Int))
  deriving DecidableEq, Repr

/-- What QueryRow scans. A statement that violates a constraint is aborted and
leaves the tables as they were. -/
inductive Answer
  | acquired (row : AcquireRow)
  | record (row : Option RecordRow)
  | released (outcome : ReleaseOutcome)
  | deleted (count : Nat)
  | aborted
  deriving DecidableEq, Repr

def Row.ours (row : Row) (owner : Bytes) (token : Nat) : Bool := row.owner == owner && row.token == token

def hour : Int := 3600000000000

namespace Database

def empty : Database := ⟨fun _ => none, fun _ => none⟩

variable (db : Database)

def setFence (digest : Bytes) (token : Nat) : Database :=
  { db with fences := Function.update db.fences digest (some token) }

def setRecord (digest : Bytes) (row : Row) : Database :=
  { db with records := Function.update db.records digest (some row) }

@[simp] theorem setFence_self (digest : Bytes) (token : Nat) :
    (db.setFence digest token).fences digest = some token := Function.update_self _ _ _

theorem setFence_of_ne {digest key : Bytes} (h : key ≠ digest) (token : Nat) :
    (db.setFence digest token).fences key = db.fences key := Function.update_of_ne h _ _

@[simp] theorem setRecord_self (digest : Bytes) (row : Row) :
    (db.setRecord digest row).records digest = some row := Function.update_self _ _ _

theorem setRecord_of_ne {digest key : Bytes} (h : key ≠ digest) (row : Row) :
    (db.setRecord digest row).records key = db.records key := Function.update_of_ne h _ _

/-- The row that next_fence returns, if its guard admits one. -/
def nextFence (digest : Bytes) : Option Nat :=
  match db.fences digest with
  | none => some 1
  | some fence => if fence < maxInt64 then some (fence + 1) else none

/-- The second branch of the union reads lease_fences as it was when the
statement started. -/
def refusal (digest : Bytes) : AcquireOutcome :=
  match db.fences digest with
  | some fence => if fence ≥ maxInt64 then .exhausted else .contended
  | none => .contended

/-- The clock is read three times for the proposed row, three times for the
update of an existing row, once for its WHERE and twice for a refusal. The
proposed row is checked before the conflict is. -/
def acquireSQL (clock : Clock) (digest owner : Bytes) (ms : Int) : Database × Option AcquireRow :=
  match db.nextFence digest with
  | none => (db, some ⟨0, clock 7, clock 8, db.refusal digest⟩)
  | some token =>
    let proposed : Row := ⟨owner, token, clock 0, clock 1 + ms * millisecond, true, clock 2⟩
    if ¬proposed.check then (db, none)
    else match db.records digest with
      | none => ((db.setFence digest token).setRecord digest proposed,
          some ⟨token, proposed.acquiredAt, proposed.expiresAt, .ok⟩)
      | some row =>
        if ¬row.active ∨ row.expiresAt ≤ clock 6 then
          let updated : Row := ⟨owner, token, clock 3, clock 4 + ms * millisecond, true, clock 5⟩
          if ¬updated.check then (db, none)
          else ((db.setFence digest token).setRecord digest updated,
            some ⟨token, updated.acquiredAt, updated.expiresAt, .ok⟩)
        else (db.setFence digest token, some ⟨0, clock 7, clock 8, db.refusal digest⟩)

/-- No rows, an updated row, or a violated constraint. -/
def renewSQL (clock : Clock) (digest owner : Bytes) (token : Nat) (ms : Int) :
    Database × Option (Option RecordRow) :=
  match db.records digest with
  | none => (db, some none)
  | some row =>
    if row.ours owner token ∧ row.active ∧ row.expiresAt > clock 2 then
      let updated := { row with expiresAt := clock 0 + ms * millisecond, updatedAt := clock 1 }
      if ¬updated.check then (db, none)
      else (db.setRecord digest updated, some (some ⟨token, updated.acquiredAt, updated.expiresAt⟩))
    else (db, some none)

def validateSQL (clock : Clock) (digest owner : Bytes) (token : Nat) : Option RecordRow :=
  match db.records digest with
  | none => none
  | some row =>
    if row.ours owner token ∧ row.active ∧ row.expiresAt > clock 0
      then some ⟨token, row.acquiredAt, row.expiresAt⟩ else none

/-- The CASE of releaseSQL: whether the update changed a row, and the row of the
key as it was when the statement started. -/
def releaseOutcome (owner : Bytes) (token : Nat) (changed : Bool) (snapshot : Option Row) :
    ReleaseOutcome :=
  if changed then .ok
  else match snapshot with
    | some row => if row.ours owner token && !row.active then .idempotent else .stale
    | none => .idempotent

def releaseSQL (clock : Clock) (digest owner : Bytes) (token : Nat) : Database × ReleaseOutcome :=
  match db.records digest with
  | none => (db, releaseOutcome owner token false none)
  | some row =>
    if row.ours owner token ∧ row.active then
      (db.setRecord digest { row with active := false, updatedAt := clock 0 },
        releaseOutcome owner token true (some row))
    else (db, releaseOutcome owner token false (some row))

def eligible (candidate : Bytes × Int) : Bool :=
  match db.records candidate.1 with
  | some row => !row.active && decide (row.updatedAt < candidate.2 - hour)
  | none => false

def cleanupSQL (batch : Nat) (doomed : List (Bytes × Int)) : Database × Nat :=
  let deleted := (((doomed.filter db.eligible).map Prod.fst).dedup).take batch
  ({ db with records := fun digest => if digest ∈ deleted then none else db.records digest },
    deleted.length)

/-- One statement with its readings of the clock. -/
def exec (input : Clock × Statement) : Database × Answer :=
  match input.2 with
  | .acquire digest owner ms =>
    let result := db.acquireSQL input.1 digest owner ms
    (result.1, result.2.elim .aborted .acquired)
  | .renew digest owner token ms =>
    let result := db.renewSQL input.1 digest owner token ms
    (result.1, result.2.elim .aborted .record)
  | .validate digest owner token => (db, .record (db.validateSQL input.1 digest owner token))
  | .release digest owner token =>
    let result := db.releaseSQL input.1 digest owner token
    (result.1, .released result.2)
  | .cleanup batch doomed =>
    let result := db.cleanupSQL batch doomed
    (result.1, .deleted result.2)

end Database

end GoLease.Postgres
