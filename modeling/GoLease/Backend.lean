import GoLease.Errors
import Mathlib.Algebra.Order.Ring.Int

namespace GoLease

/-- A Go string is any sequence of bytes. -/
abbrev Bytes := List UInt8

def ascii (text : List Char) : Bytes := text.map (fun c => UInt8.ofNat c.toNat)

/-- Instants and durations are integers, in nanoseconds; instants count from
the Unix epoch. This is Go's zero time.Time, the first instant of year 1. -/
def zeroTime : Int := -62135596800000000000

def millisecond : Int := 1000000

def unixMilli (ms : Int) : Int := ms * millisecond

/-- A key is its encoded string; namespace and name are not kept apart. -/
structure Key where
  value : Bytes
  deriving DecidableEq, Repr

def maxUint64 : Nat := 2 ^ 64 - 1

/-- The token is a uint64; the operations that could leave its range wrap. -/
structure Record where
  key : Key
  owner : Bytes
  token : Nat
  acquiredAt : Int
  expiresAt : Int
  deriving DecidableEq, Repr

/-- The zero Record that the source returns beside an error. -/
def zeroRecord : Record := ⟨⟨[]⟩, [], 0, zeroTime, zeroTime⟩

/-- The four methods of the Backend interface with their arguments. -/
inductive Request
  | tryAcquire (key : Key) (owner : Bytes) (ttl : Int)
  | renew (owned : Record) (ttl : Int)
  | validate (owned : Record)
  | release (owned : Record)
  deriving DecidableEq, Repr

def Request.key : Request → Key
  | .tryAcquire key _ _ => key
  | .renew owned _ | .validate owned | .release owned => owned.key

/-- A time.Duration is a signed 64-bit number of nanoseconds. -/
def Request.Representable : Request → Prop
  | .tryAcquire _ _ ttl | .renew _ ttl => ttl < 2 ^ 63
  | .validate _ | .release _ => True

/-- The two results of a Backend method. Release has no record. -/
structure Reply where
  record : Record
  err : Option Error
  deriving DecidableEq, Repr

def Reply.ofRecord : Except Error Record → Reply
  | .ok record => ⟨record, none⟩
  | .error err => ⟨zeroRecord, some err⟩

def Reply.ofErr (err : Option Error) : Reply := ⟨zeroRecord, err⟩

/-- The error that a native store returns in place of one from its client
library. The context is the one found when the error is classified. -/
def classifyAs (operation : String) (ctx : Ctx) (err : Error) (ambiguous : Bool) : Error :=
  if ambiguous then .classified (.sentinel .errAmbiguousOutcome) err operation
  else if ctx.isSome ∨ err.is .contextCanceled ∨ err.is .contextDeadlineExceeded then
    wrap .errCanceled operation
  else .classified (.sentinel .errBackendUnavailable) err operation

/-- One backend call as a store sees it: the instant its clock reads, the
context's state when it is checked, and the request. -/
structure Call where
  now : Int
  ctx : Ctx
  request : Request
  deriving DecidableEq, Repr

end GoLease
