import GoLease.Errors
import Mathlib.Algebra.Order.Ring.Nat
import Mathlib.Logic.Function.Basic

namespace GoLease.Service

/-- A handle by its number and whether a renewer runs for it. -/
structure Owned where
  handle : Nat
  managed : Bool
  deriving DecidableEq, Repr

/-- Where a call of Acquire stands: inside client.Acquire, failed and about to
return its reservation, before StartManaged, inside the rollback Release, before
the final locked section, waiting for the cleanup, returned. -/
inductive Acquire
  | acquiring
  | failing (err : Error)
  | obtained (handle : Nat)
  | rollingBack (handle : Nat) (err : Error)
  | started (owned : Owned)
  | waiting
  | signalled
  | returned (result : Except Error Nat)
  deriving Repr

/-- A call of Shutdown: it returns the cached error or gives up its wait. -/
inductive Shutdown
  | waiting
  | signalled
  | cached (err : Option Error)
  | abandoned (err : Error)
  deriving DecidableEq, Repr

/-- The cleanup goroutine: not started, before it reads the channel, waiting on
the channel it read, before the snapshot, working through its snapshot of the
entries, committed. -/
inductive Cleanup
  | idle
  | launched
  | waiting (channel : Nat)
  | ready
  | working (entries : List Owned) (result : Option Error) (pending : List Owned) (stopped : Bool)
  | done (entries : List Owned)
  deriving DecidableEq, Repr

inductive Effect
  | stop (handle : Nat)
  | release (handle : Nat)
  deriving DecidableEq, Repr

/-- The manager, its calls and its cleanup. Counters are uint32. A channel made
for acquisitionsDone is its number, with how often it has been closed; the
same count for shutdownDone is absent until Shutdown makes the channel. The
last four fields record what happened to the handles. -/
structure Manager where
  max : UInt32
  active : Nat
  acquiring : Nat
  closed : Bool
  entries : List Owned
  acquisitionsDone : Nat
  closes : Nat → Nat
  shutdownStarted : Bool
  shutdownDone : Option Nat
  shutdownErr : Option Error
  calls : List Acquire
  shutdowns : List Shutdown
  cleanup : Cleanup
  handles : Nat
  rolledBack : List Nat
  appended : List Nat
  cleaned : List Effect

/-- New rejects a zero bound; the first channel is made closed. -/
def new (max : UInt32) : Except Error Manager :=
  if max = 0 then .error (wrap .errInvalidState "service manager")
  else .ok ⟨max, 0, 0, false, [], 0, fun n => if n = 0 then 1 else 0, false, none, none,
    [], [], .idle, 0, [], [], []⟩

def increment (n : Nat) : Nat := (n + 1) % 2 ^ 32

def subtract (n m : Nat) : Nat := (n + (2 ^ 32 - m % 2 ^ 32)) % 2 ^ 32

def operationContextError (operation : String) : Option Ctx → Option Error
  | none => some (wrap .errInvalidState (operation ++ " context"))
  | some none => none
  | some (some err) => some (.joined (wrap .errCanceled operation) err.toError)

inductive Event
  | acquire (ctx : Option Ctx)
  | acquired (call : Nat) (err : Option Error) (renew : Bool)
  | startManaged (call : Nat) (err : Option Error)
  | rollback (call : Nat) (err : Option Error)
  | releaseReservation (call : Nat)
  | commit (call : Nat)
  | signal (call : Nat)
  | collect (call : Nat)
  | abandon (call : Nat) (err : ContextErr)
  | shutdown (nilContext : Bool)
  | signalShutdown (call : Nat)
  | collectShutdown (call : Nat)
  | abandonShutdown (call : Nat) (err : ContextErr)
  | launch
  | observe
  | snapshot
  | stop (err : Option Error)
  | release (err : Option Error)
  | finish
  deriving Repr

namespace Manager

variable (s : Manager)

def setCall (call : Nat) (stage : Acquire) : Manager := { s with calls := s.calls.set call stage }

/-- The checks before any reservation, and the first locked section. -/
def acquire (ctx : Option Ctx) : Manager :=
  match operationContextError "service acquire" ctx with
  | some err => { s with calls := s.calls ++ [.returned (.error err)] }
  | none =>
    if s.closed then
      { s with calls := s.calls ++ [.returned (.error (wrap .errInvalidState "service shutdown"))] }
    else if s.active ≥ s.max.toNat then
      { s with
        calls := s.calls ++ [.returned (.error (wrap .errBackendUnavailable "service capacity"))] }
    else
      { s with
        active := increment s.active
        acquisitionsDone := if s.acquiring = 0 then s.acquisitionsDone + 1 else s.acquisitionsDone
        acquiring := increment s.acquiring
        calls := s.calls ++ [.acquiring] }

/-- Every handle that the client returns has the next number. -/
def acquired (call : Nat) (err : Option Error) (renew : Bool) : Manager :=
  match s.calls[call]? with
  | some .acquiring =>
    match err with
    | some err => s.setCall call (.failing err)
    | none =>
      { s.setCall call (if renew then .obtained s.handles else .started ⟨s.handles, false⟩) with
        handles := s.handles + 1 }
  | _ => s

def startManaged (call : Nat) (err : Option Error) : Manager :=
  match s.calls[call]? with
  | some (.obtained handle) =>
    match err with
    | none => s.setCall call (.started ⟨handle, true⟩)
    | some err => s.setCall call (.rollingBack handle err)
  | _ => s

def rollback (call : Nat) (err : Option Error) : Manager :=
  match s.calls[call]? with
  | some (.rollingBack handle startErr) =>
    { s.setCall call (.failing (match err with
        | none => startErr
        | some releaseErr => .joined startErr releaseErr)) with
      rolledBack := s.rolledBack ++ [handle] }
  | _ => s

def finishAcquisitionLocked : Manager :=
  { s with
    acquiring := subtract s.acquiring 1
    closes := if subtract s.acquiring 1 = 0
      then Function.update s.closes s.acquisitionsDone (s.closes s.acquisitionsDone + 1)
      else s.closes }

def releaseReservation (call : Nat) : Manager :=
  match s.calls[call]? with
  | some (.failing err) =>
    { s with active := subtract s.active 1 }.finishAcquisitionLocked.setCall call
      (.returned (.error err))
  | _ => s

/-- The final locked section. -/
def commit (call : Nat) : Manager :=
  match s.calls[call]? with
  | some (.started owned) =>
    { s with entries := s.entries ++ [owned],
             appended := s.appended ++ [owned.handle] }.finishAcquisitionLocked.setCall call
      (if s.closed then .waiting else .returned (.ok owned.handle))
  | _ => s

def signal (call : Nat) : Manager :=
  match s.calls[call]?, s.shutdownDone with
  | some .waiting, some (_ + 1) => s.setCall call .signalled
  | _, _ => s

def collect (call : Nat) : Manager :=
  match s.calls[call]? with
  | some .signalled => s.setCall call (.returned (.error (match s.shutdownErr with
      | none => wrap .errInvalidState "service shutdown"
      | some err => .joined (wrap .errInvalidState "service shutdown") err)))
  | _ => s

def abandon (call : Nat) (err : ContextErr) : Manager :=
  match s.calls[call]? with
  | some .waiting => s.setCall call (.returned (.error
      (.joined (.joined (wrap .errInvalidState "service shutdown")
        (wrap .errCanceled "service acquire")) err.toError)))
  | _ => s

def shutdown (nilContext : Bool) : Manager :=
  if nilContext then
    { s with shutdowns := s.shutdowns ++ [.abandoned (wrap .errInvalidState "service shutdown context")] }
  else if s.shutdownStarted then { s with shutdowns := s.shutdowns ++ [.waiting] }
  else
    { s with
      closed := true
      shutdownStarted := true
      shutdownDone := some 0
      cleanup := .launched
      shutdowns := s.shutdowns ++ [.waiting] }

def signalShutdown (call : Nat) : Manager :=
  match s.shutdowns[call]?, s.shutdownDone with
  | some .waiting, some (_ + 1) => { s with shutdowns := s.shutdowns.set call .signalled }
  | _, _ => s

def collectShutdown (call : Nat) : Manager :=
  match s.shutdowns[call]? with
  | some .signalled => { s with shutdowns := s.shutdowns.set call (.cached s.shutdownErr) }
  | _ => s

def abandonShutdown (call : Nat) (err : ContextErr) : Manager :=
  match s.shutdowns[call]? with
  | some .waiting =>
    { s with
      shutdowns := s.shutdowns.set call
        (.abandoned (.joined (wrap .errCanceled "service shutdown") err.toError)) }
  | _ => s

def launch : Manager :=
  match s.cleanup with
  | .launched => { s with cleanup := .waiting s.acquisitionsDone }
  | _ => s

/-- The receive on the captured channel succeeds once it is closed. -/
def observe : Manager :=
  match s.cleanup with
  | .waiting channel => if s.closes channel = 0 then s else { s with cleanup := .ready }
  | _ => s

def snapshot : Manager :=
  match s.cleanup with
  | .ready => { s with cleanup := .working s.entries none s.entries false }
  | _ => s

def stop (err : Option Error) : Manager :=
  match s.cleanup with
  | .working entries result (entry :: pending) false =>
    if entry.managed then
      { s with
        cleanup := .working entries (errorsJoin result err) (entry :: pending) true
        cleaned := s.cleaned ++ [.stop entry.handle] }
    else s
  | _ => s

def release (err : Option Error) : Manager :=
  match s.cleanup with
  | .working entries result (entry :: pending) stopped =>
    if entry.managed && !stopped then s
    else
      { s with
        cleanup := .working entries (errorsJoin result err) pending false
        cleaned := s.cleaned ++ [.release entry.handle] }
  | _ => s

/-- The last locked section of the cleanup. -/
def finish : Manager :=
  match s.cleanup with
  | .working entries result [] _ =>
    { s with
      shutdownErr := result
      entries := []
      active := subtract s.active entries.length
      shutdownDone := s.shutdownDone.map (· + 1)
      cleanup := .done entries }
  | _ => s

def step : Event → Manager
  | .acquire ctx => s.acquire ctx
  | .acquired call err renew => s.acquired call err renew
  | .startManaged call err => s.startManaged call err
  | .rollback call err => s.rollback call err
  | .releaseReservation call => s.releaseReservation call
  | .commit call => s.commit call
  | .signal call => s.signal call
  | .collect call => s.collect call
  | .abandon call err => s.abandon call err
  | .shutdown nilContext => s.shutdown nilContext
  | .signalShutdown call => s.signalShutdown call
  | .collectShutdown call => s.collectShutdown call
  | .abandonShutdown call err => s.abandonShutdown call err
  | .launch => s.launch
  | .observe => s.observe
  | .snapshot => s.snapshot
  | .stop err => s.stop err
  | .release err => s.release err
  | .finish => s.finish

end Manager

end GoLease.Service
