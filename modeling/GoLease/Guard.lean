import GoLease.Client
import GoLease.Lifecycle
import GoLease.Memory.Store

namespace GoLease.Guard

open Lifecycle

/-- The goroutine of Run that waits on Loss and forwards what it receives. -/
inductive Watcher
  | watching
  | reported (err : Error)
  | closed (err : Option Error)
  deriving DecidableEq, Repr

/-- Where the stopping code stands: before the renewal is cancelled, inside
Stop, waiting on the watcher's channel, before and inside Release, returned. -/
inductive Phase
  | working
  | stopping
  | draining
  | releasing (loss : Option Error)
  | awaiting (loss : Option Error) (call : Nat)
  | returned (err : Option Error)
  deriving DecidableEq, Repr

/-- One handle with its renewer over a memory store, and the code that stops
the renewer and releases the handle. Run has a watcher; the loop body of
Manager.cleanup has none. The renewer's context is cancelled or not. -/
structure Run where
  store : Memory.Store
  machine : Machine
  cancelled : Bool
  watcher : Option Watcher
  phase : Phase

inductive Event
  | cancel
  | other (call : Call)
  | wake (err : Option Error)
  | renew (reading : Reading)
  | dispatch (call : Nat) (reading : Reading)
  | execute (call : Nat) (now : Int)
  | finish (call : Nat) (reading : Reading)
  | resume
  | lose (reading : Reading)
  | exit
  | watch
  | unwatch
  | stop
  | join
  | drain
  | release (reading : Reading)
  | collect
  deriving DecidableEq, Repr

namespace Run

variable (s : Run)

def renewer : Option Renewer := s.machine.renewers.head?

def drive (event : Lifecycle.Event) : Run := { s with machine := s.machine.step event }

/-- Renew runs under the renewer's context; Release runs under one that no
cancellation reaches. -/
def context : Op → Ctx
  | .renew => if s.cancelled then some .canceled else none
  | .validate | .release => none

def execute (call : Nat) (now : Int) : Run :=
  match s.machine.calls[call]? with
  | some ⟨op, .dispatched record _⟩ =>
    let result := s.store.exec ⟨now, s.context op, op.request s.machine.handle.policy record⟩
    { s with store := result.1, machine := s.machine.step (.reply call result.2) }
  | _ => s

def watch : Run :=
  match s.watcher, s.renewer with
  | some .watching, some (.exiting (some loss)) | some .watching, some (.exited (some loss)) =>
    { s with watcher := some (.reported (.joined (.sentinel .errLost) loss.err)) }
  | some .watching, some (.exited none) => { s with watcher := some (.closed none) }
  | _, _ => s

def unwatch : Run :=
  match s.watcher with
  | some (.reported err) => { s with cancelled := true, watcher := some (.closed (some err)) }
  | _ => s

/-- The callback returned nil, or cleanup came to this entry. -/
def stop : Run :=
  match s.phase with
  | .working => { s with cancelled := true, phase := .stopping }
  | _ => s

def join : Run :=
  match s.phase, s.renewer with
  | .stopping, some (.exited _) =>
    { s with phase := if s.watcher.isSome then .draining else .releasing none }
  | _, _ => s

def drain : Run :=
  match s.phase, s.watcher with
  | .draining, some (.reported err) | .draining, some (.closed (some err)) =>
    { s with phase := .releasing (some err) }
  | .draining, some (.closed none) => { s with phase := .releasing none }
  | _, _ => s

def release (reading : Reading) : Run :=
  match s.phase with
  | .releasing loss =>
    { s.drive (.invoke .release reading) with phase := .awaiting loss s.machine.calls.length }
  | _ => s

def collect : Run :=
  match s.phase with
  | .awaiting loss call =>
    match s.machine.calls[call]? with
    | some ⟨_, .returned err⟩ => { s with phase := .returned (errorsJoin loss err) }
    | _ => s
  | _ => s

def step : Event → Run
  | .cancel => { s with cancelled := true }
  | .other call => { s with store := (s.store.exec call).1 }
  | .wake err => s.drive (.wake 0 err)
  | .renew reading => s.drive (.renew 0 reading)
  | .dispatch call reading => s.drive (.dispatch call reading)
  | .execute call now => s.execute call now
  | .finish call reading => s.drive (.finish call reading)
  | .resume => s.drive (.resume 0)
  | .lose reading => s.drive (.lose 0 reading)
  | .exit => s.drive (.exit 0)
  | .watch => s.watch
  | .unwatch => s.unwatch
  | .stop => s.stop
  | .join => s.join
  | .drain => s.drain
  | .release reading => s.release reading
  | .collect => s.collect

/-- The renewer has woken up and the store has not yet looked at the context
of the renewal. -/
def exposed : Bool :=
  match s.renewer with
  | some .awake => true
  | some (.renewing call) =>
    match s.machine.calls[call]? with
    | some ⟨_, .reserved _⟩ | some ⟨_, .dispatched _ _⟩ => true
    | _ => false
  | _ => false

end Run

/-- The handle has been acquired and its renewer started. -/
def start (watched : Bool) (store : Memory.Store) (handle : Handle) (reading : Reading) : Run :=
  { store
    machine := (initial handle).startManaged reading true
    cancelled := false
    watcher := if watched then some .watching else none
    phase := .working }

/-- The steps that find what they wait for. -/
inductive Enabled (s : Run) : Event → Prop
  | cancel : Enabled s .cancel
  | other (call : Call) : Enabled s (.other call)
  | wake (hr : s.machine.renewers[0]? = some .sleeping) (err : Option Error) : Enabled s (.wake err)
  | renew (hr : s.machine.renewers[0]? = some .awake) (reading : Reading) : Enabled s (.renew reading)
  | dispatch {call : Nat} {op : Op} {record : Record}
      (hc : s.machine.calls[call]? = some ⟨op, .reserved record⟩) (reading : Reading) :
      Enabled s (.dispatch call reading)
  | execute {call : Nat} {op : Op} {record : Record} {started : Reading}
      (hc : s.machine.calls[call]? = some ⟨op, .dispatched record started⟩) (now : Int) :
      Enabled s (.execute call now)
  | finish {call : Nat} {op : Op} {record : Record} {started : Reading} {reply : Reply}
      (hc : s.machine.calls[call]? = some ⟨op, .replied record started reply⟩) (reading : Reading) :
      Enabled s (.finish call reading)
  | resume {call : Nat} {op : Op} {err : Option Error}
      (hr : s.machine.renewers[0]? = some (.renewing call))
      (hc : s.machine.calls[call]? = some ⟨op, .returned err⟩) : Enabled s .resume
  | lose {err : Error} (hr : s.machine.renewers[0]? = some (.failed err)) (reading : Reading) :
      Enabled s (.lose reading)
  | exit {loss : Option Loss} (hr : s.machine.renewers[0]? = some (.exiting loss)) : Enabled s .exit
  | lost {loss : Loss} (hr : s.renewer = some (.exiting (some loss))) : Enabled s .watch
  | watch {loss : Option Loss} (hw : s.watcher = some .watching)
      (hr : s.renewer = some (.exited loss)) : Enabled s .watch
  | unwatch {err : Error} (hw : s.watcher = some (.reported err)) : Enabled s .unwatch
  | stop (hph : s.phase = .working) : Enabled s .stop
  | join {loss : Option Loss} (hph : s.phase = .stopping) (hr : s.renewer = some (.exited loss)) :
      Enabled s .join
  | drainReported {err : Error} (hw : s.watcher = some (.reported err)) : Enabled s .drain
  | drain {err : Option Error} (hph : s.phase = .draining) (hw : s.watcher = some (.closed err)) :
      Enabled s .drain
  | release {loss : Option Error} (hph : s.phase = .releasing loss) (reading : Reading) :
      Enabled s (.release reading)
  | collect {loss err : Option Error} {call : Nat} {op : Op} (hph : s.phase = .awaiting loss call)
      (hc : s.machine.calls[call]? = some ⟨op, .returned err⟩) : Enabled s .collect

theorem drive_of_eq {s : Run} {event : Lifecycle.Event} (he : s.machine.step event = s.machine) :
    s.drive event = s := by
  rw [Run.drive, he]

theorem enabled_or_still (s : Run) (event : Event) : Enabled s event ∨ s.step event = s := by
  cases event with
  | cancel => exact .inl .cancel
  | other call => exact .inl (.other call)
  | wake err =>
      by_cases hr : s.machine.renewers[0]? = some .sleeping
      · exact .inl (.wake hr err)
      · refine .inr (drive_of_eq ?_)
        simp only [Machine.step, Machine.wake]
  | renew reading =>
      by_cases hr : s.machine.renewers[0]? = some .awake
      · exact .inl (.renew hr reading)
      · refine .inr (drive_of_eq ?_)
        simp only [Machine.step, Machine.renew]
  | dispatch call reading =>
      simp only [Run.step, Run.drive, Machine.step, Machine.dispatch]
      split
      next hc => exact .inl (.dispatch hc reading)
      next => exact .inr rfl
  | execute call now =>
      simp only [Run.step, Run.execute]
      split
      next hc => exact .inl (.execute hc now)
      next => exact .inr rfl
  | finish call reading =>
      simp only [Run.step, Run.drive, Machine.step, Machine.finish]
      split
      next hc => exact .inl (.finish hc reading)
      next => exact .inr rfl
  | resume =>
      simp only [Run.step, Run.drive, Machine.step, Machine.resume]
      split
      next hr =>
        split
        next hc => exact .inl (.resume hr hc)
        next hc => exact .inl (.resume hr hc)
        next => exact .inr rfl
      next => exact .inr rfl
  | lose reading =>
      simp only [Run.step, Run.drive, Machine.step, Machine.lose]
      split
      next hr => exact .inl (.lose hr reading)
      next => exact .inr rfl
  | exit =>
      simp only [Run.step, Run.drive, Machine.step, Machine.exit]
      split
      next hr => exact .inl (.exit hr)
      next => exact .inr rfl
  | watch =>
      simp only [Run.step, Run.watch]
      split
      next hr => exact .inl (.lost hr)
      next hw hr => exact .inl (.watch hw hr)
      next hw hr => exact .inl (.watch hw hr)
      next => exact .inr rfl
  | unwatch =>
      simp only [Run.step, Run.unwatch]
      split
      next hw => exact .inl (.unwatch hw)
      next => exact .inr rfl
  | stop =>
      simp only [Run.step, Run.stop]
      split
      next hph => exact .inl (.stop hph)
      next => exact .inr rfl
  | join =>
      simp only [Run.step, Run.join]
      split
      next hph hr => exact .inl (.join hph hr)
      next => exact .inr rfl
  | drain =>
      simp only [Run.step, Run.drain]
      split
      next hw => exact .inl (.drainReported hw)
      next hph hw => exact .inl (.drain hph hw)
      next hph hw => exact .inl (.drain hph hw)
      next => exact .inr rfl
  | release reading =>
      simp only [Run.step, Run.release]
      split
      next hph => exact .inl (.release hph reading)
      next => exact .inr rfl
  | collect =>
      simp only [Run.step, Run.collect]
      split
      next hph =>
        split
        next hc => exact .inl (.collect hph hc)
        next => exact .inr rfl
      next => exact .inr rfl

section Environment

variable (granted : Record) (ttl : Int) (s : Run)

/-- The clocks that a renewal reads stay before the handle's deadlines and the
entry's expiry, the store's clock does not go back a TTL before the acquisition,
and other clients use other keys or contend for this one. -/
def Timely : Event → Prop
  | .renew reading | .lose reading =>
    reading.clock < s.machine.handle.deadline ∧ reading.wall < s.machine.handle.wallDeadline
  | .finish call reading => ∀ record started reply,
    s.machine.calls[call]? = some ⟨.renew, .replied record started reply⟩ →
    reading.clock < s.machine.handle.deadline ∧ reading.wall < s.machine.handle.wallDeadline
  | .execute call now => ∀ record started,
    s.machine.calls[call]? = some ⟨.renew, .dispatched record started⟩ →
    granted.acquiredAt < now + ttl ∧
      ∀ entry, s.store.lookup granted.key = some entry → now < entry.record.expiresAt
  | .other call => call.request.key ≠ granted.key ∨
    ∃ owner ttl entry, call.request = .tryAcquire granted.key owner ttl ∧
      s.store.lookup granted.key = some entry ∧ entry.active = true ∧
      call.now < entry.record.expiresAt
  | _ => True

/-- No cancellation lands between the sleeper's return and the store's look at
the context of the renewal. -/
def Quiet : Event → Prop
  | .cancel | .unwatch | .stop => s.exposed = false
  | .wake none => s.cancelled = false
  | _ => True

end Environment

section Remaining

variable (s : Run)

def stageRank : Option Invocation → Nat
  | some ⟨_, .reserved _⟩ => 4
  | some ⟨_, .dispatched _ _⟩ => 3
  | some ⟨_, .replied _ _ _⟩ => 2
  | some ⟨_, .returned _⟩ => 1
  | none => 0

def renewerRank : Option Renewer → Nat
  | some .awake => 7
  | some (.renewing call) => 2 + stageRank s.machine.calls[call]?
  | some .sleeping | some (.failed _) => 2
  | some (.exiting _) => 1
  | some (.exited _) | none => 0

def watcherRank : Option Watcher → Nat
  | some .watching => 2
  | some (.reported _) => 1
  | some (.closed _) | none => 0

def phaseRank : Phase → Nat
  | .working => 8
  | .stopping => 7
  | .draining => 6
  | .releasing _ => 5
  | .awaiting _ call => stageRank s.machine.calls[call]?
  | .returned _ => 0

/-- A bound on the steps the goroutines still take once the renewal is
cancelled. -/
def remaining : Nat :=
  renewerRank s s.renewer + watcherRank s.watcher + phaseRank s s.phase

end Remaining

end GoLease.Guard
