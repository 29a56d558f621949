import GoLease.Capacity.Progress

namespace GoLease.Orchestration

open Lifecycle Capacity

/-- The watcher goroutine of Run: before its receive from Loss, before its send
on losses, before cancel, before close(losses), and over, with what it sent. -/
inductive Watcher
  | watching
  | received (loss : Loss)
  | reported (err : Error)
  | canceled (err : Error)
  | finished (err : Option Error)
  deriving DecidableEq, Repr

/-- What a receive from losses finds: nothing yet, a value, or a closed channel. -/
def Watcher.losses : Watcher → Option (Option Error)
  | .watching | .received _ => none
  | .reported err | .canceled err => some (some err)
  | .finished err => some err

def Watcher.isFinished : Watcher → Bool
  | .finished _ => true
  | _ => false

/-- Where Run stands, with the error it has joined so far: inside Acquire, before
and inside StartManaged, before and inside the callback, inside Stop, before the
receive from losses, before and inside Release, returned. -/
inductive Phase
  | acquiring
  | acquired
  | starting
  | ready
  | calling
  | stopping (err : Option Error)
  | draining (err : Option Error)
  | releasing (err : Option Error)
  | awaiting (err : Option Error) (call : Nat)
  | returned (err : Option Error)
  deriving DecidableEq, Repr

/-- What the components of a run have returned so far. -/
structure Results where
  acquire : Option (Except Error Record) := none
  start : Option (Option Error) := none
  callback : Option (Option Error) := none
  release : Option (Option Error) := none

/-- One call of Run: its handle with the renewal goroutine, the watcher, whether
the context of the callback is cancelled, and the tokens of the callback's
invocations. -/
structure Run where
  policy : Policy
  site : Option Site
  watcher : Option Watcher
  cancelled : Bool
  phase : Phase
  callbacks : List Nat
  results : Results

/-- The steps of the three goroutines and of the parent context. Acquire, the
backend, the callback, the sleeper, the clocks and the slots of the client
answer as they like. -/
inductive Event
  | acquired (result : Except Error (Record × Reading))
  | startManaged (reading : Reading) (slot : Bool)
  | atSite (event : Site.Event)
  | call
  | callbackReturned (err : Option Error)
  | cancel
  | watch
  | report
  | cancelRun
  | closeLosses
  | join
  | drain
  | release (reading : Reading)
  | collect

def start (policy : Policy) : Run :=
  { policy, site := none, watcher := none, cancelled := false, phase := .acquiring, callbacks := []
    results := {} }

namespace Run

variable (s : Run)

def acquired (result : Except Error (Record × Reading)) : Run :=
  match s.phase, result with
  | .acquiring, .error err =>
    { s with phase := .returned (some err), results := { s.results with acquire := some (.error err) } }
  | .acquiring, .ok (record, started) =>
    { s with
      site := some (.new s.policy record started)
      phase := .acquired
      results := { s.results with acquire := some (.ok record) } }
  | _, _ => s

/-- A failed start goes straight to the release. -/
def startManaged (reading : Reading) (slot : Bool) : Run :=
  match s.phase, s.site with
  | .acquired, some site =>
    if s.policy.renewEvery ≤ 0 then s
    else match (site.machine.handle.startManaged reading slot).2 with
      | none => { s with site := some (site.startManaged reading slot), phase := .starting }
      | some err =>
        { s with
          site := some (site.startManaged reading slot)
          phase := .releasing (some err)
          results := { s.results with start := some (some err) } }
  | _, _ => s

/-- StartManaged returns and the watcher starts. -/
def started : Run :=
  match s.phase, s.site with
  | .starting, some site =>
    { s with
      site := some site.started
      watcher := some .watching
      phase := .ready
      results := { s.results with start := some none } }
  | _, _ => s

/-- The renewal goroutine and the handle's calls go on by themselves. -/
def atSite (event : Site.Event) : Run :=
  match event with
  | .started => s.started
  | event => if event.own then { s with site := s.site.map (fun site => site.step event) } else s

/-- Without renewal the callback follows the acquisition. -/
def prepared : Bool :=
  match s.phase with
  | .ready => true
  | .acquired => s.policy.renewEvery ≤ 0
  | _ => false

def call : Run :=
  match s.prepared, s.site with
  | true, some site =>
    { s with phase := .calling, callbacks := s.callbacks ++ [site.machine.handle.record.token] }
  | _, _ => s

/-- The callback returns and Run cancels its context. -/
def callbackReturned (err : Option Error) : Run :=
  match s.phase with
  | .calling =>
    { s with
      cancelled := true
      phase := if s.watcher.isSome then .stopping err else .releasing err
      results := { s.results with callback := some err } }
  | _ => s

def managed : Option Managed := do (← s.site).managed[0]?

/-- The receive from Loss, which waits for a value or for the close. -/
def watch : Run :=
  match s.watcher, s.managed with
  | some .watching, some g =>
    match g.buffer with
    | some loss =>
      { s with site := s.site.map (fun site => site.receive 0), watcher := some (.received loss) }
    | none => if g.lossCloses = 0 then s else { s with watcher := some (.finished none) }
  | _, _ => s

def report : Run :=
  match s.watcher with
  | some (.received loss) =>
    { s with watcher := some (.reported (.joined (.sentinel .errLost) loss.err)) }
  | _ => s

def cancelRun : Run :=
  match s.watcher with
  | some (.reported err) => { s with cancelled := true, watcher := some (.canceled err) }
  | _ => s

def closeLosses : Run :=
  match s.watcher with
  | some (.canceled err) => { s with watcher := some (.finished (some err)) }
  | _ => s

/-- Stop runs under a context without cancellation, so it waits for done and
returns nil. -/
def join : Run :=
  match s.phase, s.managed with
  | .stopping err, some g => if g.doneCloses = 0 then s else { s with phase := .draining err }
  | _, _ => s

def drain : Run :=
  match s.phase, s.watcher.bind Watcher.losses with
  | .draining err, some loss => { s with phase := .releasing (errorsJoin err loss) }
  | _, _ => s

/-- Release waits for the lock of the handle. -/
def release (reading : Reading) : Run :=
  match s.phase, s.site with
  | .releasing err, some site =>
    if site.locked.isSome then s
    else
      { s with
        site := some (site.inside (.invoke .release reading))
        phase := .awaiting err site.machine.calls.length }
  | _, _ => s

/-- The release returns, and the deferred cancel runs with the return of Run. -/
def collect : Run :=
  match s.phase, s.site with
  | .awaiting err call, some site =>
    match site.machine.calls[call]? with
    | some ⟨_, .returned result⟩ =>
      { s with
        cancelled := true
        phase := .returned (errorsJoin err result)
        results := { s.results with release := some result } }
    | _ => s
  | _, _ => s

def step : Event → Run
  | .acquired result => s.acquired result
  | .startManaged reading slot => s.startManaged reading slot
  | .atSite event => s.atSite event
  | .call => s.call
  | .callbackReturned err => s.callbackReturned err
  | .cancel => { s with cancelled := true }
  | .watch => s.watch
  | .report => s.report
  | .cancelRun => s.cancelRun
  | .closeLosses => s.closeLosses
  | .join => s.join
  | .drain => s.drain
  | .release reading => s.release reading
  | .collect => s.collect

/-- How often Release has been called. -/
def releases : Nat :=
  match s.site with
  | some site => site.machine.calls.countP (fun call => call.op == .release)
  | none => 0

/-- The loss that the renewal goroutine has sent. -/
def delivered : Option Loss :=
  match s.site with
  | some site =>
    match site.machine.renewers[0]?, site.managed[0]? with
    | some r, some g => if g.sends = 0 then none else Renewal.delivered r
    | _, _ => none
  | none => none

end Run

/-- Run receives from losses only when the watcher has closed it. -/
def Joined (s : Run) : Event → Prop
  | .drain => ∀ w, s.watcher = some w → w.isFinished = true
  | _ => True

/-- Everything one step can do, with the guards under which it does it. -/
inductive Took (s : Run) : Event → Run → Prop
  | same (event : Event) : Took s event s
  | failed (hphase : s.phase = .acquiring) (err : Error) :
      Took s (.acquired (.error err)) { s with
        phase := .returned (some err)
        results := { s.results with acquire := some (.error err) } }
  | acquired (hphase : s.phase = .acquiring) (record : Record) (reading : Reading) :
      Took s (.acquired (.ok (record, reading))) { s with
        site := some (.new s.policy record reading)
        phase := .acquired
        results := { s.results with acquire := some (.ok record) } }
  | starting {site : Site} {reading : Reading} {slot : Bool} (hphase : s.phase = .acquired)
      (hsite : s.site = some site) (henabled : ¬s.policy.renewEvery ≤ 0)
      (hstart : (site.machine.handle.startManaged reading slot).2 = none) :
      Took s (.startManaged reading slot)
        { s with site := some (site.startManaged reading slot), phase := .starting }
  | refused {site : Site} {reading : Reading} {slot : Bool} {err : Error} (hphase : s.phase = .acquired)
      (hsite : s.site = some site) (henabled : ¬s.policy.renewEvery ≤ 0)
      (hstart : (site.machine.handle.startManaged reading slot).2 = some err) :
      Took s (.startManaged reading slot) { s with
        site := some (site.startManaged reading slot)
        phase := .releasing (some err)
        results := { s.results with start := some (some err) } }
  | started {site : Site} (hphase : s.phase = .starting) (hsite : s.site = some site) :
      Took s (.atSite .started) { s with
        site := some site.started
        watcher := some .watching
        phase := .ready
        results := { s.results with start := some none } }
  | moved {site : Site} {event : Site.Event} (hsite : s.site = some site) (hown : event.own = true)
      (hstarted : event ≠ .started) :
      Took s (.atSite event) { s with site := some (site.step event) }
  | called {site : Site} (hprepared : s.prepared = true) (hsite : s.site = some site) :
      Took s .call { s with
        phase := .calling
        callbacks := s.callbacks ++ [site.machine.handle.record.token] }
  | callbackReturned (hphase : s.phase = .calling) (err : Option Error) :
      Took s (.callbackReturned err) { s with
        cancelled := true
        phase := if s.watcher.isSome then .stopping err else .releasing err
        results := { s.results with callback := some err } }
  | cancelled : Took s .cancel { s with cancelled := true }
  | received {g : Managed} {loss : Loss} (hw : s.watcher = some .watching) (hg : s.managed = some g)
      (hb : g.buffer = some loss) :
      Took s .watch { s with
        site := s.site.map (fun site => site.receive 0)
        watcher := some (.received loss) }
  | unlost {g : Managed} (hw : s.watcher = some .watching) (hg : s.managed = some g)
      (hb : g.buffer = none) (hcloses : g.lossCloses ≠ 0) :
      Took s .watch { s with watcher := some (.finished none) }
  | reported {loss : Loss} (hw : s.watcher = some (.received loss)) :
      Took s .report { s with watcher := some (.reported (.joined (.sentinel .errLost) loss.err)) }
  | canceledRun {err : Error} (hw : s.watcher = some (.reported err)) :
      Took s .cancelRun { s with cancelled := true, watcher := some (.canceled err) }
  | closedLosses {err : Error} (hw : s.watcher = some (.canceled err)) :
      Took s .closeLosses { s with watcher := some (.finished (some err)) }
  | joined {err : Option Error} {g : Managed} (hphase : s.phase = .stopping err)
      (hg : s.managed = some g) (hdone : g.doneCloses ≠ 0) :
      Took s .join { s with phase := .draining err }
  | drained {err loss : Option Error} {w : Watcher} (hphase : s.phase = .draining err)
      (hw : s.watcher = some w) (hlosses : w.losses = some loss) :
      Took s .drain { s with phase := .releasing (errorsJoin err loss) }
  | released {err : Option Error} {site : Site} {reading : Reading} (hphase : s.phase = .releasing err)
      (hsite : s.site = some site) (hfree : site.locked = none) :
      Took s (.release reading) { s with
        site := some { site with machine := site.machine.step (.invoke .release reading) }
        phase := .awaiting err site.machine.calls.length }
  | collected {err result : Option Error} {call : Nat} {site : Site} {op : Op}
      (hphase : s.phase = .awaiting err call) (hsite : s.site = some site)
      (hc : site.machine.calls[call]? = some ⟨op, .returned result⟩) :
      Took s .collect { s with
        cancelled := true
        phase := .returned (errorsJoin err result)
        results := { s.results with release := some result } }

theorem started_took (s : Run) : Took s (.atSite .started) s.started := by
  unfold Run.started
  split
  next hphase hsite => exact .started hphase hsite
  next => exact .same _

theorem atSite_took (s : Run) (event : Site.Event) : Took s (.atSite event) (s.atSite event) := by
  unfold Run.atSite
  split
  next => exact started_took s
  next hstarted =>
    split
    next hown =>
      cases hsite : s.site with
      | none =>
          rw [Option.map_none, ← hsite]
          exact .same _
      | some site => exact .moved hsite hown hstarted
    next => exact .same _

theorem release_took (s : Run) (reading : Reading) : Took s (.release reading) (s.release reading) := by
  unfold Run.release
  split
  next err site hphase hsite =>
    split
    next => exact .same _
    next hfree =>
      rw [Bool.not_eq_true, Option.isSome_eq_false_iff] at hfree
      have hinside : site.inside (.invoke .release reading) =
          { site with machine := site.machine.step (.invoke .release reading) } := if_pos hfree
      rw [hinside]
      exact .released hphase hsite (Option.isNone_iff_eq_none.mp hfree)
  next => exact .same _

theorem step_took (s : Run) (event : Event) : Took s event (s.step event) := by
  cases event with
  | atSite event => exact atSite_took s event
  | release reading => exact release_took s reading
  | cancel => exact .cancelled
  | acquired result =>
      simp only [Run.step, Run.acquired]
      split
      next err hphase => exact .failed hphase err
      next record reading hphase => exact .acquired hphase record reading
      next => exact .same _
  | startManaged reading slot =>
      simp only [Run.step, Run.startManaged]
      split
      next hphase hsite =>
        split
        next => exact .same _
        next henabled =>
          split
          next hstart => exact .starting hphase hsite henabled hstart
          next hstart => exact .refused hphase hsite henabled hstart
      next => exact .same _
  | call =>
      simp only [Run.step, Run.call]
      split
      next hprepared hsite => exact .called hprepared hsite
      next => exact .same _
  | callbackReturned err =>
      simp only [Run.step, Run.callbackReturned]
      split
      next hphase => exact .callbackReturned hphase err
      next => exact .same _
  | watch =>
      simp only [Run.step, Run.watch]
      split
      next hw hg =>
        split
        next hb => exact .received hw hg hb
        next hb =>
          split
          next => exact .same _
          next hcloses => exact .unlost hw hg hb hcloses
      next => exact .same _
  | report =>
      simp only [Run.step, Run.report]
      split
      next hw => exact .reported hw
      next => exact .same _
  | cancelRun =>
      simp only [Run.step, Run.cancelRun]
      split
      next hw => exact .canceledRun hw
      next => exact .same _
  | closeLosses =>
      simp only [Run.step, Run.closeLosses]
      split
      next hw => exact .closedLosses hw
      next => exact .same _
  | join =>
      simp only [Run.step, Run.join]
      split
      next hphase hg =>
        split
        next => exact .same _
        next hdone => exact .joined hphase hg hdone
      next => exact .same _
  | drain =>
      simp only [Run.step, Run.drain]
      split
      next hphase hlosses =>
        obtain ⟨w, hw, hl⟩ := Option.bind_eq_some_iff.mp hlosses
        exact .drained hphase hw hl
      next => exact .same _
  | collect =>
      simp only [Run.step, Run.collect]
      split
      next hphase hsite =>
        split
        next hc => exact .collected hphase hsite hc
        next => exact .same _
      next => exact .same _

end GoLease.Orchestration
