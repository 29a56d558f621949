import GoLease.Guard
import GoLease.Orchestration.Outcome
import GoLease.Renewal
import GoLease.Traces

/-!
The run over a memory store, from the start of the callback on, is a run of the
orchestration: it takes the sections of the renewer's exit in one step, and so
does its watcher with a receive and the send that follows.
-/

namespace GoLease.Orchestration.Refinement

open Lifecycle Capacity Traces

def watcherOf : Guard.Watcher → Watcher
  | .watching => .watching
  | .reported err => .reported err
  | .closed err => .finished err

def phaseOf : Guard.Phase → Phase
  | .working => .calling
  | .stopping => .stopping none
  | .draining => .draining none
  | .releasing loss => .releasing loss
  | .awaiting loss call => .awaiting loss call
  | .returned err => .returned err

/-- What the watcher has left in the buffer of the loss channel. -/
def buffered (w : Guard.Watcher) (loss : Option Loss) : Option Loss := if w = .watching then loss else none

/-- The Managed of a renewer between two steps of the run. -/
def managedOf (w : Guard.Watcher) : Renewer → Managed
  | .exiting (some loss) => ⟨.sent, buffered w (some loss), 1, 0, 0, 0⟩
  | .exited loss => ⟨.ended, buffered w loss, losses loss, 1, 1, 1⟩
  | _ => .new

/-- The loss channel has a value or is closed. -/
def signals : Renewer → Bool
  | .exiting (some _) | .exited _ => true
  | _ => false

theorem managedOf_new {w : Guard.Watcher} {r : Renewer} (h : signals r = false) : managedOf w r = .new := by
  cases r with
  | sleeping | awake | renewing | failed => rfl
  | exiting loss =>
      cases loss with
      | none => rfl
      | some => cases h
  | exited => cases h

theorem buffer_watching {r : Renewer} (h : signals r = true) :
    (managedOf .watching r).buffer = Renewal.delivered r := by
  cases r with
  | sleeping | awake | renewing | failed => cases h
  | exiting loss =>
      cases loss with
      | none => cases h
      | some => rfl
  | exited => rfl

theorem managedOf_received {w : Guard.Watcher} {r : Renewer} (h : signals r = true) (hw : w ≠ .watching) :
    managedOf w r = { managedOf .watching r with buffer := none } := by
  cases r with
  | sleeping | awake | renewing | failed => cases h
  | exiting loss =>
      cases loss with
      | none => cases h
      | some => simp [managedOf, buffered, hw]
  | exited => simp [managedOf, buffered, hw]

/-- The two runs side by side, with the renewer and the watcher they have. -/
structure Sim (r : Renewer) (w : Guard.Watcher) (g : Guard.Run) (o : Run) : Prop where
  renewers : g.machine.renewers = [r]
  watching : g.watcher = some w
  site : o.site = some ⟨g.machine, [managedOf w r], none⟩
  watcher : o.watcher = some (watcherOf w)
  cancelled : o.cancelled = g.cancelled
  phase : o.phase = phaseOf g.phase
  early : w = .watching ∨ signals r = true
  stopped : g.phase = .working ∨ g.cancelled = true

/-- Some steps of the orchestration make the two runs meet. -/
def Meets (g : Guard.Run) (o : Run) : Prop :=
  ∃ events : List Event, ∃ r w, Sim r w g (events.foldl Run.step o)

section Steps

variable {r : Renewer} {w : Guard.Watcher} {g : Guard.Run} {o : Run}

theorem Sim.renewer_eq (h : Sim r w g o) {r' : Renewer} (hr : g.machine.renewers[0]? = some r') : r = r' := by
  rw [h.renewers] at hr
  exact Option.some.inj hr

theorem Sim.renewer (h : Sim r w g o) : g.renewer = some r := by
  rw [Guard.Run.renewer, h.renewers]
  rfl

theorem Sim.meets (h : Sim r w g o) : Meets g o := ⟨[], r, w, h⟩

theorem Sim.managed (h : Sim r w g o) : o.managed = some (managedOf w r) := by
  simp only [Run.managed, h.site]
  rfl

/-- A step of the handle that leaves the channels of the renewer alone. -/
theorem Sim.inside (h : Sim r w g o) {event : Lifecycle.Event} {r' : Renewer} (store : Memory.Store)
    (hown : (Site.Event.inside event).own = true)
    (hadmits : (Site.mk g.machine [managedOf w r] none).admits event = true)
    (hrenewers : (g.machine.step event).renewers = [r']) (hsame : managedOf w r' = managedOf w r)
    (hearly : w = .watching ∨ signals r' = true) :
    Sim r' w { g with store, machine := g.machine.step event } (o.step (.atSite (.inside event))) where
  renewers := hrenewers
  watching := h.watching
  site := by simp only [Run.step, Run.atSite, hown, h.site, if_true, Option.map_some, Site.step, Site.inside,
    hadmits, hsame]
  watcher := by simpa only [Run.step, Run.atSite, hown, if_true] using h.watcher
  cancelled := by simpa only [Run.step, Run.atSite, hown, if_true] using h.cancelled
  phase := by simpa only [Run.step, Run.atSite, hown, if_true] using h.phase
  early := hearly
  stopped := h.stopped

/-- The renewer signals by losing the lease or by its exit only. -/
theorem Sim.turned (h : Sim r w g o) {event : Lifecycle.Event}
    (hadmits : (Site.mk g.machine [managedOf w r] none).admits event = true)
    (hlose : ∀ i reading, event ≠ .lose i reading) :
    ∃ r', (g.machine.step event).renewers = [r'] ∧ (r' = r ∨ signals r = false ∧ signals r' = false) := by
  rcases Renewal.renewers_cases g.machine event with he | ⟨j, old, new, hj, he, ht⟩ | ⟨reading, slot, rfl, -⟩
  · exact ⟨r, he.trans h.renewers, .inl rfl⟩
  · rw [h.renewers] at hj he
    obtain ⟨rfl, rfl⟩ : j = 0 ∧ r = old := by
      cases j with
      | zero => exact ⟨rfl, Option.some.inj hj⟩
      | succ => cases hj
    refine ⟨new, he, ?_⟩
    cases ht with
    | kept => exact .inl rfl
    | lost => exact absurd rfl (hlose _ _)
    | left => cases hadmits
    | _ => exact .inr ⟨rfl, rfl⟩
  · cases hadmits

/-- A step of the handle by itself. -/
theorem Sim.drive (h : Sim r w g o) {event : Lifecycle.Event} (store : Memory.Store)
    (hown : (Site.Event.inside event).own = true)
    (hadmits : (Site.mk g.machine [managedOf w r] none).admits event = true)
    (hlose : ∀ i reading, event ≠ .lose i reading) :
    Meets { g with store, machine := g.machine.step event } o := by
  obtain ⟨r', hrenewers, hr⟩ := h.turned hadmits hlose
  refine ⟨[.atSite (.inside event)], r', w, ?_⟩
  rcases hr with rfl | ⟨hr, hr'⟩
  · exact h.inside store hown hadmits hrenewers rfl h.early
  · have hwatching := h.early.resolve_right (by simp [hr])
    exact h.inside store hown hadmits hrenewers ((managedOf_new hr').trans (managedOf_new hr).symm)
      (.inl hwatching)

/-- The loss is sent as soon as it is built. -/
theorem Sim.lose (h : Sim r w g o) {err : Error} (hr : r = .failed err) (reading : Reading) :
    Meets (g.step (.lose reading)) o := by
  subst hr
  obtain rfl := h.early.resolve_right (by simp [signals])
  have hstep : (g.machine.step (.lose 0 reading)).renewers =
      [.exiting (some ⟨reading.clock, (g.machine.handle.observe reading).state, err⟩)] := by
    simp [Machine.step, Machine.lose, h.renewers]
  have hsite : ([.atSite (.inside (.lose 0 reading)), .atSite (.send 0)].foldl Run.step o).site =
      some ⟨g.machine.step (.lose 0 reading), [managedOf .watching (.exiting
        (some ⟨reading.clock, (g.machine.handle.observe reading).state, err⟩))], none⟩ := by
    simp [Run.step, Run.atSite, Site.Event.own, h.site, Site.step, Site.inside, Site.admits, Site.send, hstep,
      managedOf, Managed.new, buffered]
  exact ⟨_, _, _, hstep, h.watching, hsite, h.watcher, h.cancelled, h.phase, .inl rfl, h.stopped⟩

/-- The sections of the exit follow each other. -/
theorem Sim.exit (h : Sim r w g o) {loss : Option Loss} (hr : r = .exiting loss) :
    Meets (g.step .exit) o := by
  subst hr
  have hstep : (g.machine.step (.exit 0)).renewers = [.exited loss] := by
    simp [Machine.step, Machine.exit, h.renewers]
  have hsite : ([.atSite (.leave 0), .atSite .returnSlot, .atSite (.closeLoss 0),
      .atSite (.closeDone 0)].foldl Run.step o).site =
      some ⟨g.machine.step (.exit 0), [managedOf w (.exited loss)], none⟩ := by
    cases loss <;> simp [Run.step, Run.atSite, Site.Event.own, h.site, Site.step, Site.leave, Site.returnSlot,
      Site.closeLoss, Site.closeDone, h.renewers, managedOf, Managed.new, beforeExit, buffered, losses]
  exact ⟨_, _, _, hstep, h.watching, hsite, h.watcher, h.cancelled, h.phase, .inr rfl, h.stopped⟩

/-- The watcher receives from Loss and sends on losses. -/
theorem Sim.received (h : Sim r .watching g o) {loss : Loss} (hr : signals r = true)
    (hloss : Renewal.delivered r = some loss) :
    Sim r (.reported (.joined (.sentinel .errLost) loss.err))
      { g with watcher := some (.reported (.joined (.sentinel .errLost) loss.err)) }
      ([.watch, .report].foldl Run.step o) := by
  have hwatcher : o.watcher = some .watching := h.watcher
  have hbuffer := buffer_watching hr
  rw [hloss] at hbuffer
  simp only [List.foldl_cons, List.foldl_nil, Run.step, Run.watch, hwatcher, h.managed, hbuffer, Run.report,
    h.site, Option.map_some]
  refine ⟨h.renewers, rfl, ?_, rfl, h.cancelled, h.phase, .inr hr, h.stopped⟩
  rw [managedOf_received (w := .reported (.joined (.sentinel .errLost) loss.err)) hr (by simp)]
  rfl

/-- A watcher that has nothing to receive yet goes on waiting. -/
theorem Sim.watch (h : Sim r w g o) : Meets (g.step .watch) o := by
  cases w with
  | reported | closed =>
      simp only [Guard.Run.step, Guard.Run.watch, h.watching]
      exact h.meets
  | watching =>
      simp only [Guard.Run.step, Guard.Run.watch, h.watching, h.renewer]
      cases r with
      | sleeping | awake | renewing | failed => exact h.meets
      | exiting loss =>
          cases loss with
          | none => exact h.meets
          | some loss => exact ⟨_, _, _, h.received rfl rfl⟩
      | exited loss =>
          cases loss with
          | some loss => exact ⟨_, _, _, h.received rfl rfl⟩
          | none =>
              refine ⟨[.watch], .exited none, .closed none, ?_⟩
              have hwatcher : o.watcher = some .watching := h.watcher
              simp only [List.foldl_cons, List.foldl_nil, Run.step, Run.watch, hwatcher, h.managed]
              exact ⟨h.renewers, rfl, h.site, rfl, h.cancelled, h.phase, .inr rfl, h.stopped⟩

theorem Sim.unwatch (h : Sim r w g o) {err : Error} (hw : g.watcher = some (.reported err)) :
    Meets (g.step .unwatch) o := by
  obtain rfl := Option.some.inj (h.watching.symm.trans hw)
  have hwatcher : o.watcher = some (.reported err) := h.watcher
  refine ⟨[.cancelRun, .closeLosses], r, .closed (some err), ?_⟩
  simp only [Guard.Run.step, Guard.Run.unwatch, hw, List.foldl_cons, List.foldl_nil, Run.step, Run.cancelRun,
    hwatcher, Run.closeLosses]
  exact ⟨h.renewers, rfl, h.site, rfl, rfl, h.phase, .inr (h.early.resolve_left (by simp)), .inr rfl⟩

theorem Sim.stop (h : Sim r w g o) (hphase : g.phase = .working) : Meets (g.step .stop) o := by
  have hcalling : o.phase = .calling := by rw [h.phase, hphase]; rfl
  refine ⟨[.callbackReturned none], r, w, ?_⟩
  simp only [Guard.Run.step, Guard.Run.stop, hphase, List.foldl_cons, List.foldl_nil, Run.step,
    Run.callbackReturned, hcalling]
  exact ⟨h.renewers, h.watching, h.site, h.watcher, rfl, by simp [h.watcher, phaseOf], h.early, .inr rfl⟩

theorem Sim.join (h : Sim r w g o) {loss : Option Loss} (hphase : g.phase = .stopping)
    (hr : g.renewer = some (.exited loss)) : Meets (g.step .join) o := by
  obtain rfl := Option.some.inj (h.renewer.symm.trans hr)
  have hstopping : o.phase = .stopping none := by rw [h.phase, hphase]; rfl
  refine ⟨[.join], .exited loss, w, ?_⟩
  simp only [Guard.Run.step, Guard.Run.join, hphase, hr, List.foldl_cons, List.foldl_nil, Run.step, Run.join,
    hstopping, h.managed, managedOf]
  exact ⟨h.renewers, h.watching, h.site, h.watcher, h.cancelled, by simp [h.watching, phaseOf], h.early,
    .inr (h.stopped.resolve_left (by simp [hphase]))⟩

theorem Sim.drained (h : Sim r w g o) (hphase : g.phase = .draining) {loss : Option Error}
    (hloss : (watcherOf w).losses = some loss) : Meets { g with phase := .releasing loss } o := by
  have hdraining : o.phase = .draining none := by rw [h.phase, hphase]; rfl
  refine ⟨[.drain], r, w, ?_⟩
  simp only [List.foldl_cons, List.foldl_nil, Run.step, Run.drain, hdraining, h.watcher, Option.bind_some,
    hloss]
  exact ⟨h.renewers, h.watching, h.site, rfl, h.cancelled, rfl, h.early,
    .inr (h.stopped.resolve_left (by simp [hphase]))⟩

/-- Losses has a value, or it is closed. -/
theorem Sim.drain (h : Sim r w g o) : Meets (g.step .drain) o := by
  rw [Guard.Run.step, Guard.Run.drain]
  split
  next hphase hw =>
    obtain rfl := Option.some.inj (h.watching.symm.trans hw)
    exact h.drained hphase rfl
  next hphase hw =>
    obtain rfl := Option.some.inj (h.watching.symm.trans hw)
    exact h.drained hphase rfl
  next hphase hw =>
    obtain rfl := Option.some.inj (h.watching.symm.trans hw)
    exact h.drained hphase rfl
  next => exact h.meets

theorem Sim.release (h : Sim r w g o) {loss : Option Error} (hphase : g.phase = .releasing loss)
    (reading : Reading) : Meets (g.step (.release reading)) o := by
  have hreleasing : o.phase = .releasing loss := by rw [h.phase, hphase]; rfl
  refine ⟨[.release reading], r, w, ?_⟩
  simp only [Guard.Run.step, Guard.Run.release, hphase, List.foldl_cons, List.foldl_nil, Run.step, Run.release,
    hreleasing, h.site]
  exact ⟨h.renewers, h.watching, rfl, h.watcher, h.cancelled, rfl, h.early,
    .inr (h.stopped.resolve_left (by simp [hphase]))⟩

theorem Sim.collect (h : Sim r w g o) {loss err : Option Error} {call : Nat} {op : Op}
    (hphase : g.phase = .awaiting loss call) (hc : g.machine.calls[call]? = some ⟨op, .returned err⟩) :
    Meets (g.step .collect) o := by
  have hawaiting : o.phase = .awaiting loss call := by rw [h.phase, hphase]; rfl
  have hcancelled := h.stopped.resolve_left (by simp [hphase])
  refine ⟨[.collect], r, w, ?_⟩
  simp only [Guard.Run.step, Guard.Run.collect, hphase, hc, List.foldl_cons, List.foldl_nil, Run.step,
    Run.collect, hawaiting, h.site]
  exact ⟨h.renewers, h.watching, rfl, h.watcher, hcancelled.symm, rfl, h.early, .inr hcancelled⟩

theorem Sim.execute (h : Sim r w g o) (call : Nat) (now : Int) : Meets (g.step (.execute call now)) o := by
  simp only [Guard.Run.step, Guard.Run.execute]
  split
  next => exact h.drive _ rfl rfl (by simp)
  next => exact h.meets

/-- Every step of the run is some steps of the orchestration. -/
theorem Sim.step (h : Sim r w g o) (event : Guard.Event) : Meets (g.step event) o := by
  rcases Guard.enabled_or_still g event with henabled | hstill
  · cases henabled with
    | cancel =>
        exact ⟨[.cancel], r, w, h.renewers, h.watching, h.site, h.watcher, rfl, h.phase, h.early, .inr rfl⟩
    | other call =>
        exact ⟨[], r, w, h.renewers, h.watching, h.site, h.watcher, h.cancelled, h.phase, h.early, h.stopped⟩
    | wake _ err => exact h.drive g.store rfl rfl (by simp)
    | renew _ reading => exact h.drive g.store rfl rfl (by simp)
    | dispatch _ reading => exact h.drive g.store rfl rfl (by simp)
    | execute _ now => exact h.execute _ now
    | finish _ reading => exact h.drive g.store rfl rfl (by simp)
    | resume => exact h.drive g.store rfl rfl (by simp)
    | lose hr reading => exact h.lose (h.renewer_eq hr) reading
    | exit hr => exact h.exit (h.renewer_eq hr)
    | lost | watch => exact h.watch
    | unwatch hw => exact h.unwatch hw
    | stop hphase => exact h.stop hphase
    | join hphase hr => exact h.join hphase hr
    | drainReported | drain => exact h.drain
    | release hphase reading => exact h.release hphase reading
    | collect hphase hc => exact h.collect hphase hc
  · rw [hstill]
    exact h.meets

end Steps

section Runs

variable {policy : Policy} {record : Record} {started reading : Reading}

/-- Acquire and StartManaged have succeeded, and the callback is called. -/
def opening (record : Record) (started reading : Reading) : List Event :=
  [.acquired (.ok (record, started)), .startManaged reading true, .atSite .started, .call]

/-- StartManaged succeeds under a policy that renews only. -/
theorem renews_of_startManaged {handle : Handle} {slot : Bool}
    (h : (handle.startManaged reading slot).2 = none) : ¬handle.policy.renewEvery ≤ 0 := by
  intro hnever
  unfold Handle.startManaged at h
  rcases handle.requireActiveLocked_eq reading with ⟨err, he⟩ | ⟨he, _⟩
  · rw [he] at h
    cases h
  · rw [he] at h
    simp [hnever] at h

theorem sim_start (store : Memory.Store)
    (hstart : ((Handle.newHandleAt policy record started).startManaged reading true).2 = none) :
    Sim .sleeping .watching (Guard.start true store (Handle.newHandleAt policy record started) reading)
      ((opening record started reading).foldl Run.step (start policy)) := by
  obtain ⟨-, -, hmanaged⟩ := Handle.startManaged_ok _ hstart
  have hrenews : ¬policy.renewEvery ≤ 0 := renews_of_startManaged hstart
  have hmachine : (initial (Handle.newHandleAt policy record started)).startManaged reading true =
      ⟨{ Handle.newHandleAt policy record started with managed := true }, [], [.sleeping]⟩ := by
    simp [Machine.startManaged, hmanaged, initial]
  have hopening : (opening record started reading).foldl Run.step (start policy) =
      { policy
        site := some
          ⟨(initial (Handle.newHandleAt policy record started)).startManaged reading true, [.new], none⟩
        watcher := some .watching
        cancelled := false
        phase := .calling
        callbacks := [record.token]
        results := ⟨some (.ok record), some none, none, none⟩ } := by
    rw [hmachine]
    simp [opening, start, Run.step, Run.acquired, Run.startManaged, Run.atSite, Run.started, Run.call,
      Run.prepared, Site.new, Site.startManaged, Site.started, initial, hrenews, hmanaged]
    rfl
  rw [hopening]
  exact ⟨congrArg Machine.renewers hmachine, rfl, rfl, rfl, rfl, rfl, .inl rfl, .inl rfl⟩

/-- Whatever happens in a run over a memory store happens in the orchestration. -/
theorem refines (store : Memory.Store)
    (hstart : ((Handle.newHandleAt policy record started).startManaged reading true).2 = none)
    (events : List Guard.Event) :
    ∃ more : List Event, ∃ r w,
      Sim r w (events.foldl Guard.Run.step
          (Guard.start true store (Handle.newHandleAt policy record started) reading))
        ((opening record started reading ++ more).foldl Run.step (start policy)) := by
  have hsim := sim_start store hstart
  obtain ⟨more, r, w, hmore⟩ := simulation_rule (R := fun g o => ∃ r w, Sim r w g o) ⟨_, _, hsim⟩
    (fun g o event => by rintro ⟨r, w, h⟩; exact h.step event) events
  refine ⟨more, r, w, ?_⟩
  rw [List.foldl_append]
  exact hmore

theorem Sim.releases {r : Renewer} {w : Guard.Watcher} {g : Guard.Run} {o : Run} (h : Sim r w g o) :
    o.releases = g.machine.calls.countP (fun call => call.op == .release) := by
  simp only [Run.releases, h.site]

/-- The run over a memory store releases once, when its renewer has exited. -/
theorem releases_after_exit (store : Memory.Store)
    (hstart : ((Handle.newHandleAt policy record started).startManaged reading true).2 = none)
    (events : List Guard.Event) :
    let g := events.foldl Guard.Run.step
      (Guard.start true store (Handle.newHandleAt policy record started) reading)
    g.machine.calls.countP (fun call => call.op == .release) ≤ 1 ∧
      (g.machine.calls.countP (fun call => call.op == .release) = 1 →
        ∃ loss, g.machine.renewers = [.exited loss]) := by
  intro g
  obtain ⟨more, r, w, h⟩ := refines store hstart events
  have hsafe := (invariant_rule (inv_start policy) (fun _ event hs => hs.step event)
    (opening record started reading ++ more)).safe
  rw [← h.releases]
  refine ⟨hsafe.releases, ?_⟩
  intro hone
  have hended := (hsafe.releases_last hone).2 _ h.managed
  cases r with
  | exited loss => exact ⟨loss, h.renewers⟩
  | sleeping | awake | renewing | failed => cases hended
  | exiting loss => cases loss <;> cases hended

end Runs

end GoLease.Orchestration.Refinement
