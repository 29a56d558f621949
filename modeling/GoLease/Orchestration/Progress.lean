import GoLease.Orchestration.Outcome
import GoLease.Orchestration.Release

namespace GoLease.Orchestration

open Lifecycle Capacity Traces Pool

/-- Run can go on to its return. -/
def Returns (s : Run) : Prop :=
  ∃ later, Along Run.step Joined s later ∧ ∃ err, (later.foldl Run.step s).phase = .returned err

section Progress

variable {s : Run} {record : Record} {site : Site} {err : Option Error}

theorem returns_of_steps {later : List Event} (hjoined : Along Run.step Joined s later)
    (h : Returns (later.foldl Run.step s)) : Returns s := by
  obtain ⟨rest, hrest, e, he⟩ := h
  refine ⟨later ++ rest, along_append hjoined hrest, e, ?_⟩
  rw [List.foldl_append]
  exact he

theorem returns_of_step {event : Event} (hjoined : Joined s event) (h : Returns (s.step event)) :
    Returns s :=
  @returns_of_steps s [event] ⟨hjoined, trivial⟩ h

/-- The goroutines of the handle are not held back by where Run stands. -/
theorem Held.run_own (h : Held s record site) (hphase : s.phase ≠ .starting) {later : List Site.Event}
    (hown : ∀ event ∈ later, event.own = true) :
    Along Run.step Joined s (later.map .atSite) ∧
      (later.map .atSite).foldl Run.step s = { s with site := some (later.foldl Site.step site) } := by
  induction later generalizing s site with
  | nil =>
      refine ⟨trivial, ?_⟩
      rw [List.map_nil, List.foldl_nil, List.foldl_nil, ← h.site_eq]
  | cons event later ih =>
      obtain ⟨hevent, hlater⟩ := List.forall_mem_cons.mp hown
      rw [List.map_cons, List.foldl_cons, List.foldl_cons]
      by_cases hstarted : event = .started
      · subst hstarted
        have hrun : s.step (.atSite .started) = s := by
          unfold Run.step Run.atSite Run.started
          dsimp only
          split
          next hp _ => exact absurd hp hphase
          next => rfl
        have hsite : site.step .started = site := by
          unfold Site.step Site.started
          dsimp only
          split
          next hl => exact absurd (h.starting.mp hl) hphase
          next => rfl
        obtain ⟨halong, hfold⟩ := ih h hphase hlater
        rw [hrun, hsite]
        exact ⟨⟨trivial, by rw [hrun]; exact halong⟩, hfold⟩
      · have hrun : s.step (.atSite event) = { s with site := some (site.step event) } := by
          unfold Run.step Run.atSite
          dsimp only
          split
          next => exact absurd rfl hstarted
          next => rw [if_pos hevent, h.site_eq]; rfl
        obtain ⟨halong, hfold⟩ := ih (h.own hevent hstarted).1 hphase hlater
        rw [hrun]
        exact ⟨⟨trivial, by rw [hrun]; exact halong⟩, hfold⟩

/-- When Run comes to the release nothing holds the lock of the handle. -/
theorem Settled.free (hs : Settled s record site err) (h : Held s record site)
    (hphase : s.phase ≠ .starting) : site.locked = none := by
  have hstarting := h.not_starting hphase
  have hunwatched (hw : s.watcher = none) : site.locked = none :=
    free_of_no_renewer h.ok (h.unwatched hw) hstarting
  cases hs with
  | refused _ hwatcher => exact hunwatched hwatcher
  | unwatched _ hwatcher => exact hunwatched hwatcher
  | joined _ _ _ hended =>
      obtain ⟨g, hg, ht⟩ := hended
      cases hl : site.locked with
      | none => rfl
      | some holder =>
          cases holder with
          | starting => exact absurd hl hstarting
          | leaving q =>
              obtain ⟨b, hb, hleaving⟩ := h.ok.leaving q hl
              rw [hg] at hb
              obtain ⟨_, rfl⟩ := getElem?_one hb
              rw [ht] at hleaving
              cases hleaving

theorem Inv.held_of (h : Inv s) (hacquiring : s.phase ≠ .acquiring)
    (hreturned : ∀ err, s.phase ≠ .returned err) : ∃ record site, Held s record site ∧ PhaseOk s record site := by
  cases h with
  | acquiring hphase => exact absurd hphase hacquiring
  | failed hphase => exact absurd hphase (hreturned _)
  | held hheld hphase => exact ⟨_, _, hheld, hphase⟩

theorem Inv.returns_of_awaiting (h : Inv s) {call : Nat} (hphase : s.phase = .awaiting err call) :
    Returns s := by
  obtain ⟨record, site, hheld, hp⟩ := h.held_of (by simp [hphase]) (by simp [hphase])
  have hstarting : s.phase ≠ .starting := by
    rw [hphase]
    exact nofun
  rw [PhaseOk, hphase] at hp
  obtain ⟨hsettled, _, stage, hc⟩ := hp
  obtain ⟨later, hown, _, op, result, hreturned⟩ := answers (hsettled.free hheld hstarting) hc
  obtain ⟨halong, hfold⟩ := hheld.run_own hstarting hown
  apply returns_of_steps halong
  rw [hfold]
  refine @returns_of_step _ .collect trivial ⟨[], trivial, errorsJoin err result, ?_⟩
  simp only [Run.step, Run.collect, hphase, hreturned, List.foldl_nil]

theorem Inv.returns_of_releasing (h : Inv s) (hphase : s.phase = .releasing err) : Returns s := by
  obtain ⟨record, site, hheld, hp⟩ := h.held_of (by simp [hphase]) (by simp [hphase])
  rw [PhaseOk, hphase] at hp
  have hfree := hp.1.free hheld (by simp [hphase])
  apply @returns_of_step s (.release ⟨0, 0⟩) trivial
  apply (h.step (.release ⟨0, 0⟩)).returns_of_awaiting
  · simp only [Run.step, Run.release, hphase, hheld.site_eq, hfree, Option.isSome_none]
    rfl

section Draining

variable (h : Inv s) (hphase : s.phase = .draining err)

include h hphase

theorem Inv.returns_of_finished {loss : Option Error} (hw : s.watcher = some (.finished loss)) :
    Returns s := by
  have hjoined : Joined s .drain := by
    intro w hw'
    rw [hw] at hw'
    cases hw'
    rfl
  apply returns_of_step hjoined
  apply (h.step .drain).returns_of_releasing
  · simp only [Run.step, Run.drain, hphase, hw]
    rfl

theorem Inv.returns_of_canceled {loss : Error} (hw : s.watcher = some (.canceled loss)) : Returns s := by
  have hstep : s.step .closeLosses = { s with watcher := some (.finished (some loss)) } := by
    simp only [Run.step, Run.closeLosses, hw]
  have hinv := h.step .closeLosses
  apply @returns_of_step s .closeLosses trivial
  rw [hstep] at hinv ⊢
  exact hinv.returns_of_finished hphase rfl

theorem Inv.returns_of_reported {loss : Error} (hw : s.watcher = some (.reported loss)) : Returns s := by
  have hstep : s.step .cancelRun = { s with cancelled := true, watcher := some (.canceled loss) } := by
    simp only [Run.step, Run.cancelRun, hw]
  have hinv := h.step .cancelRun
  apply @returns_of_step s .cancelRun trivial
  rw [hstep] at hinv ⊢
  exact hinv.returns_of_canceled hphase rfl

theorem Inv.returns_of_received {loss : Loss} (hw : s.watcher = some (.received loss)) : Returns s := by
  have hstep : s.step .report =
      { s with watcher := some (.reported (.joined (.sentinel .errLost) loss.err)) } := by
    simp only [Run.step, Run.report, hw]
  have hinv := h.step .report
  apply @returns_of_step s .report trivial
  rw [hstep] at hinv ⊢
  exact hinv.returns_of_reported hphase rfl

/-- The loss channel has a value or is closed, so the watcher does not block. -/
theorem Inv.returns_of_watching (hw : s.watcher = some .watching) : Returns s := by
  obtain ⟨record, site, hheld, hp⟩ := h.held_of (by simp [hphase]) (by simp [hphase])
  rw [PhaseOk, hphase] at hp
  obtain ⟨_, _, ⟨g, hg, ht⟩, _⟩ := hp
  obtain ⟨r, _, hr, _⟩ := hheld.watches hw
  have hmanaged := hheld.ok.managed 0 r g (by rw [hr]; rfl) (by rw [hg]; rfl)
  rw [ManagedOk, ht] at hmanaged
  obtain ⟨_, _, _, _, hcloses, _⟩ := hmanaged
  have hinv := h.step .watch
  apply @returns_of_step s .watch trivial
  cases hb : g.buffer with
  | some loss =>
      have hstep : s.step .watch = { s with
          site := s.site.map (fun site => site.receive 0), watcher := some (.received loss) } := by
        simp only [Run.step, Run.watch, hw, hheld.managed_eq hg, hb]
      rw [hstep] at hinv ⊢
      exact hinv.returns_of_received hphase rfl
  | none =>
      have hstep : s.step .watch = { s with watcher := some (.finished none) } := by
        simp only [Run.step, Run.watch, hw, hheld.managed_eq hg, hb, hcloses]
        rfl
      rw [hstep] at hinv ⊢
      exact hinv.returns_of_finished hphase rfl

theorem Inv.returns_of_draining : Returns s := by
  obtain ⟨record, site, hheld, hp⟩ := h.held_of (by simp [hphase]) (by simp [hphase])
  rw [PhaseOk, hphase] at hp
  obtain ⟨w, hw⟩ := Option.isSome_iff_exists.mp hp.2.1
  cases w with
  | watching => exact h.returns_of_watching hphase hw
  | received => exact h.returns_of_received hphase hw
  | reported => exact h.returns_of_reported hphase hw
  | canceled => exact h.returns_of_canceled hphase hw
  | finished => exact h.returns_of_finished hphase hw

end Draining

/-- The renewal goroutine can come to its end, and Stop waits for no more. -/
theorem Inv.returns_of_stopping (h : Inv s) (hphase : s.phase = .stopping err) : Returns s := by
  obtain ⟨record, site, hheld, hp⟩ := h.held_of (by simp [hphase]) (by simp [hphase])
  rw [PhaseOk, hphase] at hp
  obtain ⟨w, hw⟩ := Option.isSome_iff_exists.mp hp.2.1
  obtain ⟨r, _, hr, _⟩ := hheld.watches hw
  have hr₀ : site.machine.renewers[0]? = some r := by
    rw [hr]
    rfl
  obtain ⟨later, hown, g, hg, ht⟩ := hheld.ok.ends hr₀
  obtain ⟨halong, hfold⟩ := hheld.run_own (by simp [hphase]) hown
  have hinv : Inv ((later.map Event.atSite).foldl Run.step s) :=
    invariant_rule h (fun _ event hs => hs.step event) _
  apply returns_of_steps halong
  have hok : SiteOk (later.foldl Site.step site) :=
    invariant_rule hheld.ok (fun _ event hs => hs.step event) later
  have hdone : g.doneCloses = 1 := by
    have hlt := (List.getElem?_eq_some_iff.mp hg).1
    rw [hok.length] at hlt
    have hmanaged := hok.managed 0 _ g (List.getElem?_eq_getElem hlt) hg
    rw [ManagedOk, ht] at hmanaged
    obtain ⟨_, _, _, _, _, hdone⟩ := hmanaged
    exact hdone
  rw [hfold] at hinv ⊢
  apply @returns_of_step _ .join trivial
  apply (hinv.step .join).returns_of_draining
  · simp only [Run.step, Run.join, hphase, Run.managed, Option.bind_eq_bind, Option.bind_some, hg, hdone]
    rfl

theorem Inv.returns_of_calling (h : Inv s) (hphase : s.phase = .calling) : Returns s := by
  apply @returns_of_step s (.callbackReturned none) trivial
  have hinv := h.step (.callbackReturned none)
  cases hw : s.watcher with
  | none =>
      apply hinv.returns_of_releasing
      · simp only [Run.step, Run.callbackReturned, hphase, hw]
        rfl
  | some w =>
      apply hinv.returns_of_stopping
      · simp only [Run.step, Run.callbackReturned, hphase, hw]
        rfl

theorem Inv.returns_of_prepared (h : Inv s) (hprepared : s.prepared = true)
    (hsite : s.site = some site) : Returns s := by
  apply @returns_of_step s .call trivial
  apply (h.step .call).returns_of_calling
  · simp only [Run.step, Run.call, hprepared, hsite]

theorem Inv.returns_of_ready (h : Inv s) (hphase : s.phase = .ready) : Returns s := by
  obtain ⟨record, site, hheld, _⟩ := h.held_of (by simp [hphase]) (by simp [hphase])
  refine h.returns_of_prepared ?_ hheld.site_eq
  rw [Run.prepared, hphase]

theorem Inv.returns_of_starting (h : Inv s) (hphase : s.phase = .starting) : Returns s := by
  obtain ⟨record, site, hheld, _⟩ := h.held_of (by simp [hphase]) (by simp [hphase])
  apply @returns_of_step s (.atSite .started) trivial
  apply (h.step (.atSite .started)).returns_of_ready
  simp only [Run.step, Run.atSite, Run.started, hphase, hheld.site_eq]

theorem Inv.returns_of_acquired (h : Inv s) (hphase : s.phase = .acquired) : Returns s := by
  obtain ⟨record, site, hheld, _⟩ := h.held_of (by simp [hphase]) (by simp [hphase])
  by_cases hdisabled : s.policy.renewEvery ≤ 0
  · refine h.returns_of_prepared ?_ hheld.site_eq
    rw [Run.prepared, hphase]
    exact decide_eq_true hdisabled
  · apply @returns_of_step s (.startManaged ⟨0, 0⟩ true) trivial
    have hinv := h.step (.startManaged ⟨0, 0⟩ true)
    cases hresult : (site.machine.handle.startManaged ⟨0, 0⟩ true).2 with
    | none =>
        apply hinv.returns_of_starting
        simp only [Run.step, Run.startManaged, hphase, hheld.site_eq, if_neg hdisabled, hresult]
    | some err =>
        apply hinv.returns_of_releasing
        · simp only [Run.step, Run.startManaged, hphase, hheld.site_eq, if_neg hdisabled, hresult]
          rfl

/-- Run never blocks for good. -/
theorem Inv.returns (h : Inv s) : Returns s := by
  cases hphase : s.phase with
  | acquiring =>
      refine ⟨[.acquired (.error (.sentinel .contextCanceled))], ⟨trivial, trivial⟩,
        some (.sentinel .contextCanceled), ?_⟩
      simp only [List.foldl_cons, List.foldl_nil, Run.step, Run.acquired, hphase]
  | acquired => exact h.returns_of_acquired hphase
  | starting => exact h.returns_of_starting hphase
  | ready => exact h.returns_of_ready hphase
  | calling => exact h.returns_of_calling hphase
  | stopping => exact h.returns_of_stopping hphase
  | draining => exact h.returns_of_draining hphase
  | releasing => exact h.returns_of_releasing hphase
  | awaiting => exact h.returns_of_awaiting hphase
  | returned err => exact ⟨[], trivial, err, hphase⟩

end Progress

section Watcher

variable {s : Run}

/-- Run has received from losses, or had nothing to receive. -/
def past : Phase → Bool
  | .releasing _ | .awaiting _ _ | .returned _ => true
  | _ => false

def WatcherDone (s : Run) : Prop := past s.phase = true → ∀ w, s.watcher = some w → w.isFinished = true

theorem WatcherDone.watcher (h : WatcherDone s) {w w' : Watcher} (hw : s.watcher = some w)
    (hrunning : w.isFinished = false) {site : Option Site} {cancelled : Bool} :
    WatcherDone { s with site, cancelled, watcher := some w' } := by
  intro hpast
  rw [h hpast w hw] at hrunning
  cases hrunning

theorem WatcherDone.unwatched (hw : s.watcher = none) : WatcherDone s := by
  intro _ w hw'
  rw [hw] at hw'
  cases hw'

/-- Run comes to the release without a watcher or after its receive. -/
theorem WatcherDone.step (h : WatcherDone s) (hinv : Inv s) {event : Event} (hjoined : Joined s event) :
    WatcherDone (s.step event) := by
  have ht := step_took s event
  generalize s.step event = s' at ht ⊢
  cases ht with
  | same | moved | cancelled => exact h
  | acquired | starting | started | called | joined =>
      intro hpast
      cases hpast
  | failed hphase =>
      apply WatcherDone.unwatched
      cases hinv with
      | acquiring _ _ hwatcher | failed _ _ hwatcher => exact hwatcher
      | held _ hp =>
          rw [PhaseOk, hphase] at hp
          exact hp.elim
  | refused hphase =>
      obtain ⟨_, _, _, hp⟩ := hinv.held_of (by simp [hphase]) (by simp [hphase])
      rw [PhaseOk, hphase] at hp
      exact .unwatched hp.2.1
  | callbackReturned =>
      cases s.watcher with
      | none => exact .unwatched rfl
      | some w =>
          intro hpast
          cases hpast
  | received hw | unlost hw | reported hw | canceledRun hw | closedLosses hw => exact h.watcher hw rfl
  | drained => exact fun _ => hjoined
  | released hphase | collected hphase => exact fun _ => h (by rw [hphase]; rfl)

end Watcher

/-- Orchestration of one run. In every interleaving of the callback, the renewal
goroutine and the watcher, with whatever answers, in which Run receives from
losses only once the watcher has closed it, every state is safe, Run can go on
to its return, and when it has returned the outcome is as documented and the
watcher is over. -/
theorem orchestration (policy : Policy) (events : List Event)
    (hrun : Along Run.step Joined (start policy) events) :
    let s := events.foldl Run.step (start policy)
    s.policy = policy ∧ Safe s ∧ Returns s ∧
      ∀ err, s.phase = .returned err → Outcome s err ∧ ∀ w, s.watcher = some w → w.isFinished = true := by
  intro s
  have h : Inv s ∧ WatcherDone s := along_rule (P := fun s => Inv s ∧ WatcherDone s)
    ⟨inv_start policy, nofun⟩ (fun _ event hs hj => ⟨hs.1.step event, hs.2.step hs.1 hj⟩) hrun
  refine ⟨?_, h.1.safe, h.1.returns, ?_⟩
  · exact invariant_rule (P := fun (s : Run) => s.policy = policy) rfl
      (fun s event hs => (step_recorded s event).policy.trans hs) events
  · intro err hreturned
    exact ⟨h.1.outcome hreturned, h.2 (by rw [hreturned]; rfl)⟩

/-- A renewal fails at the backend while the callback runs; the watcher has sent
its error and not yet cancelled when Run comes to its receive. -/
def reportedLoss : List Event :=
  [.acquired (.ok (Lifecycle.firstGrant, ⟨0, 0⟩)), .startManaged ⟨0, 0⟩ true, .atSite .started, .call,
    .atSite (.inside (.wake 0 none)), .atSite (.inside (.renew 0 ⟨300, 300⟩)),
    .atSite (.inside (.dispatch 0 ⟨300, 300⟩)),
    .atSite (.inside (.reply 0 (.ofErr (some (wrap .errAmbiguousOutcome "renew"))))),
    .atSite (.inside (.finish 0 ⟨310, 310⟩)), .atSite (.inside (.resume 0)),
    .atSite (.inside (.lose 0 ⟨310, 310⟩)), .atSite (.send 0), .watch, .report, .callbackReturned none,
    .atSite (.leave 0), .atSite .returnSlot, .atSite (.closeLoss 0), .atSite (.closeDone 0), .join]

def joinedLoss : List Event :=
  reportedLoss ++ [.cancelRun, .closeLosses, .drain, .release ⟨320, 320⟩, .collect]

def drainedEarly : List Event := reportedLoss ++ [.drain, .release ⟨320, 320⟩, .collect]

theorem orchestration_joined_loss :
    let s := joinedLoss.foldl Run.step (start Policy.renewable.1)
    ∃ err, s.phase = .returned (some err) ∧ err.is .errLost = true ∧
      s.callbacks = [1] ∧ s.releases = 1 ∧ ∀ w, s.watcher = some w → w.isFinished = true := by
  intro s
  have hrun : Along Run.step Joined (start Policy.renewable.1) joinedLoss := by
    simp only [joinedLoss, reportedLoss, List.cons_append, List.nil_append, Along, Joined, and_true, true_and]
    intro w hw
    cases hw
    rfl
  obtain ⟨_, _, _, hreturned⟩ := orchestration _ _ hrun
  have hphase : ∃ err, s.phase = .returned err := ⟨_, rfl⟩
  obtain ⟨err, hphase⟩ := hphase
  obtain ⟨houtcome, hfinished⟩ := hreturned err hphase
  have hloss : ∃ loss, s.delivered = some loss := ⟨_, rfl⟩
  obtain ⟨loss, hloss⟩ := hloss
  obtain ⟨e, rfl, hfound⟩ := houtcome.found _ (.lost hloss)
  exact ⟨e, hphase, is_of_finds hfound rfl, houtcome.called Lifecycle.firstGrant rfl (fun _ => rfl),
    houtcome.released Lifecycle.firstGrant rfl, hfinished⟩

/-- Run receives the error that the watcher has sent and returns while the
watcher has still to cancel and to close its channel. -/
theorem watcher_outlives_run :
    let s := drainedEarly.foldl Run.step (start Policy.renewable.1)
    (∃ err, s.phase = .returned err) ∧ ∃ w, s.watcher = some w ∧ w.isFinished = false := by
  intro s
  exact ⟨⟨_, rfl⟩, _, rfl, rfl⟩

end GoLease.Orchestration
