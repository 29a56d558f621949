import GoLease.Service.Accounting

namespace GoLease.Service

open Traces Pool

/-- The steps that a call has before it at most. One that still may list an
entry counts what the cleanup has to do for it. -/
def Acquire.work : Acquire → Nat
  | .acquiring => 7
  | .obtained _ => 6
  | .started _ => 5
  | .rollingBack _ _ | .waiting => 2
  | .failing _ | .signalled => 1
  | .returned _ => 0

def Shutdown.work : Shutdown → Nat
  | .waiting => 2
  | .signalled => 1
  | .cached _ | .abandoned _ => 0

/-- The cleanup has two steps for each entry at most. -/
def Manager.cleanupWork (s : Manager) : Nat :=
  match s.cleanup with
  | .idle => 5 + 2 * s.entries.length
  | .launched => 4 + 2 * s.entries.length
  | .waiting _ => 3 + 2 * s.entries.length
  | .ready => 2 + 2 * s.entries.length
  | .working _ _ pending stopped => 1 + (2 * pending.length - stopped.toNat)
  | .done _ => 0

def Manager.work (s : Manager) : Nat :=
  (s.calls.map Acquire.work).sum + (s.shutdowns.map Shutdown.work).sum + s.cleanupWork

/-- A new call of one of the two methods. -/
def Event.arrives : Event → Bool
  | .acquire _ | .shutdown _ => true
  | _ => false

/-- A caller whose context ends gives up its wait. -/
def Event.abandons : Event → Bool
  | .abandon _ _ | .abandonShutdown _ _ => true
  | _ => false

structure Finished (s : Manager) : Prop where
  cleanup : ∃ entries, s.cleanup = .done entries
  calls : ∀ call ∈ s.calls, ∃ result, call = .returned result
  shutdowns : ∀ call ∈ s.shutdowns, (∃ err, call = .cached err) ∨ ∃ err, call = .abandoned err

section Work

variable {s t : Manager}

theorem work_congr (hcalls : t.calls = s.calls) (hshutdowns : t.shutdowns = s.shutdowns)
    (hcleanup : t.cleanup = s.cleanup) (hentries : t.entries = s.entries) : t.work = s.work := by
  simp only [Manager.work, Manager.cleanupWork, hcalls, hshutdowns, hcleanup, hentries]

/-- A call moves on and nothing else does. -/
theorem setCall_work {call : Nat} {old : Acquire} (hc : s.calls[call]? = some old) (new : Acquire) :
    (s.setCall call new).work + old.work = s.work + new.work := by
  have hsum := sum_map_set_add (f := Acquire.work) (b := new) hc
  simp only [Manager.setCall, Manager.work, Manager.cleanupWork]
  omega

theorem setCall_work_lt {call : Nat} {old new : Acquire} (hc : s.calls[call]? = some old)
    (hlt : new.work < old.work) : (s.setCall call new).work < s.work := by
  have hwork := setCall_work hc new
  omega

theorem setCall_shutdowns (call : Nat) (stage : Acquire) :
    (s.setCall call stage).shutdowns = s.shutdowns := rfl

theorem finishAcquisitionLocked_shutdowns : s.finishAcquisitionLocked.shutdowns = s.shutdowns := by
  unfold Manager.finishAcquisitionLocked
  rfl

theorem finishAcquisitionLocked_work : s.finishAcquisitionLocked.work = s.work := by
  apply work_congr finishAcquisitionLocked_calls finishAcquisitionLocked_shutdowns
  all_goals
    unfold Manager.finishAcquisitionLocked
    rfl

theorem work_shutdown {call : Nat} {old new : Shutdown} (hc : s.shutdowns[call]? = some old)
    (hlt : new.work < old.work) : { s with shutdowns := s.shutdowns.set call new }.work < s.work := by
  have hsum := sum_map_set_add (f := Shutdown.work) (b := new) hc
  simp only [Manager.work, Manager.cleanupWork]
  omega

theorem work_cleanup (hcalls : t.calls = s.calls) (hshutdowns : t.shutdowns = s.shutdowns)
    (hlt : t.cleanupWork < s.cleanupWork) : t.work < s.work := by
  simp only [Manager.work, hcalls, hshutdowns]
  omega

theorem acquired_work (call : Nat) (err : Option Error) (renew : Bool) :
    s.acquired call err renew = s ∨ (s.acquired call err renew).work < s.work := by
  unfold Manager.acquired
  split
  next hc =>
    refine .inr ?_
    cases err with
    | some err => exact setCall_work_lt hc (by simp [Acquire.work])
    | none =>
        refine lt_of_eq_of_lt (work_congr rfl rfl rfl rfl) (setCall_work_lt hc ?_)
        cases renew <;> simp [Acquire.work]
  next => exact .inl rfl

theorem startManaged_work (call : Nat) (err : Option Error) :
    s.startManaged call err = s ∨ (s.startManaged call err).work < s.work := by
  unfold Manager.startManaged
  split
  next hc =>
    refine .inr ?_
    cases err <;> exact setCall_work_lt hc (by simp [Acquire.work])
  next => exact .inl rfl

theorem rollback_work (call : Nat) (err : Option Error) :
    s.rollback call err = s ∨ (s.rollback call err).work < s.work := by
  unfold Manager.rollback
  split
  next hc =>
    refine .inr (lt_of_eq_of_lt (work_congr rfl rfl rfl rfl) (setCall_work_lt hc ?_))
    simp [Acquire.work]
  next => exact .inl rfl

theorem releaseReservation_work (call : Nat) :
    s.releaseReservation call = s ∨ (s.releaseReservation call).work < s.work := by
  unfold Manager.releaseReservation
  split
  next err hc =>
    generalize hgiven : ({ s with active := subtract s.active 1 } : Manager) = given
    have hwork : given.finishAcquisitionLocked.work = s.work := by
      rw [finishAcquisitionLocked_work, ← hgiven]
      exact work_congr rfl rfl rfl rfl
    have hcalls : given.finishAcquisitionLocked.calls[call]? = some (.failing err) := by
      rw [finishAcquisitionLocked_calls, ← hgiven]
      exact hc
    rw [← hwork]
    exact .inr (setCall_work_lt hcalls Nat.zero_lt_one)
  next => exact .inl rfl

/-- A call with a reservation comes before the snapshot of the cleanup, and so
its entry is one that the cleanup works on. -/
theorem Inv.commit_work (h : Inv s) (call : Nat) :
    s.commit call = s ∨ (s.commit call).work < s.work := by
  unfold Manager.commit
  split
  next owned hc =>
    obtain ⟨_, hearly⟩ := h.reserving hc rfl
    have hnew : (if s.closed then Acquire.waiting else .returned (.ok owned.handle)).work ≤ 2 := by
      split <;> simp [Acquire.work]
    generalize hlisted : ({ s with
      entries := s.entries ++ [owned], appended := s.appended ++ [owned.handle] } : Manager) = listed
    have hwork : listed.finishAcquisitionLocked.work = s.work + 2 := by
      rw [finishAcquisitionLocked_work, ← hlisted]
      rcases hearly with hcleanup | hcleanup | ⟨n, hcleanup⟩ <;>
        simp only [Manager.work, Manager.cleanupWork, hcleanup, List.length_append, List.length_singleton] <;>
        omega
    have hcalls : listed.finishAcquisitionLocked.calls[call]? = some (.started owned) := by
      rw [finishAcquisitionLocked_calls, ← hlisted]
      exact hc
    have hset := setCall_work hcalls (if s.closed then .waiting else .returned (.ok owned.handle))
    have hstarted : (Acquire.started owned).work = 5 := rfl
    refine .inr ?_
    omega
  next => exact .inl rfl

theorem signal_work (call : Nat) : s.signal call = s ∨ (s.signal call).work < s.work := by
  unfold Manager.signal
  split
  next hc _ => exact .inr (setCall_work_lt hc (by simp [Acquire.work]))
  next => exact .inl rfl

theorem collect_work (call : Nat) : s.collect call = s ∨ (s.collect call).work < s.work := by
  unfold Manager.collect
  split
  next hc => exact .inr (setCall_work_lt hc (by simp [Acquire.work]))
  next => exact .inl rfl

theorem abandon_work (call : Nat) (err : ContextErr) :
    s.abandon call err = s ∨ (s.abandon call err).work < s.work := by
  unfold Manager.abandon
  split
  next hc => exact .inr (setCall_work_lt hc (by simp [Acquire.work]))
  next => exact .inl rfl

theorem signalShutdown_work (call : Nat) :
    s.signalShutdown call = s ∨ (s.signalShutdown call).work < s.work := by
  unfold Manager.signalShutdown
  split
  next hc _ => exact .inr (work_shutdown hc (by simp [Shutdown.work]))
  next => exact .inl rfl

theorem collectShutdown_work (call : Nat) :
    s.collectShutdown call = s ∨ (s.collectShutdown call).work < s.work := by
  unfold Manager.collectShutdown
  split
  next hc => exact .inr (work_shutdown hc (by simp [Shutdown.work]))
  next => exact .inl rfl

theorem abandonShutdown_work (call : Nat) (err : ContextErr) :
    s.abandonShutdown call err = s ∨ (s.abandonShutdown call err).work < s.work := by
  unfold Manager.abandonShutdown
  split
  next hc => exact .inr (work_shutdown hc (by simp [Shutdown.work]))
  next => exact .inl rfl

theorem launch_work : s.launch = s ∨ s.launch.work < s.work := by
  unfold Manager.launch
  split
  next hc => exact .inr (work_cleanup rfl rfl (by simp [Manager.cleanupWork, hc]))
  next => exact .inl rfl

theorem observe_work : s.observe = s ∨ s.observe.work < s.work := by
  unfold Manager.observe
  split
  next hc =>
    split
    next => exact .inl rfl
    next => exact .inr (work_cleanup rfl rfl (by simp [Manager.cleanupWork, hc]))
  next => exact .inl rfl

theorem snapshot_work : s.snapshot = s ∨ s.snapshot.work < s.work := by
  unfold Manager.snapshot
  split
  next hc => exact .inr (work_cleanup rfl rfl (by simp [Manager.cleanupWork, hc]))
  next => exact .inl rfl

theorem stop_work (err : Option Error) : s.stop err = s ∨ (s.stop err).work < s.work := by
  unfold Manager.stop
  split
  next hc =>
    split
    next =>
      refine .inr (work_cleanup rfl rfl ?_)
      simp only [Manager.cleanupWork, hc, List.length_cons, Bool.toNat_false, Bool.toNat_true]
      omega
    next => exact .inl rfl
  next => exact .inl rfl

theorem release_work (err : Option Error) : s.release err = s ∨ (s.release err).work < s.work := by
  unfold Manager.release
  split
  next stopped hc =>
    split
    next => exact .inl rfl
    next =>
      refine .inr (work_cleanup rfl rfl ?_)
      cases stopped <;> simp only [Manager.cleanupWork, hc, List.length_cons, Bool.toNat_false,
        Bool.toNat_true] <;> omega
  next => exact .inl rfl

theorem finish_work : s.finish = s ∨ s.finish.work < s.work := by
  unfold Manager.finish
  split
  next hc => exact .inr (work_cleanup rfl rfl (by simp [Manager.cleanupWork, hc]))
  next => exact .inl rfl

/-- No step undoes another. -/
theorem Inv.step_work (h : Inv s) {event : Event} (harrives : event.arrives = false) :
    s.step event = s ∨ (s.step event).work < s.work := by
  cases event with
  | acquire | shutdown => cases harrives
  | acquired call err renew => exact acquired_work call err renew
  | startManaged call err => exact startManaged_work call err
  | rollback call err => exact rollback_work call err
  | releaseReservation call => exact releaseReservation_work call
  | commit call => exact h.commit_work call
  | signal call => exact signal_work call
  | collect call => exact collect_work call
  | abandon call err => exact abandon_work call err
  | signalShutdown call => exact signalShutdown_work call
  | collectShutdown call => exact collectShutdown_work call
  | abandonShutdown call err => exact abandonShutdown_work call err
  | launch => exact launch_work
  | observe => exact observe_work
  | snapshot => exact snapshot_work
  | stop err => exact stop_work err
  | release err => exact release_work err
  | finish => exact finish_work

end Work

section Enabled

variable {s t : Manager}

/-- A step that this state takes by itself, without a caller giving up. -/
def Advances (s : Manager) : Prop :=
  ∃ event : Event, event.arrives = false ∧ event.abandons = false ∧ (s.step event).work < s.work

theorem lt_of_moved {call : Nat} {old : Acquire} (new : Acquire) (h : t = s ∨ t.work < s.work)
    (hc : s.calls[call]? = some old) (ht : t.calls[call]? = some new) (hne : new ≠ old) :
    t.work < s.work := by
  rcases h with rfl | h
  · rw [hc] at ht
    exact absurd (Option.some.inj ht).symm hne
  · exact h

/-- Whoever holds a reservation can go on, whatever the client answers. -/
theorem Inv.advances_reserving (h : Inv s) {call : Nat} {stage : Acquire}
    (hc : s.calls[call]? = some stage) (hr : stage.reserves = true) : Advances s := by
  cases stage with
  | acquiring =>
      refine ⟨.acquired call (some (wrap .errTimeout "acquire")) false, rfl, rfl, ?_⟩
      simp only [Manager.step, Manager.acquired, hc]
      exact setCall_work_lt hc (by simp [Acquire.work])
  | obtained handle =>
      refine ⟨.startManaged call none, rfl, rfl, ?_⟩
      simp only [Manager.step, Manager.startManaged, hc]
      exact setCall_work_lt hc (by simp [Acquire.work])
  | rollingBack handle err =>
      refine ⟨.rollback call none, rfl, rfl, ?_⟩
      simp only [Manager.step, Manager.rollback, hc]
      exact lt_of_eq_of_lt (work_congr rfl rfl rfl rfl) (setCall_work_lt hc (by simp [Acquire.work]))
  | failing err =>
      refine ⟨.releaseReservation call, rfl, rfl, ?_⟩
      refine lt_of_moved (.returned (.error err)) (releaseReservation_work call) hc ?_ (by simp)
      simp only [Manager.step, Manager.releaseReservation, hc]
      rw [setCall_calls, finishAcquisitionLocked_calls]
      exact getElem?_set_of_some hc _
  | started owned =>
      refine ⟨.commit call, rfl, rfl, ?_⟩
      refine lt_of_moved (if s.closed then .waiting else .returned (.ok owned.handle)) (h.commit_work call)
        hc ?_ ?_
      · simp only [Manager.step, Manager.commit, hc]
        rw [setCall_calls, finishAcquisitionLocked_calls]
        exact getElem?_set_of_some hc _
      · cases s.closed <;> simp
  | waiting | signalled | returned => cases hr

/-- Once no call holds a reservation the cleanup does not wait for any. -/
theorem Inv.advances_cleanup (h : Inv s) (hstarted : s.shutdownStarted = true) (hidle : s.acquiring = 0)
    (hopen : ∀ entries, s.cleanup ≠ .done entries) : Advances s := by
  have hlt {event : Event} (harrives : event.arrives = false) (habandons : event.abandons = false)
      (hne : (s.step event).cleanup ≠ s.cleanup) : Advances s := by
    refine ⟨event, harrives, habandons, (h.step_work harrives).resolve_left ?_⟩
    intro he
    exact hne (congrArg Manager.cleanup he)
  cases hc : s.cleanup with
  | idle =>
      have hclosed := (h.cleanup_at hc).1
      rw [← h.started, hstarted] at hclosed
      cases hclosed
  | launched => exact @hlt .launch rfl rfl (by simp [Manager.step, Manager.launch, hc])
  | waiting channel =>
      obtain ⟨_, _, _, rfl⟩ := h.cleanup_at hc
      have hcloses : s.closes s.acquisitionsDone = 1 := by
        rw [h.closes, if_pos (.inr ⟨rfl, hidle⟩)]
      exact @hlt .observe rfl rfl (by simp [Manager.step, Manager.observe, hc, hcloses])
  | ready => exact @hlt .snapshot rfl rfl (by simp [Manager.step, Manager.snapshot, hc])
  | working entries result pending stopped =>
      cases pending with
      | nil => exact @hlt .finish rfl rfl (by simp [Manager.step, Manager.finish, hc])
      | cons entry pending =>
          by_cases hstop : entry.managed = true ∧ stopped = false
          · obtain ⟨hmanaged, rfl⟩ := hstop
            exact @hlt (.stop none) rfl rfl (by simp [Manager.step, Manager.stop, hc, hmanaged])
          · refine @hlt (.release none) rfl rfl ?_
            have hready : (entry.managed && !stopped) = false := by
              cases hm : entry.managed <;> cases stopped <;> simp_all
            simp [Manager.step, Manager.release, hc, hready]
  | done entries => exact absurd hc (hopen entries)

theorem Acquire.returned_of_work {call : Acquire} (h : call.work = 0) : ∃ result, call = .returned result := by
  cases call with
  | returned result => exact ⟨result, rfl⟩
  | acquiring | failing | obtained | rollingBack | started | waiting | signalled => cases h

theorem Shutdown.returned_of_work {call : Shutdown} (h : call.work = 0) :
    (∃ err, call = .cached err) ∨ ∃ err, call = .abandoned err := by
  cases call with
  | cached err => exact .inl ⟨err, rfl⟩
  | abandoned err => exact .inr ⟨err, rfl⟩
  | waiting | signalled => cases h

/-- The cleanup is done and has closed its channel, so that every wait ends. -/
theorem Inv.advances_call (h : Inv s) {entries : List Owned} (hc : s.cleanup = .done entries) {call : Nat}
    {stage : Acquire} (hcall : s.calls[call]? = some stage) (hwork : stage.work ≠ 0) : Advances s := by
  have hdone : s.shutdownDone = some 1 := (h.cleanup_at hc).2.1
  cases stage with
  | acquiring | failing | obtained | rollingBack | started => exact h.advances_reserving hcall rfl
  | waiting =>
      refine ⟨.signal call, rfl, rfl, ?_⟩
      simp only [Manager.step, Manager.signal, hcall, hdone]
      exact setCall_work_lt hcall (by simp [Acquire.work])
  | signalled =>
      refine ⟨.collect call, rfl, rfl, ?_⟩
      simp only [Manager.step, Manager.collect, hcall]
      exact setCall_work_lt hcall (by simp [Acquire.work])
  | returned => exact absurd rfl hwork

theorem Inv.advances_shutdown (h : Inv s) {entries : List Owned} (hc : s.cleanup = .done entries)
    {call : Nat} {stage : Shutdown} (hcall : s.shutdowns[call]? = some stage) (hwork : stage.work ≠ 0) :
    Advances s := by
  have hdone : s.shutdownDone = some 1 := (h.cleanup_at hc).2.1
  cases stage with
  | waiting =>
      refine ⟨.signalShutdown call, rfl, rfl, ?_⟩
      simp only [Manager.step, Manager.signalShutdown, hcall, hdone]
      exact work_shutdown hcall (by simp [Shutdown.work])
  | signalled =>
      refine ⟨.collectShutdown call, rfl, rfl, ?_⟩
      simp only [Manager.step, Manager.collectShutdown, hcall]
      exact work_shutdown hcall (by simp [Shutdown.work])
  | cached | abandoned => exact absurd rfl hwork

theorem Inv.advances (h : Inv s) (hstarted : s.shutdownStarted = true) (hopen : ¬Finished s) :
    Advances s := by
  by_cases hr : ∃ stage ∈ s.calls, Acquire.reserves stage = true
  · obtain ⟨stage, hmem, hr⟩ := hr
    obtain ⟨call, hcall⟩ := List.mem_iff_getElem?.mp hmem
    exact h.advances_reserving hcall hr
  by_cases hd : ∃ entries, s.cleanup = .done entries
  · obtain ⟨entries, hc⟩ := hd
    by_cases hcalls : ∃ stage ∈ s.calls, Acquire.work stage ≠ 0
    · obtain ⟨stage, hmem, hwork⟩ := hcalls
      obtain ⟨call, hcall⟩ := List.mem_iff_getElem?.mp hmem
      exact h.advances_call hc hcall hwork
    by_cases hshutdowns : ∃ stage ∈ s.shutdowns, Shutdown.work stage ≠ 0
    · obtain ⟨stage, hmem, hwork⟩ := hshutdowns
      obtain ⟨call, hcall⟩ := List.mem_iff_getElem?.mp hmem
      exact h.advances_shutdown hc hcall hwork
    refine absurd ⟨⟨entries, hc⟩, ?_, ?_⟩ hopen
    · intro call hmem
      exact Acquire.returned_of_work (not_not.mp fun hw => hcalls ⟨call, hmem, hw⟩)
    · intro call hmem
      exact Shutdown.returned_of_work (not_not.mp fun hw => hshutdowns ⟨call, hmem, hw⟩)
  · refine h.advances_cleanup hstarted ?_ (fun entries hc => hd ⟨entries, hc⟩)
    rw [← h.acquiring, List.countP_eq_zero]
    exact fun stage hmem hreserves => hr ⟨stage, hmem, hreserves⟩

end Enabled

section Finish

variable {s : Manager}

theorem count_release (entries : List Owned) (handle : Nat) :
    (entries.flatMap effects).count (.release handle) = (entries.map Owned.handle).count handle := by
  induction entries with
  | nil => rfl
  | cons entry rest ih =>
      have hone : (effects entry).count (.release handle) = [entry.handle].count handle := by
        cases hm : entry.managed <;> simp [effects, hm, List.count_cons]
      rw [List.flatMap_cons, List.count_append, hone, ih, List.map_cons, ← List.count_append]
      rfl

/-- What a finished manager has done with the handles that it obtained. -/
theorem Inv.released (h : Inv s) (hf : Finished s) :
    s.active = 0 ∧ ∀ handle < s.handles,
      s.rolledBack.count handle + s.cleaned.count (.release handle) = 1 := by
  obtain ⟨entries, hc⟩ := hf.cleanup
  obtain ⟨_, _, hacquiring, hentries, hcleaned⟩ := h.cleanup_at hc
  refine ⟨by rw [h.active, hacquiring, hentries]; rfl, ?_⟩
  intro handle hlt
  have hheld : s.calls.countP (Acquire.holds handle) = 0 := by
    rw [List.countP_eq_zero]
    intro call hmem
    obtain ⟨result, rfl⟩ := hf.calls call hmem
    exact Bool.false_ne_true
  have hlisted : listed s = entries := by simp only [listed, hc]
  have hcount := h.handles handle
  rw [if_pos hlt, hheld, h.appended, hlisted] at hcount
  rw [hcleaned, count_release]
  omega

/-- Shutdown is not taken back. -/
theorem Inv.step_started (h : Inv s) (event : Event) (hs : s.shutdownStarted = true) :
    (s.step event).shutdownStarted = true := by
  have hbarred : Barred s.calls.length s.closed s.calls := by
    refine ⟨h.started.symm.trans hs, fun handle hcall => ?_⟩
    rw [List.getElem?_eq_none (Nat.le_refl _)] at hcall
    cases hcall
  exact (h.step event).started.trans (hbarred.step event).1

/-- Between arrivals a call of Shutdown moves by itself, and gives up only when
its context ends. -/
theorem step_shutdowns {event : Event} (harrives : event.arrives = false) (habandons : event.abandons = false) :
    (s.step event).shutdowns = s.shutdowns ∨ ∃ call new, (s.step event).shutdowns = s.shutdowns.set call new ∧
      ∀ err, new ≠ .abandoned err := by
  cases event with
  | acquire | shutdown => cases harrives
  | abandon | abandonShutdown => cases habandons
  | signalShutdown call =>
      simp only [Manager.step, Manager.signalShutdown]
      split
      next => exact .inr ⟨call, .signalled, rfl, by simp⟩
      next => exact .inl rfl
  | collectShutdown call =>
      simp only [Manager.step, Manager.collectShutdown]
      split
      next => exact .inr ⟨call, .cached s.shutdownErr, rfl, by simp⟩
      next => exact .inl rfl
  | acquired call err renew =>
      refine .inl ?_
      simp only [Manager.step, Manager.acquired]
      split
      next => cases err <;> rfl
      next => rfl
  | startManaged call err =>
      refine .inl ?_
      simp only [Manager.step, Manager.startManaged]
      split
      next => cases err <;> rfl
      next => rfl
  | rollback call err =>
      refine .inl ?_
      simp only [Manager.step, Manager.rollback]
      split <;> rfl
  | releaseReservation call =>
      refine .inl ?_
      simp only [Manager.step, Manager.releaseReservation]
      split
      next => rw [setCall_shutdowns, finishAcquisitionLocked_shutdowns]
      next => rfl
  | commit call =>
      refine .inl ?_
      simp only [Manager.step, Manager.commit]
      split
      next => rw [setCall_shutdowns, finishAcquisitionLocked_shutdowns]
      next => rfl
  | signal call =>
      refine .inl ?_
      simp only [Manager.step, Manager.signal]
      split <;> rfl
  | collect call =>
      refine .inl ?_
      simp only [Manager.step, Manager.collect]
      split <;> rfl
  | launch =>
      refine .inl ?_
      simp only [Manager.step, Manager.launch]
      split <;> rfl
  | observe =>
      refine .inl ?_
      simp only [Manager.step, Manager.observe]
      split
      next => split <;> rfl
      next => rfl
  | snapshot =>
      refine .inl ?_
      simp only [Manager.step, Manager.snapshot]
      split <;> rfl
  | stop err =>
      refine .inl ?_
      simp only [Manager.step, Manager.stop]
      split
      next => split <;> rfl
      next => rfl
  | release err =>
      refine .inl ?_
      simp only [Manager.step, Manager.release]
      split
      next => split <;> rfl
      next => rfl
  | finish =>
      refine .inl ?_
      simp only [Manager.step, Manager.finish]
      split <;> rfl

end Finish

/-- Shutdown ends. Once it has begun, no step of the manager, its calls and its
cleanup undoes another; and all of them come to their ends, without new calls
and without a caller giving up. Every call has then returned, those of Shutdown
with the one cached error unless they had given up before, and every handle that
was ever obtained has been released exactly once. -/
theorem shutdown_completes {max : UInt32} {initial : Manager} (hnew : new max = .ok initial)
    (events : List Event) :
    let s := events.foldl Manager.step initial
    s.shutdownStarted = true →
      (∀ event, event.arrives = true ∨ s.step event = s ∨ (s.step event).work < s.work) ∧
      ∃ later : List Event, later.length ≤ s.work ∧
        (∀ event ∈ later, event.arrives = false ∧ event.abandons = false) ∧
        let t := later.foldl Manager.step s
        Finished t ∧ t.active = 0 ∧
          (∀ handle < t.handles, t.rolledBack.count handle + t.cleaned.count (.release handle) = 1) ∧
          ∀ (i : Nat) call, t.shutdowns[i]? = some call →
            call = .cached t.shutdownErr ∨ ∃ err, call = .abandoned err ∧ s.shutdowns[i]? = some call := by
  intro s hstarted
  have hinv : Inv s := invariant_rule (inv_new hnew) (fun _ event h => h.step event) events
  refine ⟨fun event => ?_, ?_⟩
  · cases harrives : event.arrives with
    | true => exact .inl rfl
    | false => exact .inr (hinv.step_work harrives)
  have hreaches := @reaches_rule _ _ Manager.step (fun t => (Inv t ∧ t.shutdownStarted = true) ∧
    ∀ (i : Nat) err, t.shutdowns[i]? = some (.abandoned err) → s.shutdowns[i]? = some (.abandoned err))
    Finished (fun event => event.arrives = false ∧ event.abandons = false) Manager.work ?_ s
    ⟨⟨hinv, hstarted⟩, fun _ _ h => h⟩
  · obtain ⟨later, hlater, hle, ⟨⟨ht, _⟩, hold⟩, hfinished⟩ := hreaches
    refine ⟨later, hle, hlater, hfinished, (ht.released hfinished).1, (ht.released hfinished).2, ?_⟩
    intro i call hi
    rcases hfinished.shutdowns call (List.mem_of_getElem? hi) with ⟨err, rfl⟩ | ⟨err, rfl⟩
    · have hcached := ht.shutdowns _ (List.mem_of_getElem? hi)
      exact .inl (congrArg Shutdown.cached hcached.2)
    · exact .inr ⟨err, rfl, hold i err hi⟩
  · rintro t ⟨⟨ht, hts⟩, hold⟩ hopen
    obtain ⟨event, harrives, habandons, hlt⟩ := ht.advances hts hopen
    refine ⟨event, ⟨harrives, habandons⟩, ⟨⟨ht.step event, ht.step_started event hts⟩, ?_⟩, hlt⟩
    intro i err hi
    rcases step_shutdowns (s := t) harrives habandons with he | ⟨call, new, he, hnew⟩
    · rw [he] at hi
      exact hold i err hi
    · rw [he] at hi
      rcases getElem?_set_cases hi with ⟨_, hnew'⟩ | ⟨_, hi⟩
      · exact absurd hnew'.symm (hnew err)
      · exact hold i err hi

/-- Shutdown begins while one call is inside the client and one handle is held;
a second call of Shutdown waits with it. -/
theorem shutdown_completes_busy : ∃ initial, new 2 = .ok initial ∧
    let s := [.acquire (some none), .acquired 0 none true, .startManaged 0 none, .commit 0,
      .acquire (some none), .shutdown false, .shutdown false, .launch].foldl Manager.step initial
    ∃ later : List Event, later.length ≤ s.work ∧ Finished (later.foldl Manager.step s) := by
  refine ⟨_, rfl, ?_⟩
  obtain ⟨later, hle, _, hfinished, _⟩ := (shutdown_completes (show new 2 = .ok _ from rfl)
    [.acquire (some none), .acquired 0 none true, .startManaged 0 none, .commit 0, .acquire (some none),
      .shutdown false, .shutdown false, .launch] rfl).2
  exact ⟨later, hle, hfinished⟩

end GoLease.Service
