import GoLease.Pool
import GoLease.Service.Manager
import GoLease.Traces
import Mathlib.Data.List.Nodup

namespace GoLease.Service

open Traces Pool

/-- The call holds a reservation. -/
def Acquire.reserves : Acquire → Bool
  | .acquiring | .failing _ | .obtained _ | .rollingBack _ _ | .started _ => true
  | .waiting | .signalled | .returned _ => false

/-- The call answers for this handle: nobody else has released or listed it. -/
def Acquire.holds (handle : Nat) : Acquire → Bool
  | .obtained h | .rollingBack h _ => h == handle
  | .started owned => owned.handle == handle
  | .acquiring | .failing _ | .waiting | .signalled | .returned _ => false

/-- What the cleanup does with one entry, in this order. -/
def effects (owned : Owned) : List Effect :=
  if owned.managed then [.stop owned.handle, .release owned.handle] else [.release owned.handle]

/-- The entries before the pending ones are finished; if a renewer has been
stopped it is that of the first pending entry. -/
def Progress (entries pending : List Owned) (stopped : Bool) (cleaned : List Effect) : Prop :=
  ∃ finished, entries = finished ++ pending ∧
    (stopped = false ∧ cleaned = finished.flatMap effects ∨
      stopped = true ∧ ∃ entry rest, pending = entry :: rest ∧ entry.managed = true ∧
        cleaned = finished.flatMap effects ++ [.stop entry.handle])

def CleanupOk (s : Manager) : Cleanup → Prop
  | .idle => s.closed = false ∧ s.shutdownDone = none ∧ s.cleaned = []
  | .launched => s.closed = true ∧ s.shutdownDone = some 0 ∧ s.cleaned = []
  | .waiting channel => s.closed = true ∧ s.shutdownDone = some 0 ∧ s.cleaned = [] ∧
    channel = s.acquisitionsDone
  | .ready => s.closed = true ∧ s.shutdownDone = some 0 ∧ s.cleaned = [] ∧ s.acquiring = 0
  | .working entries _ pending stopped => s.closed = true ∧ s.shutdownDone = some 0 ∧
    s.acquiring = 0 ∧ entries = s.entries ∧ Progress entries pending stopped s.cleaned
  | .done entries => s.closed = true ∧ s.shutdownDone = some 1 ∧ s.acquiring = 0 ∧ s.entries = [] ∧
    s.cleaned = entries.flatMap effects

/-- The entries that the manager or, after the commit, the snapshot lists. -/
def listed (s : Manager) : List Owned :=
  match s.cleanup with
  | .done entries => entries
  | _ => s.entries

def ShutdownOk (s : Manager) : Shutdown → Prop
  | .waiting => s.closed = true
  | .signalled => s.shutdownDone = some 1
  | .cached err => s.shutdownDone = some 1 ∧ err = s.shutdownErr
  | .abandoned _ => True

structure Inv (s : Manager) : Prop where
  acquiring : s.calls.countP Acquire.reserves = s.acquiring
  active : s.active = s.acquiring + s.entries.length
  bound : s.active ≤ s.max.toNat
  closes : ∀ n, s.closes n =
    if n < s.acquisitionsDone ∨ n = s.acquisitionsDone ∧ s.acquiring = 0 then 1 else 0
  handles : ∀ handle, s.calls.countP (Acquire.holds handle) + s.rolledBack.count handle +
    s.appended.count handle = if handle < s.handles then 1 else 0
  started : s.shutdownStarted = s.closed
  appended : s.appended = (listed s).map Owned.handle
  cleanup : CleanupOk s s.cleanup
  shutdowns : ∀ call ∈ s.shutdowns, ShutdownOk s call

theorem increment_eq {n : Nat} (h : n + 1 < 2 ^ 32) : increment n = n + 1 := Nat.mod_eq_of_lt h

theorem subtract_eq {n m : Nat} (hm : m ≤ n) (hn : n < 2 ^ 32) : subtract n m = n - m := by
  unfold subtract
  omega

variable {s : Manager}

theorem Inv.cleanup_at (h : Inv s) {stage : Cleanup} (hc : s.cleanup = stage) : CleanupOk s stage := by
  rw [← hc]
  exact h.cleanup

/-- A reservation keeps the cleanup before its snapshot. -/
theorem Inv.reserving (h : Inv s) {call : Nat} {stage : Acquire} (hc : s.calls[call]? = some stage)
    (hr : stage.reserves = true) :
    0 < s.acquiring ∧ (s.cleanup = .idle ∨ s.cleanup = .launched ∨ ∃ n, s.cleanup = .waiting n) := by
  have hpos : 0 < s.acquiring := by
    rw [← h.acquiring]
    exact List.countP_pos_iff.mpr ⟨stage, List.mem_of_getElem? hc, hr⟩
  refine ⟨hpos, ?_⟩
  cases hcl : s.cleanup with
  | idle => exact .inl rfl
  | launched => exact .inr (.inl rfl)
  | waiting n => exact .inr (.inr ⟨n, rfl⟩)
  | ready =>
      have h0 := (h.cleanup_at hcl).2.2.2
      omega
  | working entries result pending stopped =>
      have h0 := (h.cleanup_at hcl).2.2.1
      omega
  | done entries =>
      have h0 := (h.cleanup_at hcl).2.2.1
      omega

theorem not_done (h : s.cleanup = .idle ∨ s.cleanup = .launched ∨ ∃ n, s.cleanup = .waiting n)
    (entries : List Owned) : s.cleanup ≠ .done entries := by
  intro he
  rcases h with h | h | ⟨n, h⟩ <;> rw [he] at h <;> cases h

theorem listed_of_not_done (h : ∀ entries, s.cleanup ≠ .done entries) : listed s = s.entries := by
  unfold listed
  split
  next entries he => exact absurd he (h entries)
  next => rfl

theorem Inv.setCall (h : Inv s) {call : Nat} {old new : Acquire} (hc : s.calls[call]? = some old)
    (hr : new.reserves = old.reserves) (hh : ∀ handle, new.holds handle = old.holds handle) :
    Inv (s.setCall call new) := by
  refine ⟨?_, h.active, h.bound, h.closes, ?_, h.started, h.appended, h.cleanup, h.shutdowns⟩
  · have hset := countP_set_add (p := Acquire.reserves) (b := new) hc
    rw [hr] at hset
    exact (Nat.add_right_cancel hset).trans h.acquiring
  · intro handle
    have hset := countP_set_add (p := Acquire.holds handle) (b := new) hc
    rw [hh handle] at hset
    have hold := h.handles handle
    rw [← Nat.add_right_cancel hset] at hold
    exact hold

theorem Inv.acquired (h : Inv s) (call : Nat) (err : Option Error) (renew : Bool) :
    Inv (s.acquired call err renew) := by
  unfold Manager.acquired
  split
  next hc =>
    cases err with
    | some err => exact h.setCall hc rfl (fun _ => rfl)
    | none =>
        have hstage (stage : Acquire) (hr : stage.reserves = true)
            (hh : ∀ handle, stage.holds handle = (s.handles == handle)) :
            Inv { s.setCall call stage with handles := s.handles + 1 } := by
          refine ⟨?_, h.active, h.bound, h.closes, ?_, h.started, h.appended, h.cleanup, h.shutdowns⟩
          · have hset := countP_set_add (p := Acquire.reserves) (b := stage) hc
            rw [hr] at hset
            exact (Nat.add_right_cancel hset).trans h.acquiring
          · intro handle
            have hset := countP_set_add (p := Acquire.holds handle) (b := stage) hc
            have hold := h.handles handle
            rw [hh handle] at hset
            simp only [Acquire.holds, Bool.false_eq_true, if_false, beq_iff_eq] at hset
            dsimp only [Manager.setCall]
            split at hset <;> split at hold <;> split <;> omega
        cases renew with
        | true => exact hstage (.obtained s.handles) rfl (fun _ => rfl)
        | false => exact hstage (.started ⟨s.handles, false⟩) rfl (fun _ => rfl)
  next => exact h

theorem Inv.startManaged (h : Inv s) (call : Nat) (err : Option Error) :
    Inv (s.startManaged call err) := by
  unfold Manager.startManaged
  split
  next hc => cases err <;> exact h.setCall hc rfl (fun _ => rfl)
  next => exact h

theorem Inv.rollback (h : Inv s) (call : Nat) (err : Option Error) : Inv (s.rollback call err) := by
  unfold Manager.rollback
  split
  next released startErr hc =>
    have hstage (failed : Error) : Inv
        { s.setCall call (.failing failed) with rolledBack := s.rolledBack ++ [released] } := by
      refine ⟨?_, h.active, h.bound, h.closes, ?_, h.started, h.appended, h.cleanup, h.shutdowns⟩
      · have hset := countP_set_add (p := Acquire.reserves) (b := .failing failed) hc
        exact (Nat.add_right_cancel hset).trans h.acquiring
      · intro handle
        have hset := countP_set_add (p := Acquire.holds handle) (b := .failing failed) hc
        simp only [Acquire.holds, Bool.false_eq_true, if_false, beq_iff_eq] at hset
        refine Eq.trans ?_ (h.handles handle)
        simp only [Manager.setCall, List.count_append, List.count_singleton, beq_iff_eq]
        omega
    exact hstage _
  next => exact h

theorem Inv.acquiring_le (h : Inv s) : s.acquiring ≤ s.active ∧ s.active < 2 ^ 32 := by
  have ha := h.active
  have hb := h.bound
  have hm := s.max.toNat_lt
  omega

/-- Giving back a reservation closes the channel exactly when it is the last. -/
theorem Inv.closes_finish (h : Inv s) (hpos : 0 < s.acquiring) (n : Nat) :
    (if s.acquiring - 1 = 0
      then Function.update s.closes s.acquisitionsDone (s.closes s.acquisitionsDone + 1)
      else s.closes) n =
      if n < s.acquisitionsDone ∨ n = s.acquisitionsDone ∧ s.acquiring - 1 = 0 then 1 else 0 := by
  have hcloses := h.closes
  by_cases hz : s.acquiring - 1 = 0
  · rw [if_pos hz]
    by_cases hn : n = s.acquisitionsDone
    · subst hn
      rw [Function.update_self, hcloses, if_neg (by omega), if_pos (by omega)]
    · rw [Function.update_of_ne hn, hcloses]
      exact if_congr (by omega) rfl rfl
  · rw [if_neg hz, hcloses]
    exact if_congr (by omega) rfl rfl

theorem cleanupOk_early {s' : Manager} (h : CleanupOk s s.cleanup)
    (he : s.cleanup = .idle ∨ s.cleanup = .launched ∨ ∃ n, s.cleanup = .waiting n)
    (hclosed : s'.closed = s.closed) (hdone : s'.shutdownDone = s.shutdownDone)
    (hcleaned : s'.cleaned = s.cleaned) (hchannel : s'.acquisitionsDone = s.acquisitionsDone) :
    CleanupOk s' s.cleanup := by
  rcases he with he | he | ⟨n, he⟩ <;> rw [he] at h ⊢ <;>
    simpa only [CleanupOk, hclosed, hdone, hcleaned, hchannel] using h

theorem finishAcquisitionLocked_eq (hpos : 0 < s.acquiring) (hlt : s.acquiring < 2 ^ 32) :
    s.finishAcquisitionLocked = { s with
      acquiring := s.acquiring - 1
      closes := if s.acquiring - 1 = 0
        then Function.update s.closes s.acquisitionsDone (s.closes s.acquisitionsDone + 1)
        else s.closes } := by
  unfold Manager.finishAcquisitionLocked
  rw [subtract_eq hpos hlt]

theorem Inv.giveBack (h : Inv s) {call : Nat} {err : Error} (hc : s.calls[call]? = some (.failing err)) :
    Inv { s with
      active := s.active - 1
      acquiring := s.acquiring - 1
      closes := if s.acquiring - 1 = 0
        then Function.update s.closes s.acquisitionsDone (s.closes s.acquisitionsDone + 1)
        else s.closes
      calls := s.calls.set call (.returned (.error err)) } := by
  obtain ⟨hpos, hearly⟩ := h.reserving hc rfl
  have hactive := h.active
  have hbound := h.bound
  refine ⟨?_, ?_, ?_, h.closes_finish hpos, ?_, h.started, h.appended,
    cleanupOk_early (s := s) h.cleanup hearly rfl rfl rfl rfl, h.shutdowns⟩
  · have hset := countP_set_add (p := Acquire.reserves) (b := .returned (.error err)) hc
    simp only [Acquire.reserves, Bool.false_eq_true, if_false, if_true] at hset
    have ha := h.acquiring
    dsimp only
    omega
  · dsimp only
    omega
  · dsimp only
    omega
  · intro handle
    have hset := countP_set_add (p := Acquire.holds handle) (b := .returned (.error err)) hc
    have hold := h.handles handle
    rw [← Nat.add_right_cancel hset] at hold
    exact hold

theorem Inv.releaseReservation (h : Inv s) (call : Nat) : Inv (s.releaseReservation call) := by
  unfold Manager.releaseReservation
  split
  next err hc =>
    obtain ⟨hpos, hearly⟩ := h.reserving hc rfl
    obtain ⟨hle, hlt⟩ := h.acquiring_le
    have hact : 1 ≤ s.active := Nat.le_trans hpos hle
    have hacq : s.acquiring < 2 ^ 32 := Nat.lt_of_le_of_lt hle hlt
    rw [subtract_eq hact hlt, finishAcquisitionLocked_eq]
    · exact h.giveBack hc
    · exact hpos
    · exact hacq
  next => exact h

theorem Inv.append (h : Inv s) {call : Nat} {owned : Owned} {new : Acquire}
    (hc : s.calls[call]? = some (.started owned)) (hr : new.reserves = false)
    (hh : ∀ handle, new.holds handle = false) :
    Inv { s with
      acquiring := s.acquiring - 1
      entries := s.entries ++ [owned]
      closes := if s.acquiring - 1 = 0
        then Function.update s.closes s.acquisitionsDone (s.closes s.acquisitionsDone + 1)
        else s.closes
      calls := s.calls.set call new
      appended := s.appended ++ [owned.handle] } := by
  obtain ⟨hpos, hearly⟩ := h.reserving hc rfl
  have hn := not_done hearly
  have hactive := h.active
  refine ⟨?_, ?_, h.bound, h.closes_finish hpos, ?_, h.started, ?_,
    cleanupOk_early (s := s) h.cleanup hearly rfl rfl rfl rfl, h.shutdowns⟩
  · have hset := countP_set_add (p := Acquire.reserves) (b := new) hc
    rw [hr] at hset
    simp only [Acquire.reserves, Bool.false_eq_true, if_false, if_true] at hset
    have ha := h.acquiring
    dsimp only
    omega
  · dsimp only
    rw [List.length_append, List.length_singleton]
    omega
  · intro handle
    have hset := countP_set_add (p := Acquire.holds handle) (b := new) hc
    rw [hh handle] at hset
    simp only [Acquire.holds, Bool.false_eq_true, if_false, beq_iff_eq] at hset
    refine Eq.trans ?_ (h.handles handle)
    simp only [List.count_append, List.count_singleton, beq_iff_eq]
    omega
  · have happ := h.appended
    rw [listed_of_not_done hn] at happ
    rw [listed_of_not_done]
    · dsimp only
      rw [happ, List.map_append, List.map_singleton]
    · exact hn

theorem Inv.commit (h : Inv s) (call : Nat) : Inv (s.commit call) := by
  unfold Manager.commit
  split
  next owned hc =>
    obtain ⟨hpos, hearly⟩ := h.reserving hc rfl
    obtain ⟨hle, hlt⟩ := h.acquiring_le
    have hacq : s.acquiring < 2 ^ 32 := Nat.lt_of_le_of_lt hle hlt
    rw [finishAcquisitionLocked_eq]
    · apply h.append hc
      · split <;> rfl
      · intro handle
        split <;> rfl
    · exact hpos
    · exact hacq
  next => exact h

theorem Inv.idle_of_open (h : Inv s) (ho : s.closed = false) : s.cleanup = .idle := by
  cases hc : s.cleanup with
  | idle => rfl
  | launched | waiting _ | ready | working _ _ _ _ | done _ =>
      exact absurd (ho.symm.trans (h.cleanup_at hc).1) (by decide)

theorem Inv.reject (h : Inv s) (err : Error) :
    Inv { s with calls := s.calls ++ [.returned (.error err)] } := by
  refine ⟨?_, h.active, h.bound, h.closes, ?_, h.started, h.appended, h.cleanup, h.shutdowns⟩
  · rw [List.countP_append]
    exact h.acquiring
  · intro handle
    rw [List.countP_append]
    exact h.handles handle

theorem Inv.reserve (h : Inv s) (ho : s.closed = false) (hlt : s.active < s.max.toNat) :
    Inv { s with
      active := s.active + 1
      acquisitionsDone := if s.acquiring = 0 then s.acquisitionsDone + 1 else s.acquisitionsDone
      acquiring := s.acquiring + 1
      calls := s.calls ++ [.acquiring] } := by
  have hidle := h.idle_of_open ho
  have hactive := h.active
  refine ⟨?_, ?_, hlt, ?_, ?_, h.started, h.appended, ?_, h.shutdowns⟩
  · rw [List.countP_append, h.acquiring]
    rfl
  · dsimp only
    omega
  · intro n
    dsimp only
    rw [h.closes]
    by_cases hz : s.acquiring = 0
    · rw [if_pos hz]
      exact if_congr (by omega) rfl rfl
    · rw [if_neg hz]
      exact if_congr (by omega) rfl rfl
  · intro handle
    rw [List.countP_append]
    exact h.handles handle
  · dsimp only
    rw [hidle]
    exact h.cleanup_at hidle

theorem Inv.acquire (h : Inv s) (ctx : Option Ctx) : Inv (s.acquire ctx) := by
  unfold Manager.acquire
  split
  next err _ => exact h.reject err
  next =>
    split
    next => exact h.reject _
    next ho =>
      split
      next => exact h.reject _
      next hlt =>
        have hopen : s.closed = false := Bool.eq_false_iff.mpr ho
        have hle := h.acquiring_le.1
        have hm := s.max.toNat_lt
        rw [increment_eq (by omega), increment_eq (by omega)]
        exact h.reserve hopen (Nat.lt_of_not_le hlt)

theorem Inv.signal (h : Inv s) (call : Nat) : Inv (s.signal call) := by
  unfold Manager.signal
  split
  next hc _ => exact h.setCall hc rfl (fun _ => rfl)
  next => exact h

theorem Inv.collect (h : Inv s) (call : Nat) : Inv (s.collect call) := by
  unfold Manager.collect
  split
  next hc => exact h.setCall hc rfl (fun _ => rfl)
  next => exact h

theorem Inv.abandon (h : Inv s) (call : Nat) (err : ContextErr) : Inv (s.abandon call err) := by
  unfold Manager.abandon
  split
  next hc => exact h.setCall hc rfl (fun _ => rfl)
  next => exact h

theorem Inv.setShutdowns (h : Inv s) {shutdowns : List Shutdown}
    (hs : ∀ call ∈ shutdowns, ShutdownOk s call) : Inv { s with shutdowns } := by
  refine ⟨h.acquiring, h.active, h.bound, h.closes, h.handles, h.started, h.appended, h.cleanup, ?_⟩
  intro call hm
  cases call <;> exact hs _ hm

theorem Inv.shutdown (h : Inv s) (nilContext : Bool) : Inv (s.shutdown nilContext) := by
  unfold Manager.shutdown
  split
  next => exact h.setShutdowns (forall_mem_append h.shutdowns trivial)
  next =>
    split
    next hs => exact h.setShutdowns (forall_mem_append h.shutdowns (h.started.symm.trans hs))
    next hs =>
      have hopen : s.closed = false := h.started.symm.trans (Bool.eq_false_iff.mpr hs)
      have hidle := h.idle_of_open hopen
      have hn : ∀ entries, s.cleanup ≠ .done entries := not_done (.inl hidle)
      have hk := h.cleanup_at hidle
      have happ := h.appended
      rw [listed_of_not_done hn] at happ
      refine ⟨h.acquiring, h.active, h.bound, h.closes, h.handles, rfl, happ,
        ⟨rfl, rfl, hk.2.2⟩, forall_mem_append ?_ rfl⟩
      intro call hm
      have hold := h.shutdowns call hm
      cases call with
      | waiting => rfl
      | abandoned _ => trivial
      | signalled => exact absurd (hk.2.1.symm.trans hold) (by decide)
      | cached _ => exact absurd (hk.2.1.symm.trans hold.1) (by decide)

theorem Inv.shutdownDone_le (h : Inv s) {n : Nat} (hd : s.shutdownDone = some (n + 1)) :
    s.shutdownDone = some 1 := by
  cases hc : s.cleanup with
  | idle | launched | waiting _ | ready | working _ _ _ _ =>
      cases (h.cleanup_at hc).2.1.symm.trans hd
  | done _ => exact (h.cleanup_at hc).2.1

theorem Inv.signalShutdown (h : Inv s) (call : Nat) : Inv (s.signalShutdown call) := by
  unfold Manager.signalShutdown
  split
  next hd => exact h.setShutdowns (forall_mem_set h.shutdowns (h.shutdownDone_le hd))
  next => exact h

theorem Inv.collectShutdown (h : Inv s) (call : Nat) : Inv (s.collectShutdown call) := by
  unfold Manager.collectShutdown
  split
  next hc =>
    have hd := h.shutdowns _ (List.mem_of_getElem? hc)
    exact h.setShutdowns (forall_mem_set h.shutdowns ⟨hd, rfl⟩)
  next => exact h

theorem Inv.abandonShutdown (h : Inv s) (call : Nat) (err : ContextErr) :
    Inv (s.abandonShutdown call err) := by
  unfold Manager.abandonShutdown
  split
  next => exact h.setShutdowns (forall_mem_set h.shutdowns trivial)
  next => exact h

theorem Inv.setCleanup (h : Inv s) {old cleanup : Cleanup} (hold : s.cleanup = old)
    (hn : ∀ entries, old ≠ .done entries) {cleaned : List Effect}
    (hc : ∀ entries, cleanup ≠ .done entries) (hok : CleanupOk { s with cleanup, cleaned } cleanup) :
    Inv { s with cleanup, cleaned } := by
  have happ := h.appended
  rw [listed_of_not_done (by rw [hold]; exact hn)] at happ
  refine ⟨h.acquiring, h.active, h.bound, h.closes, h.handles, h.started, ?_, hok, ?_⟩
  · rw [listed_of_not_done]
    · exact happ
    · exact hc
  · intro call hm
    have hold := h.shutdowns call hm
    cases call <;> exact hold

theorem Inv.launch (h : Inv s) : Inv s.launch := by
  unfold Manager.launch
  split
  next hc =>
    have hk := h.cleanup_at hc
    exact h.setCleanup hc nofun nofun ⟨hk.1, hk.2.1, hk.2.2, rfl⟩
  next => exact h

theorem Inv.observe (h : Inv s) : Inv s.observe := by
  unfold Manager.observe
  split
  next channel hc =>
    split
    next => exact h
    next hclosed =>
      obtain ⟨hcl, hd, hcleaned, rfl⟩ := h.cleanup_at hc
      -- No acquisition starts after Shutdown, so the captured channel is the last one.
      have hz : s.acquiring = 0 := by
        rw [h.closes] at hclosed
        by_contra hne
        exact hclosed (if_neg (by omega))
      exact h.setCleanup hc nofun nofun ⟨hcl, hd, hcleaned, hz⟩
  next => exact h

theorem Inv.snapshot (h : Inv s) : Inv s.snapshot := by
  unfold Manager.snapshot
  split
  next hc =>
    obtain ⟨hcl, hd, hcleaned, hz⟩ := h.cleanup_at hc
    exact h.setCleanup hc nofun nofun ⟨hcl, hd, hz, rfl, [], rfl, .inl ⟨rfl, hcleaned⟩⟩
  next => exact h

theorem Progress.stop {entries pending : List Owned} {entry : Owned} {cleaned : List Effect}
    (h : Progress entries (entry :: pending) false cleaned) (hm : entry.managed = true) :
    Progress entries (entry :: pending) true (cleaned ++ [.stop entry.handle]) := by
  obtain ⟨finished, he, ⟨_, rfl⟩ | ⟨ht, _⟩⟩ := h
  · exact ⟨finished, he, .inr ⟨rfl, entry, pending, rfl, hm, rfl⟩⟩
  · cases ht

theorem Progress.release {entries pending : List Owned} {entry : Owned} {stopped : Bool}
    {cleaned : List Effect} (h : Progress entries (entry :: pending) stopped cleaned)
    (hm : (entry.managed && !stopped) = false) :
    Progress entries pending false (cleaned ++ [.release entry.handle]) := by
  obtain ⟨finished, rfl, hcase⟩ := h
  refine ⟨finished ++ [entry], (List.append_cons ..), .inl ⟨rfl, ?_⟩⟩
  rw [List.flatMap_append, List.flatMap_singleton]
  rcases hcase with ⟨rfl, rfl⟩ | ⟨rfl, _, _, he, hmanaged, rfl⟩
  · have hm' : entry.managed = false := by simpa using hm
    simp [effects, hm']
  · obtain ⟨rfl, rfl⟩ := List.cons.inj he
    simp [effects, hmanaged]

theorem Progress.finished {entries : List Owned} {stopped : Bool} {cleaned : List Effect}
    (h : Progress entries [] stopped cleaned) : cleaned = entries.flatMap effects := by
  obtain ⟨finished, he, ⟨_, hc⟩ | ⟨_, _, _, hp, _⟩⟩ := h
  · rw [hc, he, List.append_nil]
  · cases hp

theorem Inv.stop (h : Inv s) (err : Option Error) : Inv (s.stop err) := by
  unfold Manager.stop
  split
  next entries result entry pending hc =>
    split
    next hm =>
      obtain ⟨hcl, hd, hz, he, hp⟩ := h.cleanup_at hc
      exact h.setCleanup hc nofun nofun ⟨hcl, hd, hz, he, hp.stop hm⟩
    next => exact h
  next => exact h

theorem Inv.release (h : Inv s) (err : Option Error) : Inv (s.release err) := by
  unfold Manager.release
  split
  next entries result entry pending stopped hc =>
    split
    next => exact h
    next hm =>
      obtain ⟨hcl, hd, hz, he, hp⟩ := h.cleanup_at hc
      exact h.setCleanup hc nofun nofun ⟨hcl, hd, hz, he, hp.release (Bool.eq_false_iff.mpr hm)⟩
  next => exact h

theorem Inv.finish (h : Inv s) : Inv s.finish := by
  unfold Manager.finish
  split
  next entries result stopped hc =>
    obtain ⟨hcl, hd, hz, rfl, hp⟩ := h.cleanup_at hc
    have hactive := h.active
    have hsub : subtract s.active s.entries.length = 0 := by
      rw [subtract_eq (by omega) h.acquiring_le.2]
      omega
    have happ := h.appended
    rw [listed_of_not_done (by rw [hc]; nofun)] at happ
    rw [hsub, hd]
    refine ⟨h.acquiring, ?_, Nat.zero_le _, h.closes, h.handles, h.started, happ,
      ⟨hcl, rfl, hz, rfl, hp.finished⟩, ?_⟩
    · dsimp only
      rw [hz]
      rfl
    · intro call hm
      have hold := h.shutdowns call hm
      cases call with
      | waiting => exact hold
      | abandoned _ => trivial
      | signalled => exact absurd (hd.symm.trans hold) (by decide)
      | cached _ => exact absurd (hd.symm.trans hold.1) (by decide)
  next => exact h

theorem Inv.step (h : Inv s) (event : Event) : Inv (s.step event) := by
  cases event with
  | acquire ctx => exact h.acquire ctx
  | acquired call err renew => exact h.acquired call err renew
  | startManaged call err => exact h.startManaged call err
  | rollback call err => exact h.rollback call err
  | releaseReservation call => exact h.releaseReservation call
  | commit call => exact h.commit call
  | signal call => exact h.signal call
  | collect call => exact h.collect call
  | abandon call err => exact h.abandon call err
  | shutdown nilContext => exact h.shutdown nilContext
  | signalShutdown call => exact h.signalShutdown call
  | collectShutdown call => exact h.collectShutdown call
  | abandonShutdown call err => exact h.abandonShutdown call err
  | launch => exact h.launch
  | observe => exact h.observe
  | snapshot => exact h.snapshot
  | stop err => exact h.stop err
  | release err => exact h.release err
  | finish => exact h.finish

theorem inv_new {max : UInt32} {initial : Manager} (hnew : new max = .ok initial) : Inv initial := by
  unfold new at hnew
  split at hnew
  next => cases hnew
  next =>
    cases hnew
    refine ⟨rfl, rfl, Nat.zero_le _, ?_, ?_, rfl, rfl, ⟨rfl, rfl, rfl⟩, nofun⟩
    · intro n
      simp
    · intro handle
      exact (if_neg (Nat.not_lt_zero handle)).symm

/-- Shutdown has begun and the call has not returned a handle. -/
def Barred (call : Nat) (closed : Bool) (calls : List Acquire) : Prop :=
  closed = true ∧ ∀ handle, calls[call]? ≠ some (.returned (.ok handle))

theorem Barred.set {call : Nat} {closed : Bool} {calls : List Acquire} (h : Barred call closed calls)
    {other : Nat} {stage : Acquire} (hs : ∀ handle, stage ≠ .returned (.ok handle)) :
    Barred call closed (calls.set other stage) := by
  refine ⟨h.1, ?_⟩
  intro handle hcall
  rcases getElem?_set_cases hcall with ⟨_, he⟩ | ⟨_, hold⟩
  · exact hs handle he.symm
  · exact h.2 handle hold

theorem Barred.append {call : Nat} {closed : Bool} {calls : List Acquire}
    (h : Barred call closed calls) (err : Error) :
    Barred call closed (calls ++ [.returned (.error err)]) := by
  refine ⟨h.1, ?_⟩
  intro handle hcall
  rcases getElem?_concat hcall with hold | ⟨_, he⟩
  · exact h.2 handle hold
  · cases he

theorem setCall_closed (call : Nat) (stage : Acquire) : (s.setCall call stage).closed = s.closed := rfl

theorem setCall_calls (call : Nat) (stage : Acquire) :
    (s.setCall call stage).calls = s.calls.set call stage := rfl

theorem finishAcquisitionLocked_closed : s.finishAcquisitionLocked.closed = s.closed := by
  unfold Manager.finishAcquisitionLocked
  rfl

theorem finishAcquisitionLocked_calls : s.finishAcquisitionLocked.calls = s.calls := by
  unfold Manager.finishAcquisitionLocked
  rfl

theorem Barred.releaseReservation {call : Nat} (h : Barred call s.closed s.calls) (other : Nat) :
    Barred call (s.releaseReservation other).closed (s.releaseReservation other).calls := by
  unfold Manager.releaseReservation
  split
  next =>
    rw [setCall_closed, setCall_calls, finishAcquisitionLocked_closed, finishAcquisitionLocked_calls]
    exact h.set nofun
  next => exact h

/-- In the final locked section a closed manager keeps the handle. -/
theorem Barred.commit {call : Nat} (h : Barred call s.closed s.calls) (other : Nat) :
    Barred call (s.commit other).closed (s.commit other).calls := by
  unfold Manager.commit
  split
  next =>
    rw [setCall_closed, setCall_calls, finishAcquisitionLocked_closed, finishAcquisitionLocked_calls,
      if_pos h.1]
    exact h.set nofun
  next => exact h

theorem Barred.step {call : Nat} (h : Barred call s.closed s.calls) (event : Event) :
    Barred call (s.step event).closed (s.step event).calls := by
  cases event with
  | acquire ctx =>
      simp only [Manager.step, Manager.acquire]
      split
      next => exact h.append _
      next => rw [if_pos h.1]; exact h.append _
  | acquired other err renew =>
      simp only [Manager.step, Manager.acquired]
      split
      next =>
        cases err with
        | some err => exact h.set nofun
        | none => cases renew <;> exact h.set nofun
      next => exact h
  | startManaged other err =>
      simp only [Manager.step, Manager.startManaged]
      split
      next => cases err <;> exact h.set nofun
      next => exact h
  | releaseReservation other => exact h.releaseReservation other
  | commit other => exact h.commit other
  | rollback other err | signal other | collect other | abandon other err =>
      simp only [Manager.step, Manager.rollback, Manager.signal, Manager.collect, Manager.abandon]
      split
      next => exact h.set nofun
      next => exact h
  | shutdown nilContext =>
      simp only [Manager.step, Manager.shutdown]
      split
      next => exact h
      next => split <;> exact ⟨by first | exact h.1 | rfl, h.2⟩
  | signalShutdown other | collectShutdown other | abandonShutdown other err | launch | snapshot
  | finish =>
      simp only [Manager.step, Manager.signalShutdown, Manager.collectShutdown,
        Manager.abandonShutdown, Manager.launch, Manager.snapshot, Manager.finish]
      split <;> exact h
  | observe | stop err | release err =>
      simp only [Manager.step, Manager.observe, Manager.stop, Manager.release]
      split
      next => split <;> exact h
      next => exact h

/-- The accounting of one state. The holders of a handle are the calls between
client.Acquire and the end of the rollback or of the final locked section. -/
structure Accounted (s : Manager) : Prop where
  balance : s.active = s.acquiring + s.entries.length ∧ s.active ≤ s.max.toNat
  channel : s.closes s.acquisitionsDone = (if s.acquiring = 0 then 1 else 0) ∧ ∀ n, s.closes n ≤ 1
  reserved : ∀ stage ∈ s.calls, stage.reserves = true → 0 < s.acquiring ∧ 0 < s.active
  disposed : ∀ handle < s.handles, s.calls.countP (Acquire.holds handle) + s.rolledBack.count handle +
    s.appended.count handle = 1
  barred : s.shutdownStarted = true → ∀ call : Nat,
    (∀ handle, s.calls[call]? ≠ some (.returned (.ok handle))) → ∀ (later : List Event) (handle : Nat),
    (later.foldl Manager.step s).calls[call]? ≠ some (.returned (.ok handle))
  working : ∀ entries result pending stopped, s.cleanup = .working entries result pending stopped →
    entries.length = s.active ∧ entries.map Owned.handle = s.appended ∧
    (entries.map Owned.handle).Nodup ∧ s.cleaned <+: entries.flatMap effects
  committed : ∀ entries, s.cleanup = .done entries →
    entries.map Owned.handle = s.appended ∧ (entries.map Owned.handle).Nodup ∧
    s.cleaned = entries.flatMap effects
  ended : ∀ n, s.shutdownDone = some (n + 1) →
    n = 0 ∧ s.active = 0 ∧ s.acquiring = 0 ∧ ∃ entries, s.cleanup = .done entries
  cached : ∀ err, .cached err ∈ s.shutdowns → s.shutdownDone = some 1 ∧ err = s.shutdownErr

theorem Inv.appended_nodup (h : Inv s) : s.appended.Nodup := by
  rw [List.nodup_iff_count_le_one]
  intro handle
  have hh := h.handles handle
  split at hh <;> omega

theorem Progress.isPrefix {entries pending : List Owned} {stopped : Bool} {cleaned : List Effect}
    (h : Progress entries pending stopped cleaned) : cleaned <+: entries.flatMap effects := by
  obtain ⟨finished, rfl, ⟨_, rfl⟩ | ⟨_, entry, rest, rfl, hm, rfl⟩⟩ := h
  · rw [List.flatMap_append]
    exact List.prefix_append _ _
  · refine ⟨.release entry.handle :: rest.flatMap effects, ?_⟩
    simp [effects, hm]

theorem Inv.accounted (h : Inv s) : Accounted s where
  balance := ⟨h.active, h.bound⟩
  channel := by
    constructor
    · rw [h.closes]
      exact if_congr (by omega) rfl rfl
    · intro n
      rw [h.closes]
      split <;> omega
  reserved := by
    intro stage hm hr
    obtain ⟨call, hc⟩ := List.mem_iff_getElem?.mp hm
    have hpos := (h.reserving hc hr).1
    exact ⟨hpos, Nat.lt_of_lt_of_le hpos h.acquiring_le.1⟩
  disposed := fun handle hlt => (h.handles handle).trans (if_pos hlt)
  barred := by
    intro hs call hc later
    have hb : Barred call s.closed s.calls := ⟨h.started.symm.trans hs, hc⟩
    exact (invariant_rule (P := fun s : Manager => Barred call s.closed s.calls) hb
      (fun _ event hb => hb.step event) later).2
  working := by
    intro entries result pending stopped hc
    have happ := h.appended
    rw [listed_of_not_done (by rw [hc]; nofun)] at happ
    obtain ⟨_, _, hz, rfl, hp⟩ := h.cleanup_at hc
    have ha := h.active
    exact ⟨by omega, happ.symm, happ ▸ h.appended_nodup, hp.isPrefix⟩
  committed := by
    intro entries hc
    have happ := h.appended
    simp only [listed, hc] at happ
    exact ⟨happ.symm, happ ▸ h.appended_nodup, (h.cleanup_at hc).2.2.2.2⟩
  ended := by
    intro n hd
    have hone := Option.some.inj (hd.symm.trans (h.shutdownDone_le hd))
    have ha := h.active
    cases hc : s.cleanup with
    | idle | launched | waiting _ | ready | working _ _ _ _ =>
        cases (h.cleanup_at hc).2.1.symm.trans hd
    | done entries =>
        obtain ⟨_, _, hz, he, _⟩ := h.cleanup_at hc
        rw [hz, he] at ha
        exact ⟨by omega, ha, hz, entries, rfl⟩
  cached := fun err hm => h.shutdowns (.cached err) hm

/-- Every interleaving of the calls and the cleanup keeps the accounts. -/
theorem manager_accounting {max : UInt32} {initial : Manager} (hnew : new max = .ok initial)
    (events : List Event) : Accounted (events.foldl Manager.step initial) :=
  (invariant_rule (inv_new hnew) (fun _ event h => h.step event) events).accounted

/-- Two acquisitions race with Shutdown; the cleanup takes both over. -/
theorem manager_accounting_race : ∃ initial, new 2 = .ok initial ∧
    let s := [.acquire (some none), .acquire (some none), .acquired 0 none true, .shutdown false, .launch,
      .startManaged 0 none, .acquired 1 none false, .commit 0, .abandon 0 .canceled, .commit 1, .observe,
      .snapshot, .stop none, .release none, .release none, .finish, .signalShutdown 0,
      .collectShutdown 0].foldl Manager.step initial
    Accounted s ∧ s.cleaned = [.stop 0, .release 0, .release 1] ∧ s.shutdowns = [.cached none] ∧
      s.active = 0 :=
  ⟨_, rfl, manager_accounting (show new 2 = .ok _ from rfl) _, rfl, rfl, rfl⟩

end GoLease.Service
