import GoLease.Orchestration.Invariant

namespace GoLease.Orchestration

open Lifecycle Capacity Traces Pool

/-- The errors of the components of a run: a loss brings ErrLost and its cause. -/
inductive Failed (s : Run) : Error → Prop
  | acquire {err : Error} (h : s.results.acquire = some (.error err)) : Failed s err
  | start {err : Error} (h : s.results.start = some (some err)) : Failed s err
  | callback {err : Error} (h : s.results.callback = some (some err)) : Failed s err
  | release {err : Error} (h : s.results.release = some (some err)) : Failed s err
  | lost {loss : Loss} (h : s.delivered = some loss) : Failed s (.sentinel .errLost)
  | cause {loss : Loss} (h : s.delivered = some loss) : Failed s loss.err

/-- What holds in every state of a run. -/
structure Safe (s : Run) : Prop where
  callbacks : s.callbacks = [] ∨ ∃ record, s.results.acquire = some (.ok record) ∧
    (0 < s.policy.renewEvery → s.results.start = some none) ∧ s.callbacks = [record.token]
  releases : s.releases ≤ 1
  releases_last : s.releases = 1 →
    (s.results.callback ≠ none ∨ ∃ err, s.results.start = some (some err)) ∧
      ∀ g, s.managed = some g → g.tail = .ended
  cancels : ∀ w, s.watcher = some w → w.isFinished = true → s.delivered ≠ none → s.cancelled = true

/-- What holds when Run has returned this error. -/
structure Outcome (s : Run) (err : Option Error) : Prop where
  called : ∀ record, s.results.acquire = some (.ok record) →
    (0 < s.policy.renewEvery → s.results.start = some none) → s.callbacks = [record.token]
  released : ∀ record, s.results.acquire = some (.ok record) → s.releases = 1
  unreleased : ∀ err, s.results.acquire = some (.error err) → s.releases = 0
  exited : ∀ g, s.managed = some g → g.tail = .ended ∧ g.returns = 1
  nil_iff : err = none ↔ (∃ record, s.results.acquire = some (.ok record)) ∧
    (0 < s.policy.renewEvery → s.results.start = some none) ∧ s.results.callback = some none ∧
    s.results.release = some none ∧ s.delivered = none
  found : ∀ failure, Failed s failure → ∃ e, err = some e ∧ e.finds failure = true

section Facts

variable {s : Run} {record : Record} {site : Site}

theorem Held.releases_eq (h : Held s record site) :
    s.releases = site.machine.calls.countP isRelease := by
  unfold Run.releases
  rw [h.site_eq]
  rfl

theorem Held.delivered_unwatched (h : Held s record site) (hw : s.watcher = none) : s.delivered = none := by
  have hr := h.watched
  rw [hw] at hr
  unfold Run.delivered
  rw [h.site_eq]
  dsimp only
  rw [show site.machine.renewers = [] from hr]
  rfl

theorem Held.delivered_watched (h : Held s record site) {r : Renewer} {g : Managed}
    (hr : site.machine.renewers = [r]) (hg : site.managed = [g]) :
    s.delivered = if g.sends = 0 then none else Renewal.delivered r := by
  unfold Run.delivered
  rw [h.site_eq]
  dsimp only
  rw [hr, hg]
  rfl

/-- What the watcher has sent is the loss that the renewal goroutine has sent. -/
theorem Held.losses_eq (h : Held s record site) {w : Watcher} {loss : Option Error}
    (hw : s.watcher = some w) (hl : w.losses = some loss) :
    loss = s.delivered.map (fun loss => .joined (.sentinel .errLost) loss.err) := by
  obtain ⟨r, g, hr, hg, hwatches⟩ := h.watches hw
  rw [h.delivered_watched hr hg]
  have hreports {err : Error} (hreports : Reports r g err) :
      some err = (if g.sends = 0 then none else Renewal.delivered r).map
        (fun loss => .joined (.sentinel .errLost) loss.err) := by
    obtain ⟨hsends, loss, hloss, rfl⟩ := hreports
    rw [if_neg (by omega), hloss]
    rfl
  cases w with
  | watching | received => cases hl
  | reported err =>
      cases hl
      exact hreports hwatches
  | canceled err =>
      cases hl
      exact hreports hwatches.1
  | finished err =>
      cases hl
      cases loss with
      | none =>
          rw [if_pos hwatches.1]
          rfl
      | some err => exact hreports hwatches.1

theorem Settled.exited {before : Option Error} (hs : Settled s record site before)
    (h : Held s record site) {g : Managed} (hg : s.managed = some g) : g.tail = .ended ∧ g.returns = 1 := by
  have hunwatched (hw : s.watcher = none) : g.tail = .ended ∧ g.returns = 1 := by
    have hr := h.watched
    rw [hw] at hr
    have hlength := h.ok.length
    rw [show site.machine.renewers = [] from hr] at hlength
    rw [Run.managed, h.site_eq] at hg
    have hmanaged : site.managed[0]? = some g := hg
    rw [List.length_eq_zero_iff.mp hlength] at hmanaged
    cases hmanaged
  cases hs with
  | refused _ hwatcher => exact hunwatched hwatcher
  | unwatched _ hwatcher => exact hunwatched hwatcher
  | joined _ hwatcher _ hended =>
      obtain ⟨b, hb, ht⟩ := hended
      rw [h.managed_eq hb] at hg
      cases hg
      obtain ⟨r, _, hr, _⟩ := h.watches hwatcher
      have hmanaged := h.ok.managed 0 r g (by rw [hr]; rfl) (by rw [hb]; rfl)
      rw [ManagedOk, ht] at hmanaged
      obtain ⟨_, _, _, hreturns, _⟩ := hmanaged
      exact ⟨ht, hreturns⟩

theorem Started.result (hs : Started s) : 0 < s.policy.renewEvery → s.results.start = some none := by
  intro henabled
  rw [Started, if_neg (Int64.not_le.mpr henabled)] at hs
  exact hs.2

theorem Started.no_error (hs : Started s) {err : Error} : s.results.start ≠ some (some err) := by
  unfold Started at hs
  split at hs
  next =>
    rw [hs.2]
    exact nofun
  next =>
    rw [hs.2]
    exact nofun

theorem Settled.called {before : Option Error} (hs : Settled s record site before)
    (hstart : 0 < s.policy.renewEvery → s.results.start = some none) : s.callbacks = [record.token] := by
  cases hs with
  | refused henabled _ _ hrefused =>
      rw [hstart (Int64.not_le.mp henabled)] at hrefused
      cases hrefused
  | unwatched hcalled => exact hcalled.2.1
  | joined hcalled => exact hcalled.2.1

theorem Settled.nil_iff {before : Option Error} (hs : Settled s record site before)
    (h : Held s record site) : before = none ↔
      (0 < s.policy.renewEvery → s.results.start = some none) ∧ s.results.callback = some none ∧
        s.delivered = none := by
  cases hs with
  | refused henabled _ _ hrefused =>
      refine ⟨nofun, ?_⟩
      rintro ⟨hstart, _⟩
      rw [hstart (Int64.not_le.mp henabled)] at hrefused
      cases hrefused
  | unwatched hcalled hwatcher =>
      rw [hcalled.2.2, h.delivered_unwatched hwatcher]
      constructor
      · rintro rfl
        exact ⟨hcalled.1.result, rfl, rfl⟩
      · rintro ⟨_, hnil, _⟩
        exact Option.some.inj hnil
  | joined hcalled hwatcher hlosses =>
      rw [errorsJoin_eq_none, hcalled.2.2, h.losses_eq hwatcher hlosses, Option.map_eq_none_iff]
      constructor
      · rintro ⟨rfl, hloss⟩
        exact ⟨hcalled.1.result, rfl, hloss⟩
      · rintro ⟨_, hnil, hloss⟩
        exact ⟨Option.some.inj hnil, hloss⟩

/-- The failures that come before the release. -/
theorem Settled.found {before : Option Error} (hs : Settled s record site before)
    (h : Held s record site) {failure : Error} (hf : Failed s failure)
    (hrelease : s.results.release ≠ some (some failure)) :
    ∃ e, before = some e ∧ e.finds failure = true := by
  have hacquire : s.results.acquire ≠ some (.error failure) := by
    rw [h.acquire]
    exact nofun
  cases hs with
  | @refused err henabled hwatcher hcallbacks hrefused hcallback =>
      cases hf with
      | acquire hf => exact absurd hf hacquire
      | release hf => exact absurd hf hrelease
      | start hf =>
          rw [hrefused] at hf
          cases hf
          exact ⟨_, rfl, finds_self _⟩
      | callback hf =>
          rw [hcallback] at hf
          cases hf
      | lost hf | cause hf =>
          rw [h.delivered_unwatched hwatcher] at hf
          cases hf
  | unwatched hcalled hwatcher =>
      cases hf with
      | acquire hf => exact absurd hf hacquire
      | release hf => exact absurd hf hrelease
      | start hf => exact absurd hf hcalled.1.no_error
      | callback hf =>
          rw [hcalled.2.2] at hf
          cases hf
          exact ⟨_, rfl, finds_self _⟩
      | lost hf | cause hf =>
          rw [h.delivered_unwatched hwatcher] at hf
          cases hf
  | @joined err loss w hcalled hwatcher hlosses =>
      have hloss := h.losses_eq hwatcher hlosses
      cases hf with
      | acquire hf => exact absurd hf hacquire
      | release hf => exact absurd hf hrelease
      | start hf => exact absurd hf hcalled.1.no_error
      | callback hf =>
          rw [hcalled.2.2] at hf
          cases hf
          exact errorsJoin_finds (.inl ⟨_, rfl, finds_self _⟩)
      | lost hf | cause hf =>
          rw [hf] at hloss
          exact errorsJoin_finds (.inr ⟨_, hloss, finds_joined (by simp)⟩)

theorem PhaseOk.callbacks (hp : PhaseOk s record site) : s.callbacks = [] ∨
    (0 < s.policy.renewEvery → s.results.start = some none) ∧ s.callbacks = [record.token] := by
  have hsettled {before : Option Error} (hs : Settled s record site before) : s.callbacks = [] ∨
      (0 < s.policy.renewEvery → s.results.start = some none) ∧ s.callbacks = [record.token] := by
    cases hs with
    | refused _ _ hcallbacks => exact .inl hcallbacks
    | unwatched hcalled => exact .inr ⟨hcalled.1.result, hcalled.2.1⟩
    | joined hcalled => exact .inr ⟨hcalled.1.result, hcalled.2.1⟩
  unfold PhaseOk at hp
  cases hphase : s.phase with
  | acquiring =>
      rw [hphase] at hp
      exact hp.elim
  | acquired | ready =>
      rw [hphase] at hp
      exact .inl hp.1
  | starting =>
      rw [hphase] at hp
      exact .inl hp.2.1
  | calling =>
      rw [hphase] at hp
      exact .inr ⟨hp.2.1.result, hp.1⟩
  | stopping | draining =>
      rw [hphase] at hp
      exact .inr ⟨hp.1.1.result, hp.1.2.1⟩
  | releasing | awaiting =>
      rw [hphase] at hp
      exact hsettled hp.1
  | returned =>
      rw [hphase] at hp
      obtain ⟨_, _, hs, _⟩ := hp
      exact hsettled hs

theorem PhaseOk.releases (hp : PhaseOk s record site) : site.machine.calls.countP isRelease = 0 ∨
    site.machine.calls.countP isRelease = 1 ∧ ∃ before, Settled s record site before := by
  unfold PhaseOk at hp
  cases hphase : s.phase with
  | acquiring =>
      rw [hphase] at hp
      exact hp.elim
  | acquired =>
      rw [hphase] at hp
      exact .inl hp.2.2.2.2
  | ready | calling | stopping =>
      rw [hphase] at hp
      exact .inl hp.2.2
  | starting | draining =>
      rw [hphase] at hp
      exact .inl hp.2.2.2
  | releasing =>
      rw [hphase] at hp
      exact .inl hp.2
  | awaiting =>
      rw [hphase] at hp
      exact .inr ⟨hp.2.1, _, hp.1⟩
  | returned =>
      rw [hphase] at hp
      obtain ⟨_, _, hs, hreleases, _⟩ := hp
      exact .inr ⟨hreleases, _, hs⟩

theorem Settled.decided {before : Option Error} (hs : Settled s record site before) :
    s.results.callback ≠ none ∨ ∃ err, s.results.start = some (some err) := by
  cases hs with
  | refused _ _ _ hstart => exact .inr ⟨_, hstart⟩
  | unwatched hcalled | joined hcalled =>
      left
      rw [hcalled.2.2]
      exact nofun

theorem Held.cancels (h : Held s record site) {w : Watcher} (hw : s.watcher = some w)
    (hfinished : w.isFinished = true) (hloss : s.delivered ≠ none) : s.cancelled = true := by
  obtain ⟨r, g, hr, hg, hwatches⟩ := h.watches hw
  cases w with
  | watching | received | reported | canceled => cases hfinished
  | finished err =>
      cases err with
      | some err => exact hwatches.2
      | none =>
          rw [h.delivered_watched hr hg, if_pos hwatches.1] at hloss
          exact absurd rfl hloss

theorem Inv.safe (h : Inv s) : Safe s := by
  cases h with
  | acquiring _ hsite hwatcher hcallbacks | failed _ hsite hwatcher hcallbacks =>
      have hreleases : s.releases = 0 := by
        rw [Run.releases, hsite]
      refine ⟨.inl hcallbacks, by omega, by omega, ?_⟩
      intro w hw
      rw [hwatcher] at hw
      cases hw
  | @held record site hheld hphase =>
      refine ⟨?_, ?_, ?_, fun w => hheld.cancels⟩
      · rcases hphase.callbacks with hnone | ⟨hstart, hcalled⟩
        · exact .inl hnone
        · exact .inr ⟨record, hheld.acquire, hstart, hcalled⟩
      · rw [hheld.releases_eq]
        rcases hphase.releases with hzero | ⟨hone, _⟩ <;> omega
      · rw [hheld.releases_eq]
        intro hone
        rcases hphase.releases with hzero | ⟨_, before, hsettled⟩
        · omega
        · exact ⟨hsettled.decided, fun g hg => (hsettled.exited hheld hg).1⟩

theorem outcome_failed {err : Error} (hsite : s.site = none)
    (hresults : s.results = { acquire := some (.error err) }) : Outcome s (some err) := by
  have hdelivered : s.delivered = none := by
    rw [Run.delivered, hsite]
  have hacquire (record : Record) : s.results.acquire ≠ some (.ok record) := by
    simp [hresults]
  refine ⟨?_, ?_, ?_, ?_, ?_, ?_⟩
  · intro record hr
    exact absurd hr (hacquire record)
  · intro record hr
    exact absurd hr (hacquire record)
  · intro _ _
    rw [Run.releases, hsite]
  · intro g hg
    rw [Run.managed, hsite] at hg
    cases hg
  · refine ⟨by simp, ?_⟩
    rintro ⟨⟨record, hr⟩, _⟩
    exact absurd hr (hacquire record)
  · intro failure hf
    cases hf with
    | acquire hf =>
        rw [hresults] at hf
        cases hf
        exact ⟨_, rfl, finds_self _⟩
    | start hf | callback hf | release hf =>
        rw [hresults] at hf
        cases hf
    | lost hf | cause hf =>
        rw [hdelivered] at hf
        cases hf

theorem Inv.outcome {err : Option Error} (h : Inv s) (hreturned : s.phase = .returned err) :
    Outcome s err := by
  cases h with
  | acquiring hphase =>
      rw [hphase] at hreturned
      cases hreturned
  | failed hphase hsite _ _ hresults =>
      rw [hphase] at hreturned
      cases hreturned
      exact outcome_failed hsite hresults
  | @held record site hheld hphase =>
      rw [PhaseOk, hreturned] at hphase
      obtain ⟨before, result, hsettled, hone, hrelease, rfl⟩ := hphase
      refine ⟨?_, ?_, ?_, fun g => hsettled.exited hheld, ?_, ?_⟩
      · intro record' hr hstart
        rw [hheld.acquire] at hr
        cases hr
        exact hsettled.called hstart
      · intro _ _
        rw [hheld.releases_eq]
        exact hone
      · intro e he
        rw [hheld.acquire] at he
        cases he
      · rw [errorsJoin_eq_none, hsettled.nil_iff hheld, hrelease]
        constructor
        · rintro ⟨⟨hstart, hcallback, hloss⟩, rfl⟩
          exact ⟨⟨record, hheld.acquire⟩, hstart, hcallback, rfl, hloss⟩
        · rintro ⟨_, hstart, hcallback, hnil, hloss⟩
          exact ⟨⟨hstart, hcallback, hloss⟩, Option.some.inj hnil⟩
      · intro failure hf
        apply errorsJoin_finds
        by_cases hfailed : s.results.release = some (some failure)
        · rw [hrelease] at hfailed
          exact .inr ⟨failure, Option.some.inj hfailed, finds_self _⟩
        · exact .inl (hsettled.found hheld hf hfailed)

end Facts

end GoLease.Orchestration
