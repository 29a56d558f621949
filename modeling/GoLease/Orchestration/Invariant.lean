import GoLease.Orchestration.Renewal

namespace GoLease.Orchestration

open Lifecycle Renewal Capacity Coverage Pool

/-- The error is the one that the watcher makes of the loss that was sent. -/
def Reports (r : Renewer) (g : Managed) (err : Error) : Prop :=
  g.sends = 1 ∧ ∃ loss, delivered r = some loss ∧ err = .joined (.sentinel .errLost) loss.err

/-- Where the watcher stands against what the renewal goroutine has sent. -/
def Watches (cancelled : Bool) (r : Renewer) (g : Managed) : Watcher → Prop
  | .watching => (g.buffer = none → g.sends = 0) ∧
      ∀ loss, g.buffer = some loss → g.sends = 1 ∧ delivered r = some loss
  | .received loss => g.sends = 1 ∧ delivered r = some loss
  | .reported err => Reports r g err
  | .canceled err | .finished (some err) => Reports r g err ∧ cancelled = true
  | .finished none => g.sends = 0 ∧ g.lossCloses ≠ 0

theorem Reports.evolves {r r' : Renewer} {g g' : Managed} {err : Error} (h : Reports r g err)
    (he : Evolves r g r' g') : Reports r' g' err := by
  obtain ⟨hsends, loss, hloss, herr⟩ := h
  refine ⟨?_, loss, he.loss loss hloss, herr⟩
  rcases he.channel with ⟨_, hs⟩ | ⟨rfl, _⟩
  · exact hs.trans hsends
  · cases hsends

theorem Watches.evolves {cancelled cancelled' : Bool} {r r' : Renewer} {g g' : Managed} {w : Watcher}
    (h : Watches cancelled r g w) (he : Evolves r g r' g') (hc : cancelled = true → cancelled' = true) :
    Watches cancelled' r' g' w := by
  cases w with
  | watching =>
      rcases he.channel with ⟨hb, hs⟩ | ⟨_, loss, hloss, hb, hs⟩
      · refine ⟨?_, ?_⟩
        · rw [hb, hs]
          exact h.1
        · rw [hb, hs]
          intro loss hl
          obtain ⟨hsends, hloss⟩ := h.2 loss hl
          exact ⟨hsends, he.loss loss hloss⟩
      · refine ⟨?_, ?_⟩
        · rw [hb]
          exact nofun
        · rw [hb]
          rintro _ ⟨⟩
          exact ⟨hs, hloss⟩
  | received loss =>
      obtain ⟨hsends, hloss⟩ := h
      refine ⟨?_, he.loss loss hloss⟩
      rcases he.channel with ⟨_, hs⟩ | ⟨rfl, _⟩
      · exact hs.trans hsends
      · cases hsends
  | reported err => exact Reports.evolves h he
  | canceled err => exact ⟨h.1.evolves he, hc h.2⟩
  | finished err =>
      cases err with
      | some err => exact ⟨h.1.evolves he, hc h.2⟩
      | none =>
          obtain ⟨hsends, hcloses⟩ := h
          refine ⟨?_, Nat.ne_of_gt (Nat.lt_of_lt_of_le (Nat.pos_of_ne_zero hcloses) he.closes)⟩
          rcases he.channel with ⟨_, hs⟩ | ⟨rfl, _⟩
          · exact hs.trans hsends
          · exact absurd rfl hcloses

/-- The renewer of a run, if it has one, and its watcher. -/
def Watched (site : Site) (cancelled : Bool) : Option Watcher → Prop
  | none => site.machine.renewers = []
  | some w => ∃ r g, site.machine.renewers = [r] ∧ site.managed = [g] ∧ Watches cancelled r g w

/-- Run has acquired this record and still has its handle. -/
structure Held (s : Run) (record : Record) (site : Site) : Prop where
  site_eq : s.site = some site
  acquire : s.results.acquire = some (.ok record)
  ok : SiteOk site
  holds : Holds (fun _ => True) s.policy record site.machine
  starting : site.locked = some .starting ↔ s.phase = .starting
  watched : Watched site s.cancelled s.watcher

def Ended (site : Site) : Prop := ∃ g, site.managed = [g] ∧ g.tail = .ended

/-- Renewal is enabled, started and watched, or it is not enabled. -/
def Started (s : Run) : Prop :=
  if s.policy.renewEvery ≤ 0 then s.watcher = none ∧ s.results.start = none
  else s.watcher.isSome = true ∧ s.results.start = some none

def Called (s : Run) (record : Record) (err : Option Error) : Prop :=
  Started s ∧ s.callbacks = [record.token] ∧ s.results.callback = some err

/-- The error that Run has joined when it comes to the release: that of the
start, or those of the callback and of the watcher. -/
inductive Settled (s : Run) (record : Record) (site : Site) : Option Error → Prop
  | refused {err : Error} (henabled : ¬s.policy.renewEvery ≤ 0) (hwatcher : s.watcher = none)
      (hcallbacks : s.callbacks = []) (hstart : s.results.start = some (some err))
      (hcallback : s.results.callback = none) : Settled s record site (some err)
  | unwatched {err : Option Error} (hcalled : Called s record err) (hwatcher : s.watcher = none) :
      Settled s record site err
  | joined {err loss : Option Error} {w : Watcher} (hcalled : Called s record err)
      (hwatcher : s.watcher = some w) (hlosses : w.losses = some loss) (hended : Ended site) :
      Settled s record site (errorsJoin err loss)

def PhaseOk (s : Run) (record : Record) (site : Site) : Prop :=
  let releases := site.machine.calls.countP isRelease
  match s.phase with
  | .acquiring => False
  | .acquired => s.callbacks = [] ∧ s.watcher = none ∧ s.results.start = none ∧
      s.results.callback = none ∧ releases = 0
  | .starting => ¬s.policy.renewEvery ≤ 0 ∧ s.callbacks = [] ∧ s.watcher = none ∧ releases = 0
  | .ready => s.callbacks = [] ∧ Started s ∧ releases = 0
  | .calling => s.callbacks = [record.token] ∧ Started s ∧ releases = 0
  | .stopping err => Called s record err ∧ s.watcher.isSome = true ∧ releases = 0
  | .draining err => Called s record err ∧ s.watcher.isSome = true ∧ Ended site ∧ releases = 0
  | .releasing err => Settled s record site err ∧ releases = 0
  | .awaiting err call => Settled s record site err ∧ releases = 1 ∧
      ∃ stage, site.machine.calls[call]? = some ⟨.release, stage⟩
  | .returned err => ∃ before result, Settled s record site before ∧ releases = 1 ∧
      s.results.release = some result ∧ err = errorsJoin before result

/-- Every state of a run. -/
inductive Inv (s : Run) : Prop
  | acquiring (hphase : s.phase = .acquiring) (hsite : s.site = none) (hwatcher : s.watcher = none)
      (hcallbacks : s.callbacks = []) (hresults : s.results = {})
  | failed {err : Error} (hphase : s.phase = .returned (some err)) (hsite : s.site = none)
      (hwatcher : s.watcher = none) (hcallbacks : s.callbacks = [])
      (hresults : s.results = { acquire := some (.error err) })
  | held {record : Record} {site : Site} (hheld : Held s record site) (hphase : PhaseOk s record site)

theorem inv_start (policy : Policy) : Inv (start policy) := .acquiring rfl rfl rfl rfl rfl

/-- What can happen to a run before Acquire has returned. -/
inductive Begun (s : Run) : Event → Run → Prop
  | same (event : Event) : Begun s event s
  | cancelled : Begun s .cancel { s with cancelled := true }
  | failed (hphase : s.phase = .acquiring) (err : Error) :
      Begun s (.acquired (.error err)) { s with
        phase := .returned (some err)
        results := { s.results with acquire := some (.error err) } }
  | acquired (hphase : s.phase = .acquiring) (record : Record) (started : Reading) :
      Begun s (.acquired (.ok (record, started))) { s with
        site := some (.new s.policy record started)
        phase := .acquired
        results := { s.results with acquire := some (.ok record) } }

section Keep

variable {s s' : Run} {record : Record} {site site' : Site}

/-- A step of another goroutine: Run stands where it was, calls stay what they
are, and what the watcher has sent is still there. -/
structure Keeps (s s' : Run) (site site' : Site) : Prop where
  policy_eq : s'.policy = s.policy
  phase_eq : s'.phase = s.phase
  callbacks_eq : s'.callbacks = s.callbacks
  results_eq : s'.results = s.results
  unwatched : s.watcher = none → s'.watcher = none
  watched : ∀ w, s.watcher = some w →
    ∃ w', s'.watcher = some w' ∧ ∀ loss, w.losses = some loss → w'.losses = some loss
  releases : site'.machine.calls.countP isRelease = site.machine.calls.countP isRelease
  calls : ∀ (call : Nat) op stage, site.machine.calls[call]? = some ⟨op, stage⟩ →
    ∃ stage, site'.machine.calls[call]? = some ⟨op, stage⟩
  ended : Ended site → Ended site'

theorem Keeps.isSome (hk : Keeps s s' site site') (h : s.watcher.isSome = true) :
    s'.watcher.isSome = true := by
  obtain ⟨w, hw⟩ := Option.isSome_iff_exists.mp h
  obtain ⟨w', hw', _⟩ := hk.watched w hw
  rw [hw']
  rfl

theorem Started.keep (h : Started s) (hk : Keeps s s' site site') : Started s' := by
  unfold Started at h ⊢
  rw [hk.policy_eq, hk.results_eq]
  split at h
  next hdisabled =>
    rw [if_pos hdisabled]
    exact ⟨hk.unwatched h.1, h.2⟩
  next henabled =>
    rw [if_neg henabled]
    exact ⟨hk.isSome h.1, h.2⟩

theorem Called.keep {err : Option Error} (h : Called s record err) (hk : Keeps s s' site site') :
    Called s' record err := by
  obtain ⟨hstarted, hcallbacks, hcallback⟩ := h
  exact ⟨hstarted.keep hk, hk.callbacks_eq.trans hcallbacks, by rw [hk.results_eq]; exact hcallback⟩

theorem Settled.keep {err : Option Error} (h : Settled s record site err) (hk : Keeps s s' site site') :
    Settled s' record site' err := by
  cases h with
  | refused henabled hwatcher hcallbacks hstart hcallback =>
      refine .refused ?_ (hk.unwatched hwatcher) (hk.callbacks_eq.trans hcallbacks) ?_ ?_
      · rw [hk.policy_eq]
        exact henabled
      · rw [hk.results_eq]
        exact hstart
      · rw [hk.results_eq]
        exact hcallback
  | unwatched hcalled hwatcher => exact .unwatched (hcalled.keep hk) (hk.unwatched hwatcher)
  | joined hcalled hwatcher hlosses hended =>
      obtain ⟨w', hw', hkept⟩ := hk.watched _ hwatcher
      exact .joined (hcalled.keep hk) hw' (hkept _ hlosses) (hk.ended hended)

theorem PhaseOk.keep (h : PhaseOk s record site) (hk : Keeps s s' site site') :
    PhaseOk s' record site' := by
  unfold PhaseOk at h ⊢
  rw [hk.phase_eq, hk.releases, hk.callbacks_eq, hk.results_eq, hk.policy_eq]
  cases hp : s.phase with
  | acquiring =>
      rw [hp] at h
      exact h
  | acquired =>
      rw [hp] at h
      exact ⟨h.1, hk.unwatched h.2.1, h.2.2⟩
  | starting =>
      rw [hp] at h
      exact ⟨h.1, h.2.1, hk.unwatched h.2.2.1, h.2.2.2⟩
  | ready | calling =>
      rw [hp] at h
      exact ⟨h.1, h.2.1.keep hk, h.2.2⟩
  | stopping err =>
      rw [hp] at h
      exact ⟨h.1.keep hk, hk.isSome h.2.1, h.2.2⟩
  | draining err =>
      rw [hp] at h
      exact ⟨h.1.keep hk, hk.isSome h.2.1, hk.ended h.2.2.1, h.2.2.2⟩
  | releasing err =>
      rw [hp] at h
      exact ⟨h.1.keep hk, h.2⟩
  | awaiting err call =>
      rw [hp] at h
      obtain ⟨hsettled, hreleases, stage, hc⟩ := h
      exact ⟨hsettled.keep hk, hreleases, hk.calls call _ stage hc⟩
  | returned err =>
      rw [hp] at h
      obtain ⟨before, result, hsettled, hrest⟩ := h
      exact ⟨before, result, hsettled.keep hk, hrest⟩

theorem Held.own (h : Held s record site) {event : Site.Event} (hown : event.own = true)
    (hstarted : event ≠ .started) :
    Held { s with site := some (site.step event) } record (site.step event) ∧
      Keeps s { s with site := some (site.step event) } site (site.step event) := by
  obtain ⟨hreleases, hcalls⟩ := own_calls site hown hstarted
  refine ⟨⟨rfl, h.acquire, h.ok.step event, own_holds h.holds hown hstarted,
    (own_starting site hstarted).trans h.starting, ?_⟩,
    ⟨rfl, rfl, rfl, rfl, id, fun w hw => ⟨w, hw, fun _ hl => hl⟩, hreleases, hcalls, ?_⟩⟩
  · have hw := h.watched
    dsimp only
    generalize s.watcher = watcher at hw ⊢
    cases watcher with
    | none => exact own_renewers_nil hw hown hstarted
    | some w =>
        obtain ⟨r, g, hr, hg, hwatches⟩ := hw
        obtain ⟨r', g', hr', hg', he⟩ := evolves_step h.ok hr hg hown hstarted
        exact ⟨r', g', hr', hg', hwatches.evolves he id⟩
  · rintro ⟨g, hg, ht⟩
    obtain ⟨r, hr⟩ : ∃ r, site.machine.renewers = [r] := by
      have hl := h.ok.length
      rw [hg] at hl
      exact List.length_eq_one_iff.mp hl.symm
    obtain ⟨_, g', _, hg', he⟩ := evolves_step h.ok hr hg hown hstarted
    exact ⟨g', hg', he.ended ht⟩

/-- The watcher goes on, and the context may be cancelled. -/
theorem Inv.setWatcher (h : Held s record site) (hp : PhaseOk s record site) {cancelled : Bool}
    {w w' : Watcher} {r : Renewer} {g : Managed} (hw : s.watcher = some w)
    (hr : site.machine.renewers = [r]) (hg : site.managed = [g]) (hwatches : Watches cancelled r g w')
    (hkept : ∀ loss, w.losses = some loss → w'.losses = some loss) :
    Inv { s with cancelled, watcher := some w' } := by
  refine .held ⟨h.site_eq, h.acquire, h.ok, h.holds, h.starting, r, g, hr, hg, hwatches⟩ (hp.keep ?_)
  refine ⟨rfl, rfl, rfl, rfl, ?_, ?_, rfl, fun _ _ stage hc => ⟨stage, hc⟩, id⟩
  · intro hn
    rw [hw] at hn
    cases hn
  · intro w₀ hw₀
    rw [hw] at hw₀
    cases hw₀
    exact ⟨w', rfl, hkept⟩

theorem Inv.receive (h : Held s record site) (hp : PhaseOk s record site) {loss : Loss} {r : Renewer}
    {g : Managed} (hw : s.watcher = some .watching) (hr : site.machine.renewers = [r])
    (hg : site.managed = [g]) (hloss : g.sends = 1 ∧ delivered r = some loss) :
    Inv { s with site := some (site.receive 0), watcher := some (.received loss) } := by
  have hreceive : site.receive 0 = { site with managed := [{ g with buffer := none }] } := by
    simp only [Site.receive, hg, List.getElem?_cons_zero, List.set_cons_zero]
  have hok := h.ok.step (.receive 0)
  rw [Site.step, hreceive] at hok
  rw [hreceive]
  refine .held ⟨rfl, h.acquire, hok, h.holds, h.starting, r, _, hr, rfl, hloss⟩ (hp.keep ?_)
  refine ⟨rfl, rfl, rfl, rfl, ?_, ?_, rfl, fun _ _ stage hc => ⟨stage, hc⟩, ?_⟩
  · intro hn
    rw [hw] at hn
    cases hn
  · intro w₀ hw₀
    rw [hw] at hw₀
    cases hw₀
    refine ⟨_, rfl, ?_⟩
    intro _ hlosses
    cases hlosses
  · rintro ⟨b, hb, ht⟩
    rw [hg] at hb
    cases hb
    exact ⟨_, rfl, ht⟩

end Keep

section Steps

variable {s : Run} {record : Record} {site : Site} (h : Held s record site) (hp : PhaseOk s record site)

theorem Held.watches {w : Watcher} (h : Held s record site) (hw : s.watcher = some w) :
    ∃ r g, site.machine.renewers = [r] ∧ site.managed = [g] ∧ Watches s.cancelled r g w := by
  have hwatched := h.watched
  rw [hw] at hwatched
  exact hwatched

theorem Held.managed_eq {g : Managed} (h : Held s record site) (hg : site.managed = [g]) :
    s.managed = some g := by
  rw [Run.managed, h.site_eq]
  exact congrArg (fun managed => managed[0]?) hg

theorem Held.unwatched (h : Held s record site) (hwatcher : s.watcher = none) :
    site.machine.renewers = [] := by
  have hwatched := h.watched
  rw [hwatcher] at hwatched
  exact hwatched

theorem Held.not_starting (h : Held s record site) (hphase : s.phase ≠ .starting) :
    site.locked ≠ some .starting :=
  fun hl => hphase (h.starting.mp hl)

/-- Run itself goes on, with its handle and watcher as they are. -/
theorem Held.setPhase (h : Held s record site) {phase : Phase} {callbacks : List Nat} {results : Results}
    (hresults : results.acquire = s.results.acquire) (hfrom : s.phase ≠ .starting)
    (hto : phase ≠ .starting) : Held { s with phase, callbacks, results } record site :=
  ⟨h.site_eq, hresults.trans h.acquire, h.ok, h.holds,
    ⟨fun hl => absurd (h.starting.mp hl) hfrom, fun he => absurd he hto⟩, h.watched⟩

theorem Settled.goOn {err : Option Error} (hs : Settled s record site err) {site' : Site} {phase : Phase}
    {release : Option (Option Error)} (hended : Ended site → Ended site') :
    Settled { s with site := some site', phase, results := { s.results with release } } record site' err := by
  cases hs with
  | refused henabled hwatcher hcallbacks hstart hcallback =>
      exact .refused henabled hwatcher hcallbacks hstart hcallback
  | unwatched hcalled hwatcher => exact .unwatched hcalled hwatcher
  | joined hcalled hwatcher hlosses hdone => exact .joined hcalled hwatcher hlosses (hended hdone)

/-- A handle that no goroutine is starting or leaving is not locked. -/
theorem free_of_no_renewer (hok : SiteOk site) (hr : site.machine.renewers = [])
    (hstarting : site.locked ≠ some .starting) : site.locked = none := by
  cases hl : site.locked with
  | none => rfl
  | some section_ =>
      cases section_ with
      | starting => exact absurd hl hstarting
      | leaving q =>
          obtain ⟨g, hg, _⟩ := hok.leaving q hl
          have hlength := hok.length
          rw [hr] at hlength
          rw [List.length_eq_zero_iff.mp hlength] at hg
          cases hg

theorem ended_of_done {renewer : Renewer} {g : Managed} (hg : ManagedOk renewer g)
    (hd : g.doneCloses ≠ 0) : g.tail = .ended := by
  unfold ManagedOk at hg
  cases ht : g.tail with
  | ended => rfl
  | looping =>
      rw [ht] at hg
      rw [hg.2] at hd
      exact absurd rfl hd
  | sent | leaving | unlocked | closing =>
      rw [ht] at hg
      obtain ⟨_, _, _, _, _, hnone⟩ := hg
      exact absurd hnone hd

include h hp

theorem inv_cancel : Inv { s with cancelled := true } := by
  refine .held ⟨h.site_eq, h.acquire, h.ok, h.holds, h.starting, ?_⟩
    (hp.keep ⟨rfl, rfl, rfl, rfl, id, fun w hw => ⟨w, hw, fun _ hl => hl⟩, rfl,
      fun _ _ stage hc => ⟨stage, hc⟩, id⟩)
  have hw := h.watched
  dsimp only
  generalize s.watcher = watcher at hw ⊢
  cases watcher with
  | none => exact hw
  | some w =>
      obtain ⟨r, g, hr, hg, hwatches⟩ := hw
      exact ⟨r, g, hr, hg, hwatches.evolves (.refl r g) (fun _ => rfl)⟩

theorem inv_received {g : Managed} {loss : Loss} (hw : s.watcher = some .watching)
    (hm : s.managed = some g) (hb : g.buffer = some loss) :
    Inv { s with site := s.site.map (fun site => site.receive 0), watcher := some (.received loss) } := by
  obtain ⟨r, _, hr, hg, _, hfull⟩ := h.watches hw
  rw [h.managed_eq hg] at hm
  cases hm
  rw [h.site_eq]
  exact .receive h hp hw hr hg (hfull loss hb)

theorem inv_unlost {g : Managed} (hw : s.watcher = some .watching) (hm : s.managed = some g)
    (hb : g.buffer = none) (hcloses : g.lossCloses ≠ 0) :
    Inv { s with watcher := some (.finished none) } := by
  obtain ⟨r, _, hr, hg, hempty, _⟩ := h.watches hw
  rw [h.managed_eq hg] at hm
  cases hm
  exact .setWatcher h hp hw hr hg ⟨hempty hb, hcloses⟩ nofun

theorem inv_reported {loss : Loss} (hw : s.watcher = some (.received loss)) :
    Inv { s with watcher := some (.reported (.joined (.sentinel .errLost) loss.err)) } := by
  obtain ⟨r, g, hr, hg, hsends, hloss⟩ := h.watches hw
  exact .setWatcher h hp hw hr hg ⟨hsends, loss, hloss, rfl⟩ nofun

theorem inv_canceledRun {err : Error} (hw : s.watcher = some (.reported err)) :
    Inv { s with cancelled := true, watcher := some (.canceled err) } := by
  obtain ⟨r, g, hr, hg, hreports⟩ := h.watches hw
  exact .setWatcher h hp hw hr hg ⟨hreports, rfl⟩ (fun _ hl => hl)

theorem inv_closedLosses {err : Error} (hw : s.watcher = some (.canceled err)) :
    Inv { s with watcher := some (.finished (some err)) } := by
  obtain ⟨r, g, hr, hg, hreports, hcancelled⟩ := h.watches hw
  exact .setWatcher h hp hw hr hg ⟨hreports, hcancelled⟩ (fun _ hl => hl)

section StartManaged

variable {reading : Reading} {slot : Bool} (hphase : s.phase = .acquired)
  (henabled : ¬s.policy.renewEvery ≤ 0)

include hphase henabled

theorem inv_starting (hstart : (site.machine.handle.startManaged reading slot).2 = none) :
    Inv { s with site := some (site.startManaged reading slot), phase := .starting } := by
  rw [PhaseOk, hphase] at hp
  obtain ⟨hcallbacks, hwatcher, _, _, hreleases⟩ := hp
  have hfree := free_of_no_renewer h.ok (h.unwatched hwatcher) (h.not_starting (by simp [hphase]))
  have hok := (h.ok.startManaged hfree reading slot).ok
  rw [Site.startManaged, if_pos hstart] at hok ⊢
  refine .held ⟨rfl, h.acquire, hok, h.holds, ⟨fun _ => rfl, fun _ => rfl⟩, h.watched⟩ ?_
  exact ⟨henabled, hcallbacks, hwatcher, hreleases⟩

theorem inv_refused {err : Error} (hstart : (site.machine.handle.startManaged reading slot).2 = some err) :
    Inv { s with
      site := some (site.startManaged reading slot)
      phase := .releasing (some err)
      results := { s.results with start := some (some err) } } := by
  rw [PhaseOk, hphase] at hp
  obtain ⟨hcallbacks, hwatcher, _, hcallback, hreleases⟩ := hp
  have hlocked := h.not_starting (by simp [hphase])
  have hfree := free_of_no_renewer h.ok (h.unwatched hwatcher) hlocked
  have hok := (h.ok.startManaged hfree reading slot).ok
  have hne : (site.machine.handle.startManaged reading slot).2 ≠ none := by
    rw [hstart]
    exact nofun
  have hstep := h.holds.step (.startManaged reading slot) (fun _ _ _ _ _ _ _ => trivial)
  rw [Site.startManaged, if_neg hne] at hok ⊢
  refine .held ⟨rfl, h.acquire, hok, ⟨hstep.policy_eq, hstep.record, trivial, hstep.calls⟩,
    ⟨fun hl => absurd hl hlocked, nofun⟩, h.watched⟩ ?_
  exact ⟨.refused henabled hwatcher hcallbacks rfl hcallback, hreleases⟩

end StartManaged

theorem inv_started (hphase : s.phase = .starting) :
    Inv { s with
      site := some site.started
      watcher := some .watching
      phase := .ready
      results := { s.results with start := some none } } := by
  rw [PhaseOk, hphase] at hp
  obtain ⟨henabled, hcallbacks, hwatcher, hreleases⟩ := hp
  have hr := h.unwatched hwatcher
  have hg : site.managed = [] := by
    have hlength := h.ok.length
    rw [hr] at hlength
    exact List.length_eq_zero_iff.mp hlength
  have hok := h.ok.step .started
  have hstarted : site.started = ⟨⟨{ site.machine.handle with managed := true }, site.machine.calls,
      [.sleeping]⟩, [.new], none⟩ := by
    rw [Site.started, h.starting.mpr hphase, hr, hg]
    rfl
  rw [Site.step, hstarted] at hok
  rw [hstarted]
  refine .held ⟨rfl, h.acquire, hok, ⟨h.holds.policy_eq, h.holds.record, trivial, h.holds.calls⟩,
    by simp, .sleeping, .new, rfl, rfl, fun _ => rfl, ?_⟩ ⟨hcallbacks, ?_, hreleases⟩
  · intro _ hdelivered
    cases hdelivered
  · rw [Started, if_neg henabled]
    exact ⟨rfl, rfl⟩

theorem inv_called (hprepared : s.prepared = true) :
    Inv { s with
      phase := .calling
      callbacks := s.callbacks ++ [site.machine.handle.record.token] } := by
  unfold Run.prepared at hprepared
  have htoken := h.holds.record.2.2
  split at hprepared
  next hphase =>
    rw [PhaseOk, hphase] at hp
    obtain ⟨hcallbacks, hstarted, hreleases⟩ := hp
    refine .held (h.setPhase rfl (by simp [hphase]) nofun) ⟨?_, hstarted, hreleases⟩
    rw [hcallbacks, htoken]
    rfl
  next hphase =>
    rw [PhaseOk, hphase] at hp
    obtain ⟨hcallbacks, hwatcher, hstart, _, hreleases⟩ := hp
    refine .held (h.setPhase rfl (by simp [hphase]) nofun) ⟨?_, ?_, hreleases⟩
    · rw [hcallbacks, htoken]
      rfl
    · rw [Started, if_pos (of_decide_eq_true hprepared)]
      exact ⟨hwatcher, hstart⟩
  next => cases hprepared

theorem inv_callbackReturned (hphase : s.phase = .calling) (err : Option Error) :
    Inv { s with
      cancelled := true
      phase := if s.watcher.isSome then .stopping err else .releasing err
      results := { s.results with callback := some err } } := by
  rw [PhaseOk, hphase] at hp
  obtain ⟨hcallbacks, hstarted, hreleases⟩ := hp
  have hcalled : Called { s with results := { s.results with callback := some err } } record err :=
    ⟨hstarted, hcallbacks, rfl⟩
  have hne : s.phase ≠ .starting := by
    rw [hphase]
    exact nofun
  have hheld (phase : Phase) (hto : phase ≠ .starting) :
      Held { s with phase, results := { s.results with callback := some err } } record site :=
    h.setPhase rfl hne hto
  split
  next hwatcher => exact inv_cancel (hheld (.stopping err) nofun) ⟨hcalled, hwatcher, hreleases⟩
  next hwatcher =>
    rw [Bool.not_eq_true, Option.isSome_eq_false_iff, Option.isNone_iff_eq_none] at hwatcher
    exact inv_cancel (hheld (.releasing err) nofun) ⟨.unwatched hcalled hwatcher, hreleases⟩

theorem inv_joined {err : Option Error} {g : Managed} (hphase : s.phase = .stopping err)
    (hm : s.managed = some g) (hdone : g.doneCloses ≠ 0) : Inv { s with phase := .draining err } := by
  rw [PhaseOk, hphase] at hp
  obtain ⟨hcalled, hwatcher, hreleases⟩ := hp
  obtain ⟨w, hw⟩ := Option.isSome_iff_exists.mp hwatcher
  obtain ⟨r, _, hr, hg, _⟩ := h.watches hw
  rw [h.managed_eq hg] at hm
  cases hm
  have hmanaged := h.ok.managed 0 r g (by rw [hr]; rfl) (by rw [hg]; rfl)
  exact .held (h.setPhase rfl (by simp [hphase]) nofun)
    ⟨hcalled, hwatcher, ⟨g, hg, ended_of_done hmanaged hdone⟩, hreleases⟩

theorem inv_drained {err loss : Option Error} {w : Watcher} (hphase : s.phase = .draining err)
    (hw : s.watcher = some w) (hlosses : w.losses = some loss) :
    Inv { s with phase := .releasing (errorsJoin err loss) } := by
  rw [PhaseOk, hphase] at hp
  obtain ⟨hcalled, _, hended, hreleases⟩ := hp
  exact .held (h.setPhase rfl (by simp [hphase]) nofun)
    ⟨.joined hcalled hw hlosses hended, hreleases⟩

theorem inv_released {err : Option Error} {reading : Reading} (hphase : s.phase = .releasing err)
    (hfree : site.locked = none) :
    Inv { s with
      site := some { site with machine := site.machine.step (.invoke .release reading) }
      phase := .awaiting err site.machine.calls.length } := by
  rw [PhaseOk, hphase] at hp
  obtain ⟨hsettled, hreleases⟩ := hp
  have hinside : site.inside (.invoke .release reading) =
      { site with machine := site.machine.invoke .release reading } :=
    if_pos (Option.isNone_iff_eq_none.mpr hfree)
  have hok := h.ok.step (.inside (.invoke .release reading))
  rw [Site.step, hinside] at hok
  have hholds := h.holds.step (.invoke .release reading) (fun _ _ _ _ _ _ _ => trivial)
  refine .held ⟨rfl, h.acquire, hok, hholds, ⟨fun hl => ?_, by simp⟩, h.watched⟩
    ⟨hsettled.goOn id, ?_, _, List.getElem?_concat_length⟩
  · rw [h.starting, hphase] at hl
    cases hl
  · rw [Machine.step, Machine.invoke, List.countP_append, hreleases]
    rfl

theorem inv_collected {err result : Option Error} {call : Nat} (hphase : s.phase = .awaiting err call) :
    Inv { s with
      cancelled := true
      phase := .returned (errorsJoin err result)
      results := { s.results with release := some result } } := by
  rw [PhaseOk, hphase] at hp
  obtain ⟨hsettled, hreleases, _⟩ := hp
  have hheld : Held { s with
      phase := .returned (errorsJoin err result)
      results := { s.results with release := some result } } record site :=
    h.setPhase rfl (by simp [hphase]) nofun
  refine inv_cancel hheld ⟨err, result, ?_, hreleases, rfl, rfl⟩
  cases hsettled with
  | refused henabled hwatcher hcallbacks hstart hcallback =>
      exact .refused henabled hwatcher hcallbacks hstart hcallback
  | unwatched hcalled hwatcher => exact .unwatched hcalled hwatcher
  | joined hcalled hwatcher hlosses hdone => exact .joined hcalled hwatcher hlosses hdone

theorem inv_held_step (event : Event) : Inv (s.step event) := by
  have ht := step_took s event
  generalize s.step event = s' at ht ⊢
  have hsame {site' : Site} (hsite : s.site = some site') : site' = site :=
    Option.some.inj (hsite.symm.trans h.site_eq)
  cases ht with
  | same => exact .held h hp
  | failed hphase | acquired hphase =>
      rw [PhaseOk, hphase] at hp
      exact hp.elim
  | starting hphase hsite henabled hstart =>
      obtain rfl := hsame hsite
      exact inv_starting h hp hphase henabled hstart
  | refused hphase hsite henabled hstart =>
      obtain rfl := hsame hsite
      exact inv_refused h hp hphase henabled hstart
  | started hphase hsite =>
      obtain rfl := hsame hsite
      exact inv_started h hp hphase
  | moved hsite hown hstarted =>
      obtain rfl := hsame hsite
      obtain ⟨hheld, hkeeps⟩ := h.own hown hstarted
      exact .held hheld (hp.keep hkeeps)
  | called hprepared hsite =>
      obtain rfl := hsame hsite
      exact inv_called h hp hprepared
  | callbackReturned hphase err => exact inv_callbackReturned h hp hphase err
  | cancelled => exact inv_cancel h hp
  | received hw hm hb => exact inv_received h hp hw hm hb
  | unlost hw hm hb hcloses => exact inv_unlost h hp hw hm hb hcloses
  | reported hw => exact inv_reported h hp hw
  | canceledRun hw => exact inv_canceledRun h hp hw
  | closedLosses hw => exact inv_closedLosses h hp hw
  | joined hphase hm hdone => exact inv_joined h hp hphase hm hdone
  | drained hphase hw hlosses => exact inv_drained h hp hphase hw hlosses
  | released hphase hsite hfree =>
      obtain rfl := hsame hsite
      exact inv_released h hp hphase hfree
  | collected hphase => exact inv_collected h hp hphase

end Steps

section Idle

variable {s : Run}

/-- Before Acquire has returned, and after it has failed, nothing else happens. -/
theorem step_begun (hsite : s.site = none) (hwatcher : s.watcher = none)
    (hphase : s.phase = .acquiring ∨ ∃ err, s.phase = .returned err) (event : Event) :
    Begun s event (s.step event) := by
  have hnosite {site : Site} (hs : s.site = some site) : False := by
    rw [hsite] at hs
    cases hs
  have hnowatcher {w : Watcher} (hw : s.watcher = some w) : False := by
    rw [hwatcher] at hw
    cases hw
  have ht := step_took s event
  generalize s.step event = s' at ht ⊢
  cases ht with
  | same => exact .same _
  | cancelled => exact .cancelled
  | failed hp err => exact .failed hp err
  | acquired hp record reading => exact .acquired hp record reading
  | starting _ hs | refused _ hs | started _ hs | moved hs | called _ hs | released _ hs
  | collected _ hs => exact (hnosite hs).elim
  | received hw | unlost hw | reported hw | canceledRun hw | closedLosses hw | drained _ hw =>
      exact (hnowatcher hw).elim
  | callbackReturned hp =>
      rw [hp] at hphase
      rcases hphase with he | ⟨_, he⟩
      · cases he
      · cases he
  | joined hp =>
      rw [hp] at hphase
      rcases hphase with he | ⟨_, he⟩
      · cases he
      · cases he

theorem holds_new (policy : Policy) (record : Record) (started : Reading) :
    Holds (fun _ => True) policy record (Site.new policy record started).machine := by
  refine ⟨rfl, ⟨rfl, rfl, rfl⟩, trivial, ?_⟩
  intro call hc
  cases hc

theorem Inv.step (h : Inv s) (event : Event) : Inv (s.step event) := by
  cases h with
  | held hheld hphase => exact inv_held_step hheld hphase event
  | failed hphase hsite hwatcher hcallbacks hresults =>
      have hb := step_begun hsite hwatcher (.inr ⟨_, hphase⟩) event
      generalize s.step event = s' at hb ⊢
      cases hb with
      | same | cancelled => exact .failed hphase hsite hwatcher hcallbacks hresults
      | failed hp | acquired hp =>
          rw [hphase] at hp
          cases hp
  | acquiring hphase hsite hwatcher hcallbacks hresults =>
      have hb := step_begun hsite hwatcher (.inl hphase) event
      generalize s.step event = s' at hb ⊢
      cases hb with
      | same | cancelled => exact .acquiring hphase hsite hwatcher hcallbacks hresults
      | failed _ err => exact .failed rfl hsite hwatcher hcallbacks (by rw [hresults])
      | acquired _ record started =>
          refine .held ⟨rfl, rfl, siteOk_new _ _ _, holds_new _ _ _, ⟨nofun, nofun⟩, ?_⟩
            ⟨hcallbacks, hwatcher, ?_, ?_, rfl⟩
          · dsimp only
            rw [hwatcher]
            rfl
          · dsimp only
            rw [hresults]
          · dsimp only
            rw [hresults]

end Idle

end GoLease.Orchestration
