import GoLease.Orchestration.Invariant

namespace GoLease.Orchestration

open Lifecycle Capacity

variable {s : Run} {site : Site} {event : Event}

/-- A machine that stays as it is, as a step of it. -/
theorem stepped_refl (m : Machine) : Stepped m (.resume 0) m := .idle _ (.refl m.handle) m.renewers

theorem started_stepped (site : Site) : Stepped site.machine (.resume 0) site.started.machine := by
  unfold Site.started
  split
  next => exact .idle _ (idles_managed site.machine.handle true) _
  next => exact stepped_refl _

theorem startManaged_stepped (site : Site) (reading : Reading) (slot : Bool) :
    Stepped site.machine (.resume 0) (site.startManaged reading slot).machine := by
  unfold Site.startManaged
  dsimp only
  split
  next => exact stepped_refl _
  next => exact .idle _ (idles_startManaged site.machine.handle reading slot) _

theorem receive_machine (site : Site) (i : Nat) : (site.receive i).machine = site.machine := by
  unfold Site.receive
  split <;> rfl

/-- What a step of Run does to its handle; a reply reaches the handle only as a
step of its own. -/
theorem step_site (h : Inv s) (hs : s.site = some site) (event : Event) :
    ∃ site' e, (s.step event).site = some site' ∧ Stepped site.machine e site'.machine ∧
      ∀ call reply, e = .reply call reply → event = .atSite (.inside e) := by
  have hsame {site' : Site} (hsite : s.site = some site') : site' = site :=
    Option.some.inj (hsite.symm.trans hs)
  have ht := step_took s event
  generalize s.step event = s' at ht ⊢
  cases ht with
  | same | called | callbackReturned | cancelled | unlost | reported | canceledRun | closedLosses
  | joined | drained | collected => exact ⟨site, _, hs, stepped_refl _, by simp⟩
  | failed hp | acquired hp =>
      cases h with
      | acquiring _ hsite | failed _ hsite =>
          rw [hs] at hsite
          cases hsite
      | held _ hphase =>
          rw [PhaseOk, hp] at hphase
          exact hphase.elim
  | starting _ hsite | refused _ hsite =>
      obtain rfl := hsame hsite
      exact ⟨_, _, rfl, startManaged_stepped _ _ _, by simp⟩
  | started _ hsite =>
      obtain rfl := hsame hsite
      exact ⟨_, _, rfl, started_stepped _, by simp⟩
  | @moved _ event hsite hown hstarted =>
      obtain rfl := hsame hsite
      rcases own_machine _ hown hstarted with he | ⟨e, he, _, _, hreply⟩
      · refine ⟨_, .resume 0, rfl, ?_, by simp⟩
        rw [he]
        exact stepped_refl _
      · refine ⟨_, e, rfl, ?_, fun call reply hr => congrArg _ (hreply call reply hr)⟩
        rw [he]
        exact step_stepped _ e
  | received =>
      refine ⟨site.receive 0, .resume 0, ?_, ?_, by simp⟩
      · dsimp only
        rw [hs]
        rfl
      · rw [receive_machine]
        exact stepped_refl _
  | @released _ _ reading _ hsite =>
      obtain rfl := hsame hsite
      exact ⟨_, .invoke .release reading, rfl, step_stepped _ _, by simp⟩

/-- What a step records: the policy never changes, only Acquire records its
result, and only the return of Release records that one. -/
structure Recorded (s : Run) (event : Event) (s' : Run) : Prop where
  policy : s'.policy = s.policy
  acquire : (∀ result, event ≠ .acquired result) → s'.results.acquire = s.results.acquire
  release : s'.results.release = s.results.release ∨
    ∃ err call site op result, s.phase = .awaiting err call ∧ s.site = some site ∧
      site.machine.calls[call]? = some ⟨op, .returned result⟩ ∧ s'.results.release = some result

theorem step_recorded (s : Run) (event : Event) : Recorded s event (s.step event) := by
  have ht := step_took s event
  generalize s.step event = s' at ht ⊢
  cases ht with
  | same | starting | refused | started | moved | called | callbackReturned | cancelled | received
  | unlost | reported | canceledRun | closedLosses | joined | drained | released =>
      exact ⟨rfl, fun _ => rfl, .inl rfl⟩
  | failed | acquired => exact ⟨rfl, fun h => absurd rfl (h _), .inl rfl⟩
  | collected hphase hsite hc =>
      exact ⟨rfl, fun _ => rfl, .inr ⟨_, _, _, _, _, hphase, hsite, hc, rfl⟩⟩

/-- The handle keeps its lifecycle, and a nil result of Release means that it
is released. -/
structure Acked (s : Run) : Prop where
  lifecycle : ∀ site, s.site = some site → Lifecycle.Inv site.machine
  released : s.results.release = some none →
    ∃ site, s.site = some site ∧ site.machine.handle.state = .released

theorem acked_start (policy : Policy) : Acked (start policy) := by
  refine ⟨?_, ?_⟩
  · intro site hs
    cases hs
  · intro hr
    cases hr

theorem released_stepped {m m' : Machine} {e : Lifecycle.Event} (h : Lifecycle.Inv m)
    (hs : Stepped m e m') (hr : m.handle.state = .released) : m'.handle.state = .released := by
  rcases h.stepped_edge hs with he | he
  · exact he.trans hr
  · rw [hr] at he
    cases he

theorem Acked.step (h : Acked s) (hinv : Inv s) (event : Event) : Acked (s.step event) := by
  cases hsite : s.site with
  | some site =>
      obtain ⟨site', e, hsite', hstepped, _⟩ := step_site hinv hsite event
      have hlifecycle := h.lifecycle site hsite
      refine ⟨?_, ?_⟩
      · intro site'' hs
        rw [hsite'] at hs
        cases hs
        exact hlifecycle.stepped hstepped
      · intro hnil
        refine ⟨site', hsite', released_stepped hlifecycle hstepped ?_⟩
        rcases (step_recorded s event).release with he | ⟨err, call, other, op, result, hphase, hother, hc, he⟩
        · rw [he] at hnil
          obtain ⟨other, hother, hreleased⟩ := h.released hnil
          rw [hsite] at hother
          cases hother
          exact hreleased
        · rw [hsite] at hother
          cases hother
          rw [he] at hnil
          cases hnil
          cases hinv with
          | acquiring _ hnone | failed _ hnone =>
              rw [hsite] at hnone
              cases hnone
          | held hheld hp =>
              rw [PhaseOk, hphase] at hp
              obtain ⟨_, _, stage, hrelease⟩ := hp
              rw [hheld.site_eq] at hsite
              cases hsite
              rw [hc] at hrelease
              cases hrelease
              exact hlifecycle.acknowledged _ (List.mem_of_getElem? hc) rfl rfl
  | none =>
      obtain ⟨hwatcher, hphase, hnil⟩ : s.watcher = none ∧
          (s.phase = .acquiring ∨ ∃ err, s.phase = .returned err) ∧ s.results.release = none := by
        cases hinv with
        | acquiring hphase _ hwatcher _ hresults => exact ⟨hwatcher, .inl hphase, by rw [hresults]⟩
        | failed hphase _ hwatcher _ hresults => exact ⟨hwatcher, .inr ⟨_, hphase⟩, by rw [hresults]⟩
        | held hheld =>
            rw [hheld.site_eq] at hsite
            cases hsite
      refine ⟨?_, ?_⟩
      · intro site hs
        have hb := step_begun hsite hwatcher hphase event
        generalize s.step event = s' at hb hs
        cases hb with
        | same | cancelled | failed =>
            rw [hsite] at hs
            cases hs
        | acquired =>
            cases hs
            exact inv_initial _ _ _
      · intro hreleased
        rcases (step_recorded s event).release with he | ⟨_, _, _, _, _, _, hother, _⟩
        · rw [he, hnil] at hreleased
          cases hreleased
        · rw [hsite] at hother
          cases hother

end GoLease.Orchestration
