import GoLease.Coverage
import GoLease.Orchestration.Run

namespace GoLease.Orchestration

open Lifecycle Renewal Capacity Coverage Pool

def isRelease (call : Invocation) : Bool := call.op == .release

section Site

variable {site : Site} {event : Site.Event}

/-- The goroutines of a handle leave its state as it is or take one step of it
that is no call of a user. -/
theorem own_machine (site : Site) (hown : event.own = true) (hstarted : event ≠ .started) :
    (site.step event).machine = site.machine ∨
      ∃ e, (site.step event).machine = site.machine.step e ∧ (∀ op reading, e ≠ .invoke op reading) ∧
        (∀ reading slot, e ≠ .startManaged reading slot) ∧
        ∀ call reply, e = .reply call reply → event = .inside e := by
  have hw := step_went site event
  generalize site.step event = site' at hw ⊢
  cases hw with
  | same | sent | received | returned | closedLoss | closedDone => exact .inl rfl
  | started => exact absurd rfl hstarted
  | @inside e ha =>
      refine .inr ⟨e, rfl, ?_, (admits_ne ha).2, fun _ _ _ => rfl⟩
      rintro op reading rfl
      cases hown
  | @left r => exact .inr ⟨.exit r, rfl, nofun, nofun, nofun⟩

theorem own_starting (site : Site) (hstarted : event ≠ .started) :
    (site.step event).locked = some .starting ↔ site.locked = some .starting := by
  have hw := step_went site event
  generalize site.step event = site' at hw ⊢
  cases hw with
  | same | inside | sent | received | closedLoss | closedDone => exact Iff.rfl
  | started => exact absurd rfl hstarted
  | left hl | returned hl =>
      rw [hl]
      exact ⟨nofun, nofun⟩

theorem own_holds {policy : Policy} {record : Record} (h : Holds (fun _ => True) policy record site.machine)
    (hown : event.own = true) (hstarted : event ≠ .started) :
    Holds (fun _ => True) policy record (site.step event).machine := by
  rcases own_machine site hown hstarted with he | ⟨e, he, _⟩
  · rw [he]
    exact h
  · rw [he]
    exact h.step e (fun _ _ _ _ _ _ _ => trivial)

/-- They call no Release, and every call stays the call it is. -/
theorem own_calls (site : Site) (hown : event.own = true) (hstarted : event ≠ .started) :
    (site.step event).machine.calls.countP isRelease = site.machine.calls.countP isRelease ∧
      ∀ (call : Nat) op stage, site.machine.calls[call]? = some ⟨op, stage⟩ →
        ∃ stage, (site.step event).machine.calls[call]? = some ⟨op, stage⟩ := by
  rcases own_machine site hown hstarted with he | ⟨e, he, hinvoke, _⟩
  · rw [he]
    exact ⟨rfl, fun _ _ stage hc => ⟨stage, hc⟩⟩
  · rw [he]
    rcases calls_cases site.machine e with hcalls | ⟨op, stage, hcalls, hop⟩ | ⟨k, op, old, new, hk, hcalls⟩
    · rw [hcalls]
      exact ⟨rfl, fun _ _ stage hc => ⟨stage, hc⟩⟩
    · rw [hcalls]
      rcases hop with rfl | ⟨reading, rfl⟩
      · refine ⟨?_, fun _ _ stage hc => ⟨stage, getElem?_append_of_some hc _⟩⟩
        rw [List.countP_append]
        rfl
      · exact absurd rfl (hinvoke op reading)
    · rw [hcalls]
      have hcount := countP_set_add (p := isRelease) (b := ⟨op, new⟩) hk
      refine ⟨Nat.add_right_cancel hcount, ?_⟩
      intro call op' stage hc
      by_cases heq : k = call
      · subst heq
        rw [hk] at hc
        cases hc
        exact ⟨new, getElem?_set_of_some hk _⟩
      · exact ⟨stage, (List.getElem?_set_ne heq).trans hc⟩

theorem own_renewers_nil (hr : site.machine.renewers = []) (hown : event.own = true)
    (hstarted : event ≠ .started) : (site.step event).machine.renewers = [] := by
  rcases own_machine site hown hstarted with he | ⟨e, he, _, hmanaged, _⟩
  · rw [he]
    exact hr
  · rw [he]
    rcases renewers_cases site.machine e with hsame | ⟨j, old, new, hj, _⟩ | ⟨reading, slot, rfl, _⟩
    · exact hsame.trans hr
    · rw [hr] at hj
      cases hj
    · exact absurd rfl (hmanaged reading slot)

theorem getElem?_one {α : Type} {a b : α} {i : Nat} (h : [a][i]? = some b) : i = 0 ∧ a = b := by
  cases i with
  | zero => exact ⟨rfl, Option.some.inj h⟩
  | succ i => cases h

/-- What the goroutine of a single renewer does with its loss channel. -/
structure Evolves (r : Renewer) (g : Managed) (r' : Renewer) (g' : Managed) : Prop where
  loss : ∀ loss, delivered r = some loss → delivered r' = some loss
  channel : g'.buffer = g.buffer ∧ g'.sends = g.sends ∨
    g = .new ∧ ∃ loss, delivered r' = some loss ∧ g'.buffer = some loss ∧ g'.sends = 1
  closes : g.lossCloses ≤ g'.lossCloses
  ended : g.tail = .ended → g'.tail = .ended

theorem Evolves.refl (r : Renewer) (g : Managed) : Evolves r g r g :=
  ⟨fun _ h => h, .inl ⟨rfl, rfl⟩, Nat.le_refl _, id⟩

theorem turned_evolves {m : Machine} {j : Nat} {e : Lifecycle.Event} {r r' : Renewer}
    (h : Turned m j e r r') (g : Managed) : Evolves r g r' g := by
  refine ⟨?_, .inl ⟨rfl, rfl⟩, Nat.le_refl _, id⟩
  intro loss hl
  cases h with
  | kept | left => exact hl
  | woke | interrupted | began | slept | gaveUp | lost => cases hl

variable {r : Renewer} {g : Managed}

/-- The Managed of a single renewer goes on with the renewer as it is. -/
theorem evolves_set (hr : site.machine.renewers = [r]) (hg : site.managed = [g]) {q : Nat} {b g' : Managed}
    (hq : site.managed[q]? = some b) (h : Evolves r b r g') :
    ∃ r' b', site.machine.renewers = [r'] ∧ site.managed.set q g' = [b'] ∧ Evolves r g r' b' := by
  rw [hg] at hq ⊢
  obtain ⟨rfl, rfl⟩ := getElem?_one hq
  exact ⟨r, g', hr, rfl, h⟩

theorem evolves_step (h : SiteOk site) (hr : site.machine.renewers = [r]) (hg : site.managed = [g])
    (hown : event.own = true) (hstarted : event ≠ .started) :
    ∃ r' g', (site.step event).machine.renewers = [r'] ∧ (site.step event).managed = [g'] ∧
      Evolves r g r' g' := by
  have hw := step_went site event
  generalize site.step event = site' at hw ⊢
  cases hw with
  | same => exact ⟨r, g, hr, hg, .refl r g⟩
  | started => exact absurd rfl hstarted
  | received => cases hown
  | @inside e ha =>
      rcases renewers_cases site.machine e with he | ⟨j, old, new, hj, he, ht⟩ | ⟨reading, slot, rfl, _⟩
      · dsimp only
        rw [he]
        exact ⟨r, g, hr, hg, .refl r g⟩
      · rw [hr] at hj
        obtain ⟨rfl, rfl⟩ := getElem?_one hj
        refine ⟨new, g, ?_, hg, turned_evolves ht g⟩
        rw [he, hr]
        rfl
      · cases ha
  | @sent q loss b hq hb ht =>
      have hmanaged := h.managed q _ b hq hb
      rw [ManagedOk, ht] at hmanaged
      obtain ⟨_, rfl⟩ := hmanaged
      rw [hr] at hq
      obtain ⟨rfl, rfl⟩ := getElem?_one hq
      refine evolves_set hr hg hb
        ⟨fun _ hl => hl, .inr ⟨rfl, loss, rfl, rfl, rfl⟩, Nat.le_refl _, ?_⟩
      intro hended
      cases hended
  | @left q loss b hl hq hb ht =>
      rw [hr] at hq
      obtain ⟨rfl, rfl⟩ := getElem?_one hq
      rw [hg] at hb
      obtain ⟨_, rfl⟩ := getElem?_one hb
      refine ⟨.exited loss, { g with tail := .leaving }, ?_, ?_, ?_⟩
      · simp only [Machine.step, Machine.exit, hr, List.getElem?_cons_zero, List.set_cons_zero]
      · rw [hg]
        rfl
      · refine ⟨fun _ hd => hd, .inl ⟨rfl, rfl⟩, Nat.le_refl _, ?_⟩
        intro hended
        rw [hended] at ht
        cases loss <;> cases ht
  | @returned q b hl hb =>
      refine evolves_set hr hg hb ⟨fun _ hd => hd, .inl ⟨rfl, rfl⟩, Nat.le_refl _, ?_⟩
      intro hended
      obtain ⟨b', hb', ht⟩ := h.leaving q hl
      rw [hb] at hb'
      cases hb'
      rw [hended] at ht
      cases ht
  | @closedLoss q b hb ht =>
      refine evolves_set hr hg hb ⟨fun _ hd => hd, .inl ⟨rfl, rfl⟩, Nat.le_succ _, ?_⟩
      intro hended
      rw [hended] at ht
      cases ht
  | closedDone hb =>
      exact evolves_set hr hg hb ⟨fun _ hd => hd, .inl ⟨rfl, rfl⟩, Nat.le_refl _, fun _ => rfl⟩

end Site

end GoLease.Orchestration
