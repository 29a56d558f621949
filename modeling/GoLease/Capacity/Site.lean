import GoLease.Renewal

namespace GoLease.Capacity

open Lifecycle Renewal Pool

/-- How far Managed.run has come after its loop: still in it or about to send or
to return, after the send, inside the locked part of the deferred function with
the flag cleared, after it, after close(loss), after close(done). -/
inductive Tail
  | looping
  | sent
  | leaving
  | unlocked
  | closing
  | ended
  deriving DecidableEq, Repr

/-- A Managed: its goroutine, the buffer of its loss channel, which holds one
value, and how often it has sent, returned its slot and closed its channels. -/
structure Managed where
  tail : Tail
  buffer : Option Loss
  sends : Nat
  returns : Nat
  lossCloses : Nat
  doneCloses : Nat
  deriving DecidableEq, Repr

def Managed.new : Managed := ⟨.looping, none, 0, 0, 0, 0⟩

/-- Who holds the lock of a handle across more than one step: StartManaged with
the slot taken and the flag not yet set, or the exit of a renewer with the flag
cleared and the slot not yet returned. -/
inductive Section
  | starting
  | leaving (renewer : Nat)
  deriving DecidableEq, Repr

/-- A handle, the Managed of each of its renewers, and its lock. -/
structure Site where
  machine : Machine
  managed : List Managed
  locked : Option Section

/-- The steps of a handle and its renewers, apart from the part of StartManaged
that takes a slot. -/
inductive Site.Event
  | inside (event : Lifecycle.Event)
  | started
  | send (renewer : Nat)
  | receive (renewer : Nat)
  | leave (renewer : Nat)
  | returnSlot
  | closeLoss (renewer : Nat)
  | closeDone (renewer : Nat)

/-- Where Managed.run stands when it returns: a loss has been sent. -/
def beforeExit : Option Loss → Tail
  | none => .looping
  | some _ => .sent

namespace Site

def new (policy : Policy) (record : Record) (started : Reading) : Site :=
  ⟨initial (Handle.newHandleAt policy record started), [], none⟩

variable (site : Site)

/-- The steps of a handle other than StartManaged and the exit of a renewer,
which are split; those that take the lock wait until it is free. -/
def admits : Lifecycle.Event → Bool
  | .startManaged _ _ | .exit _ => false
  | .dispatch _ _ | .reply _ _ | .wake _ _ | .resume _ => true
  | .state _ | .invoke _ _ | .finish _ _ | .renew _ _ | .lose _ _ => site.locked.isNone

def inside (event : Lifecycle.Event) : Site :=
  if site.admits event then { site with machine := site.machine.step event } else site

/-- The send blocks while the buffer is full. -/
def send (renewer : Nat) : Site :=
  match site.machine.renewers[renewer]?, site.managed[renewer]? with
  | some (.exiting (some loss)), some ⟨.looping, none, sends, returns, lossCloses, doneCloses⟩ =>
    { site with
      managed := site.managed.set renewer ⟨.sent, some loss, sends + 1, returns, lossCloses, doneCloses⟩ }
  | _, _ => site

def receive (renewer : Nat) : Site :=
  match site.managed[renewer]? with
  | some g => { site with managed := site.managed.set renewer { g with buffer := none } }
  | none => site

/-- The deferred function locks the handle and clears its flag. -/
def leave (renewer : Nat) : Site :=
  match site.locked, site.machine.renewers[renewer]?, site.managed[renewer]? with
  | none, some (.exiting loss), some g =>
    if g.tail = beforeExit loss then
      ⟨site.machine.step (.exit renewer), site.managed.set renewer { g with tail := .leaving },
        some (.leaving renewer)⟩
    else site
  | _, _, _ => site

/-- StartManaged up to its attempt to take a slot, with the lock kept if it
succeeds. -/
def startManaged (reading : Reading) (slot : Bool) : Site :=
  let result := site.machine.handle.startManaged reading slot
  if result.2 = none then { site with locked := some .starting }
  else { site with machine := { site.machine with handle := result.1 } }

/-- StartManaged sets the flag, starts the goroutine and unlocks. -/
def started : Site :=
  match site.locked with
  | some .starting =>
    ⟨⟨{ site.machine.handle with managed := true }, site.machine.calls,
        site.machine.renewers ++ [.sleeping]⟩, site.managed ++ [.new], none⟩
  | _ => site

/-- The slot is returned and the lock freed. -/
def returnSlot : Site :=
  match site.locked with
  | some (.leaving renewer) =>
    match site.managed[renewer]? with
    | some g =>
      { site with
        managed := site.managed.set renewer { g with tail := .unlocked, returns := g.returns + 1 }
        locked := none }
    | none => site
  | _ => site

def closeLoss (renewer : Nat) : Site :=
  match site.managed[renewer]? with
  | some g =>
    if g.tail = .unlocked then
      { site with
        managed := site.managed.set renewer { g with tail := .closing, lossCloses := g.lossCloses + 1 } }
    else site
  | none => site

def closeDone (renewer : Nat) : Site :=
  match site.managed[renewer]? with
  | some g =>
    if g.tail = .closing then
      { site with
        managed := site.managed.set renewer { g with tail := .ended, doneCloses := g.doneCloses + 1 } }
    else site
  | none => site

def step : Event → Site
  | .inside event => site.inside event
  | .started => site.started
  | .send renewer => site.send renewer
  | .receive renewer => site.receive renewer
  | .leave renewer => site.leave renewer
  | .returnSlot => site.returnSlot
  | .closeLoss renewer => site.closeLoss renewer
  | .closeDone renewer => site.closeDone renewer

end Site

/-- The goroutine has not yet run the locked part of its exit. -/
def running : Renewer → Bool
  | .exited _ => false
  | _ => true

def losses : Option Loss → Nat
  | none => 0
  | some _ => 1

/-- What a Managed has sent, returned and closed by the time its goroutine has
come this far. -/
def ManagedOk (renewer : Renewer) (g : Managed) : Prop :=
  match g.tail with
  | .looping => running renewer = true ∧ g = .new
  | .sent => ∃ loss, renewer = .exiting (some loss) ∧ g.sends = 1 ∧ g.returns = 0 ∧ g.lossCloses = 0 ∧
      g.doneCloses = 0
  | .leaving => ∃ loss, renewer = .exited loss ∧ g.sends = losses loss ∧ g.returns = 0 ∧
      g.lossCloses = 0 ∧ g.doneCloses = 0
  | .unlocked => ∃ loss, renewer = .exited loss ∧ g.sends = losses loss ∧ g.returns = 1 ∧
      g.lossCloses = 0 ∧ g.doneCloses = 0
  | .closing => ∃ loss, renewer = .exited loss ∧ g.sends = losses loss ∧ g.returns = 1 ∧
      g.lossCloses = 1 ∧ g.doneCloses = 0
  | .ended => ∃ loss, renewer = .exited loss ∧ g.sends = losses loss ∧ g.returns = 1 ∧
      g.lossCloses = 1 ∧ g.doneCloses = 1

structure SiteOk (site : Site) : Prop where
  length : site.managed.length = site.machine.renewers.length
  live : site.machine.renewers.countP running = if site.machine.handle.managed then 1 else 0
  locked : ∀ s, site.locked = some s → site.machine.handle.managed = false
  leaving : ∀ r, site.locked = some (.leaving r) → ∃ g, site.managed[r]? = some g ∧ g.tail = .leaving
  held : ∀ (r : Nat) g, site.managed[r]? = some g → g.tail = .leaving → site.locked = some (.leaving r)
  managed : ∀ (r : Nat) renewer g, site.machine.renewers[r]? = some renewer →
    site.managed[r]? = some g → ManagedOk renewer g
  calls : ∀ (r call : Nat), site.machine.renewers[r]? = some (.renewing call) →
    call < site.machine.calls.length

/-- The slots that a handle accounts for. -/
def Site.weight (site : Site) : Nat := site.machine.handle.managed.toNat + site.locked.isSome.toNat

/-- One step of a handle: what it takes and returns of the slots, and no channel
is closed less often than before. -/
structure Moved (taken freed : Nat) (site site' : Site) : Prop where
  ok : SiteOk site'
  weight : site'.weight + freed = site.weight + taken
  done : ∀ (r : Nat) g, site.managed[r]? = some g →
    ∃ g', site'.managed[r]? = some g' ∧ g.doneCloses ≤ g'.doneCloses

/-- Everything one step can do to a handle and its renewers, with the guards
under which it does it. -/
inductive Went (site : Site) : Site.Event → Site → Prop
  | same (event : Site.Event) : Went site event site
  | inside {e : Lifecycle.Event} (ha : site.admits e = true) :
      Went site (.inside e) { site with machine := site.machine.step e }
  | started (hl : site.locked = some .starting) :
      Went site .started
        ⟨⟨{ site.machine.handle with managed := true }, site.machine.calls,
          site.machine.renewers ++ [.sleeping]⟩, site.managed ++ [.new], none⟩
  | sent {r : Nat} {loss : Loss} {g : Managed}
      (hr : site.machine.renewers[r]? = some (.exiting (some loss)))
      (hg : site.managed[r]? = some g) (ht : g.tail = .looping) :
      Went site (.send r) { site with
        managed := site.managed.set r { g with tail := .sent, buffer := some loss, sends := g.sends + 1 } }
  | received {r : Nat} {g : Managed} (hg : site.managed[r]? = some g) :
      Went site (.receive r) { site with managed := site.managed.set r { g with buffer := none } }
  | left {r : Nat} {loss : Option Loss} {g : Managed} (hl : site.locked = none)
      (hr : site.machine.renewers[r]? = some (.exiting loss)) (hg : site.managed[r]? = some g)
      (ht : g.tail = beforeExit loss) :
      Went site (.leave r)
        ⟨site.machine.step (.exit r), site.managed.set r { g with tail := .leaving }, some (.leaving r)⟩
  | returned {r : Nat} {g : Managed} (hl : site.locked = some (.leaving r))
      (hg : site.managed[r]? = some g) :
      Went site .returnSlot { site with
        managed := site.managed.set r { g with tail := .unlocked, returns := g.returns + 1 }
        locked := none }
  | closedLoss {r : Nat} {g : Managed} (hg : site.managed[r]? = some g) (ht : g.tail = .unlocked) :
      Went site (.closeLoss r) { site with
        managed := site.managed.set r { g with tail := .closing, lossCloses := g.lossCloses + 1 } }
  | closedDone {r : Nat} {g : Managed} (hg : site.managed[r]? = some g) (ht : g.tail = .closing) :
      Went site (.closeDone r) { site with
        managed := site.managed.set r { g with tail := .ended, doneCloses := g.doneCloses + 1 } }

theorem step_went (site : Site) (event : Site.Event) : Went site event (site.step event) := by
  cases event with
  | inside e =>
      simp only [Site.step, Site.inside]
      split
      next ha => exact .inside ha
      next => exact .same _
  | started =>
      simp only [Site.step, Site.started]
      split
      next hl => exact .started hl
      next => exact .same _
  | send r =>
      simp only [Site.step, Site.send]
      split
      next hr hg => exact .sent hr hg rfl
      next => exact .same _
  | receive r =>
      simp only [Site.step, Site.receive]
      split
      next hg => exact .received hg
      next => exact .same _
  | leave r =>
      simp only [Site.step, Site.leave]
      split
      next hl hr hg =>
        split
        next ht => exact .left hl hr hg ht
        next => exact .same _
      next => exact .same _
  | returnSlot =>
      simp only [Site.step, Site.returnSlot]
      split
      next hl =>
        split
        next hg => exact .returned hl hg
        next => exact .same _
      next => exact .same _
  | closeLoss r =>
      simp only [Site.step, Site.closeLoss]
      split
      next hg =>
        split
        next ht => exact .closedLoss hg ht
        next => exact .same _
      next => exact .same _
  | closeDone r =>
      simp only [Site.step, Site.closeDone]
      split
      next hg =>
        split
        next ht => exact .closedDone hg ht
        next => exact .same _
      next => exact .same _

section Site

variable {site : Site}

theorem siteOk_new (policy : Policy) (record : Record) (started : Reading) :
    SiteOk (.new policy record started) := by
  refine ⟨rfl, rfl, nofun, nofun, ?_, ?_, ?_⟩
  · intro r g hg
    simp [Site.new] at hg
  · intro r renewer g hr
    simp [Site.new, initial] at hr
  · intro r call hr
    simp [Site.new, initial] at hr

theorem SiteOk.moved_refl (h : SiteOk site) : Moved 0 0 site site :=
  ⟨h, rfl, fun _ g hg => ⟨g, hg, Nat.le_refl _⟩⟩

theorem done_set {managed : List Managed} {r : Nat} {g g' : Managed} (hg : managed[r]? = some g)
    (hle : g.doneCloses ≤ g'.doneCloses) : ∀ (q : Nat) b, managed[q]? = some b →
      ∃ b', (managed.set r g')[q]? = some b' ∧ b.doneCloses ≤ b'.doneCloses := by
  intro q b hb
  by_cases he : r = q
  · subst he
    rw [hg] at hb
    cases hb
    exact ⟨g', getElem?_set_of_some hg g', hle⟩
  · exact ⟨b, (List.getElem?_set_ne he).trans hb, Nat.le_refl _⟩

/-- One Managed goes on; the lock stays as it is, or this one frees it. -/
theorem SiteOk.setManaged (h : SiteOk site) {r : Nat} {g g' : Managed} {locked : Option Section}
    (hg : site.managed[r]? = some g)
    (hok : ∀ renewer, site.machine.renewers[r]? = some renewer → ManagedOk renewer g →
      ManagedOk renewer g')
    (hlocked : locked = site.locked ∧ (g.tail = .leaving ↔ g'.tail = .leaving) ∨
      locked = none ∧ site.locked = some (.leaving r) ∧ g'.tail ≠ .leaving) :
    SiteOk ⟨site.machine, site.managed.set r g', locked⟩ := by
  refine ⟨?_, h.live, ?_, ?_, ?_, ?_, h.calls⟩
  · rw [List.length_set]
    exact h.length
  · rcases hlocked with ⟨rfl, _⟩ | ⟨rfl, _⟩
    · exact h.locked
    · exact nofun
  · intro q hl
    rcases hlocked with ⟨rfl, htail⟩ | ⟨rfl, _⟩
    · obtain ⟨b, hb, ht⟩ := h.leaving q hl
      by_cases he : r = q
      · subst he
        rw [hg] at hb
        cases hb
        exact ⟨g', getElem?_set_of_some hg g', htail.mp ht⟩
      · exact ⟨b, (List.getElem?_set_ne he).trans hb, ht⟩
    · cases hl
  · intro q b hb ht
    rcases getElem?_set_cases hb with ⟨rfl, rfl⟩ | ⟨hne, hb⟩
    · rcases hlocked with ⟨rfl, htail⟩ | ⟨_, _, htail⟩
      · exact h.held r g hg (htail.mpr ht)
      · exact absurd ht htail
    · have hq := h.held q b hb ht
      rcases hlocked with ⟨rfl, _⟩ | ⟨_, hr, _⟩
      · exact hq
      · rw [hr] at hq
        cases hq
        exact absurd rfl hne
  · intro q renewer b hq hb
    rcases getElem?_set_cases hb with ⟨rfl, rfl⟩ | ⟨_, hb⟩
    · exact hok renewer hq (h.managed r renewer g hq hg)
    · exact h.managed q renewer b hq hb

theorem SiteOk.goOn (h : SiteOk site) {r : Nat} {g g' : Managed} (hg : site.managed[r]? = some g)
    (hok : ∀ renewer, site.machine.renewers[r]? = some renewer → ManagedOk renewer g →
      ManagedOk renewer g')
    (htail : g.tail = .leaving ↔ g'.tail = .leaving) (hle : g.doneCloses ≤ g'.doneCloses) :
    Moved 0 0 site { site with managed := site.managed.set r g' } :=
  ⟨h.setManaged hg hok (.inl ⟨rfl, htail⟩), rfl, done_set hg hle⟩

variable {event : Lifecycle.Event}

theorem managed_step (h : site.admits event = true) :
    (site.machine.step event).handle.managed = site.machine.handle.managed := by
  cases event with
  | state reading => exact site.machine.handle.expireLocked_managed reading
  | invoke op reading => exact site.machine.handle.start_managed op reading
  | dispatch call reading =>
      simp only [Machine.step, Machine.dispatch]
      split <;> rfl
  | reply call reply =>
      simp only [Machine.step, Machine.reply]
      split <;> rfl
  | finish call reading =>
      simp only [Machine.step, Machine.finish]
      split
      next => exact site.machine.handle.finish_managed _ _ _ _ _
      next => rfl
  | wake r err =>
      simp only [Machine.step, Machine.wake]
      split <;> rfl
  | renew r reading =>
      simp only [Machine.step, Machine.renew]
      split
      next => exact site.machine.handle.start_managed .renew reading
      next => rfl
  | resume r =>
      simp only [Machine.step, Machine.resume]
      split
      next => split <;> rfl
      next => rfl
  | lose r reading =>
      simp only [Machine.step, Machine.lose]
      split
      next => exact site.machine.handle.expireLocked_managed reading
      next => rfl
  | startManaged | exit => cases h

/-- Only a goroutine still in its loop has sent and closed nothing. -/
theorem ManagedOk.looping {old new : Renewer} {g : Managed} (h : ManagedOk old g)
    (hold : ∀ loss, old ≠ .exiting loss ∧ old ≠ .exited loss) (hnew : running new = true) :
    ManagedOk new g := by
  unfold ManagedOk at h ⊢
  cases ht : g.tail with
  | looping =>
      rw [ht] at h
      exact ⟨hnew, h.2⟩
  | sent =>
      rw [ht] at h
      obtain ⟨loss, rfl, _⟩ := h
      exact absurd rfl (hold _).1
  | leaving | unlocked | closing | ended =>
      rw [ht] at h
      obtain ⟨loss, rfl, _⟩ := h
      exact absurd rfl (hold _).2

theorem turned_ok {m : Machine} {j : Nat} {old new : Renewer} (h : Turned m j event old new)
    (hexit : ∀ i, event ≠ .exit i) :
    running new = running old ∧ ∀ g, ManagedOk old g → ManagedOk new g := by
  cases h with
  | kept => exact ⟨rfl, fun _ hg => hg⟩
  | left => exact absurd rfl (hexit _)
  | woke | interrupted | began | slept | gaveUp | lost =>
      exact ⟨rfl, fun g hg => hg.looping (fun loss => ⟨nofun, nofun⟩) rfl⟩

theorem admits_ne (h : site.admits event = true) :
    (∀ i, event ≠ .exit i) ∧ ∀ reading slot, event ≠ .startManaged reading slot := by
  refine ⟨?_, ?_⟩
  · rintro i rfl
    cases h
  · rintro reading slot rfl
    cases h

theorem SiteOk.inside (h : SiteOk site) (hadmits : site.admits event = true) :
    Moved 0 0 site { site with machine := site.machine.step event } := by
  have hmanaged := managed_step hadmits
  obtain ⟨hexit, hstart⟩ := admits_ne hadmits
  have hdone : ∀ (r : Nat) g, site.managed[r]? = some g →
      ∃ g', site.managed[r]? = some g' ∧ g.doneCloses ≤ g'.doneCloses :=
    fun _ g hg => ⟨g, hg, Nat.le_refl _⟩
  have hweight : Site.weight { site with machine := site.machine.step event } + 0 =
      site.weight + 0 := by
    unfold Site.weight
    rw [hmanaged]
  have hcalls (r call : Nat) (hr : (site.machine.step event).renewers[r]? = some (.renewing call)) :
      call < (site.machine.step event).calls.length := renewing_lt event h.calls hr
  rcases renewers_cases site.machine event with he | ⟨j, old, new, hj, he, ht⟩ | ⟨reading, slot, rfl, _⟩
  · refine ⟨⟨?_, ?_, ?_, h.leaving, h.held, ?_, hcalls⟩, hweight, hdone⟩
    · rw [he]
      exact h.length
    · rw [he, hmanaged]
      exact h.live
    · rw [hmanaged]
      exact h.locked
    · rw [he]
      exact h.managed
  · obtain ⟨hrun, hok⟩ := turned_ok ht hexit
    refine ⟨⟨?_, ?_, ?_, h.leaving, h.held, ?_, hcalls⟩, hweight, hdone⟩
    · rw [he, List.length_set]
      exact h.length
    · have hcount := countP_set_add (p := running) (b := new) hj
      rw [hrun] at hcount
      rw [he, hmanaged, ← h.live]
      exact Nat.add_right_cancel hcount
    · rw [hmanaged]
      exact h.locked
    · intro r renewer g hr hg
      rw [he] at hr
      rcases getElem?_set_cases hr with ⟨rfl, rfl⟩ | ⟨_, hr⟩
      · exact hok g (h.managed j old g hj hg)
      · exact h.managed r renewer g hr hg
  · exact absurd rfl (hstart reading slot)

theorem SiteOk.started (h : SiteOk site) (hl : site.locked = some .starting) :
    Moved 0 0 site
      ⟨⟨{ site.machine.handle with managed := true }, site.machine.calls,
        site.machine.renewers ++ [.sleeping]⟩, site.managed ++ [.new], none⟩ := by
  have hm := h.locked _ hl
  refine ⟨⟨?_, ?_, nofun, nofun, ?_, ?_, ?_⟩, ?_, ?_⟩
  · rw [List.length_append, List.length_append, h.length]
    rfl
  · rw [List.countP_append, h.live, hm]
    rfl
  · intro r g hg ht
    rcases getElem?_concat hg with hg | ⟨_, rfl⟩
    · exact absurd (hl.symm.trans (h.held r g hg ht)) nofun
    · cases ht
  · intro r renewer g hr hg
    rcases getElem?_concat hr with hr | ⟨rfl, rfl⟩
    · rcases getElem?_concat hg with hg | ⟨rfl, rfl⟩
      · exact h.managed r renewer g hr hg
      · rw [h.length] at hr
        exact absurd (List.getElem?_eq_some_iff.mp hr).1 (Nat.lt_irrefl _)
    · rw [← h.length] at hg
      rcases getElem?_concat hg with hg | ⟨_, rfl⟩
      · exact absurd (List.getElem?_eq_some_iff.mp hg).1 (Nat.lt_irrefl _)
      · exact ⟨rfl, rfl⟩
  · intro r call hr
    rcases getElem?_concat hr with hr | ⟨_, he⟩
    · exact h.calls r call hr
    · cases he
  · unfold Site.weight
    rw [hm, hl]
    rfl
  · intro r g hg
    exact ⟨g, getElem?_append_of_some hg _, Nat.le_refl _⟩

/-- A handle with a goroutine that has not run its exit has its flag set. -/
theorem SiteOk.managed_of_running (h : SiteOk site) {r : Nat} {renewer : Renewer}
    (hr : site.machine.renewers[r]? = some renewer) (hrun : running renewer = true) :
    site.machine.handle.managed = true := by
  have hpos : 0 < site.machine.renewers.countP running :=
    List.countP_pos_iff.mpr ⟨renewer, List.mem_of_getElem? hr, hrun⟩
  rw [h.live] at hpos
  by_contra hm
  rw [if_neg hm] at hpos
  exact Nat.lt_irrefl 0 hpos

theorem SiteOk.left (h : SiteOk site) {r : Nat} {loss : Option Loss} {g : Managed}
    (hl : site.locked = none) (hr : site.machine.renewers[r]? = some (.exiting loss))
    (hg : site.managed[r]? = some g) (ht : g.tail = beforeExit loss) :
    Moved 0 0 site
      ⟨site.machine.step (.exit r), site.managed.set r { g with tail := .leaving }, some (.leaving r)⟩ := by
  have hm := h.managed_of_running hr rfl
  have hstep : site.machine.step (.exit r) =
      ⟨{ site.machine.handle with managed := false }, site.machine.calls,
        site.machine.renewers.set r (.exited loss)⟩ := by
    simp only [Machine.step, Machine.exit, hr]
  rw [hstep]
  have hcounts : g.sends = losses loss ∧ g.returns = 0 ∧ g.lossCloses = 0 ∧ g.doneCloses = 0 := by
    have hok := h.managed r _ g hr hg
    cases loss with
    | none =>
        rw [ManagedOk, ht] at hok
        obtain ⟨_, rfl⟩ := hok
        exact ⟨rfl, rfl, rfl, rfl⟩
    | some loss =>
        rw [ManagedOk, ht] at hok
        obtain ⟨_, _, hcounts⟩ := hok
        exact hcounts
  refine ⟨⟨?_, ?_, fun _ _ => rfl, ?_, ?_, ?_, ?_⟩, ?_, ?_⟩
  · rw [List.length_set, List.length_set]
    exact h.length
  · have hcount := countP_set_add (p := running) (b := .exited loss) hr
    rw [h.live, hm] at hcount
    exact Nat.add_right_cancel hcount
  · rintro _ ⟨⟩
    exact ⟨_, getElem?_set_of_some hg _, rfl⟩
  · intro q b hb hleaving
    rcases getElem?_set_cases hb with ⟨rfl, rfl⟩ | ⟨_, hb⟩
    · rfl
    · have hlocked := h.held q b hb hleaving
      rw [hl] at hlocked
      cases hlocked
  · intro q renewer b hq hb
    rcases getElem?_set_cases hb with ⟨rfl, rfl⟩ | ⟨hne, hb⟩
    · rw [getElem?_set_of_some hr] at hq
      cases hq
      exact ⟨loss, rfl, hcounts⟩
    · rw [List.getElem?_set_ne hne] at hq
      exact h.managed q renewer b hq hb
  · intro q call hq
    rcases getElem?_set_cases hq with ⟨_, he⟩ | ⟨_, hq⟩
    · cases he
    · exact h.calls q call hq
  · unfold Site.weight
    rw [hm, hl]
    rfl
  · exact done_set hg (Nat.le_refl _)

theorem SiteOk.startManaged (h : SiteOk site) (hfree : site.locked = none) (reading : Reading)
    (slot : Bool) :
    Moved (site.startManaged reading slot).locked.isSome.toNat 0 site (site.startManaged reading slot) := by
  have hdone : ∀ (r : Nat) g, site.managed[r]? = some g →
      ∃ g', site.managed[r]? = some g' ∧ g.doneCloses ≤ g'.doneCloses :=
    fun _ g hg => ⟨g, hg, Nat.le_refl _⟩
  unfold Site.startManaged
  dsimp only
  split
  next hstarted =>
    obtain ⟨hm, _⟩ := site.machine.handle.startManaged_ok hstarted
    have hheld : ∀ (r : Nat) g, site.managed[r]? = some g → g.tail = .leaving →
        some Section.starting = some (.leaving r) := by
      intro r g hg ht
      exact absurd (hfree.symm.trans (h.held r g hg ht)) nofun
    refine ⟨⟨h.length, h.live, fun _ _ => hm, nofun, hheld, h.managed, h.calls⟩, ?_, hdone⟩
    unfold Site.weight
    rw [hfree]
    rfl
  next hrefused =>
    have hm := site.machine.handle.startManaged_refused hrefused
    refine ⟨⟨h.length, ?_, ?_, h.leaving, h.held, h.managed, h.calls⟩, ?_, hdone⟩
    · rw [hm]
      exact h.live
    · rw [hm]
      exact h.locked
    · unfold Site.weight
      rw [hm, hfree]
      rfl

theorem returnSlot_eq {r : Nat} {g : Managed} (hl : site.locked = some (.leaving r))
    (hg : site.managed[r]? = some g) :
    site.returnSlot = { site with
      managed := site.managed.set r { g with tail := .unlocked, returns := g.returns + 1 }
      locked := none } := by
  simp only [Site.returnSlot, hl, hg]

theorem SiteOk.returned (h : SiteOk site) {r : Nat} {g : Managed}
    (hl : site.locked = some (.leaving r)) (hg : site.managed[r]? = some g) :
    Moved 0 1 site { site with
      managed := site.managed.set r { g with tail := .unlocked, returns := g.returns + 1 }
      locked := none } := by
  obtain ⟨g', hg', ht⟩ := h.leaving r hl
  rw [hg] at hg'
  cases hg'
  refine ⟨h.setManaged hg ?_ (.inr ⟨rfl, hl, nofun⟩), ?_, done_set hg (Nat.le_refl _)⟩
  · intro renewer _ hleaving
    rw [ManagedOk, ht] at hleaving
    obtain ⟨loss, rfl, hsends, hreturns, hcloses⟩ := hleaving
    exact ⟨loss, rfl, hsends, congrArg (· + 1) hreturns, hcloses⟩
  · unfold Site.weight
    rw [hl]
    rfl

theorem ManagedOk.received {renewer : Renewer} {g : Managed} (h : ManagedOk renewer g) :
    ManagedOk renewer { g with buffer := none } := by
  unfold ManagedOk at h ⊢
  cases ht : g.tail with
  | looping =>
      rw [ht] at h
      obtain ⟨hrun, rfl⟩ := h
      exact ⟨hrun, rfl⟩
  | sent | leaving | unlocked | closing | ended =>
      rw [ht] at h
      exact h

/-- Only the exit of a renewer that returns its slot changes what a handle
accounts for. -/
theorem SiteOk.moved (h : SiteOk site) {event : Site.Event} {site' : Site} (hw : Went site event site') :
    Moved 0 0 site site' ∨
      event = .returnSlot ∧ (∃ r, site.locked = some (.leaving r)) ∧ Moved 0 1 site site' := by
  cases hw with
  | same => exact .inl h.moved_refl
  | inside ha => exact .inl (h.inside ha)
  | started hl => exact .inl (h.started hl)
  | left hl hr hg ht => exact .inl (h.left hl hr hg ht)
  | returned hl hg => exact .inr ⟨rfl, ⟨_, hl⟩, h.returned hl hg⟩
  | received hg => exact .inl (h.goOn hg (fun _ _ hok => hok.received) Iff.rfl (Nat.le_refl _))
  | @sent r loss g hr hg ht =>
      refine .inl (h.goOn hg ?_ ⟨fun hl => absurd (ht.symm.trans hl) nofun, nofun⟩ (Nat.le_refl _))
      intro renewer hr' hok
      rw [hr] at hr'
      cases hr'
      rw [ManagedOk, ht] at hok
      obtain ⟨_, rfl⟩ := hok
      exact ⟨loss, rfl, rfl, rfl, rfl, rfl⟩
  | closedLoss hg ht =>
      refine .inl (h.goOn hg ?_ ⟨fun hl => absurd (ht.symm.trans hl) nofun, nofun⟩ (Nat.le_refl _))
      intro renewer _ hok
      rw [ManagedOk, ht] at hok
      obtain ⟨loss, rfl, hsends, hreturns, hloss, hdone⟩ := hok
      exact ⟨loss, rfl, hsends, hreturns, congrArg (· + 1) hloss, hdone⟩
  | closedDone hg ht =>
      refine .inl (h.goOn hg ?_ ⟨fun hl => absurd (ht.symm.trans hl) nofun, nofun⟩ (Nat.le_succ _))
      intro renewer _ hok
      rw [ManagedOk, ht] at hok
      obtain ⟨loss, rfl, hsends, hreturns, hloss, hdone⟩ := hok
      exact ⟨loss, rfl, hsends, hreturns, hloss, congrArg (· + 1) hdone⟩

theorem SiteOk.step (h : SiteOk site) (event : Site.Event) : SiteOk (site.step event) := by
  rcases h.moved (step_went site event) with hm | ⟨_, _, hm⟩
  · exact hm.ok
  · exact hm.ok

end Site

end GoLease.Capacity
