import GoLease.Lifecycle

namespace GoLease.Observation

open Lifecycle Traces

instance : LE Reading := ⟨fun r r' => r.clock ≤ r'.clock ∧ r.wall ≤ r'.wall⟩

instance (r r' : Reading) : Decidable (r ≤ r') :=
  inferInstanceAs (Decidable (r.clock ≤ r'.clock ∧ r.wall ≤ r'.wall))

theorem Reading.le_refl (r : Reading) : r ≤ r := ⟨Int.le_refl _, Int.le_refl _⟩

theorem Reading.le_trans {r r' r'' : Reading} (h : r ≤ r') (h' : r' ≤ r'') : r ≤ r'' :=
  ⟨Int.le_trans h.1 h'.1, Int.le_trans h.2 h'.2⟩

/-- The reading of the clocks at a step, if the step has one. -/
def reading? : Event → Option Reading
  | .state reading | .invoke _ reading | .dispatch _ reading | .finish _ reading
  | .startManaged reading _ | .renew _ reading | .lose _ reading => some reading
  | .reply _ _ | .wake _ _ | .resume _ | .exit _ => none

def clockAfter (now : Reading) (event : Event) : Reading := (reading? event).getD now

/-- Neither clock goes back from one step to the next. -/
def Chronological : Reading → List Event → Prop
  | _, [] => True
  | now, event :: events =>
    now ≤ clockAfter now event ∧ Chronological (clockAfter now event) events

instance decidableChronological : (now : Reading) → (events : List Event) →
    Decidable (Chronological now events)
  | _, [] => .isTrue trivial
  | now, event :: events =>
    have := decidableChronological (clockAfter now event) events
    inferInstanceAs (Decidable (now ≤ clockAfter now event ∧
      Chronological (clockAfter now event) events))

/-- A run with additional State calls at the given readings. -/
abbrev Schedule := List (Event ⊕ Reading)

def original (schedule : Schedule) : List Event := schedule.filterMap Sum.getLeft?

def watched (schedule : Schedule) : List Event := schedule.map (Sum.elim id .state)

/-- What a step hands back besides what the machine records: the result of
State and of StartManaged, and the request that reaches the backend. -/
inductive Answer
  | observed (state : State)
  | started (err : Option Error)
  | sent (request : Request)
  deriving DecidableEq, Repr

def answer (m : Machine) : Event → Option Answer
  | .state reading => some (.observed (m.handle.observe reading).state)
  | .startManaged reading slot => some (.started (m.handle.startManaged reading slot).2)
  | .dispatch call _ =>
    match m.calls[call]? with
    | some ⟨op, .reserved record⟩ => some (.sent (op.request m.handle.policy record))
    | _ => none
  | _ => none

/-- The answers to the steps of the original run. -/
def answers : Machine → Schedule → List (Option Answer)
  | _, [] => []
  | m, .inl event :: rest => answer m event :: answers (m.step event) rest
  | m, .inr reading :: rest => answers (m.step (.state reading)) rest

/-- The additional State calls of the schedule change no answer, no result of a
call, nothing about the renewers, and no result of a later State. -/
structure Unnoticed (m : Machine) (now : Reading) (schedule : Schedule) : Prop where
  answers : answers m schedule = answers m ((original schedule).map .inl)
  calls : ((watched schedule).foldl Machine.step m).calls =
    ((original schedule).foldl Machine.step m).calls
  renewers : ((watched schedule).foldl Machine.step m).renewers =
    ((original schedule).foldl Machine.step m).renewers
  states : ∀ reading, (watched schedule).foldl clockAfter now ≤ reading →
    (((watched schedule).foldl Machine.step m).handle.observe reading).state =
      (((original schedule).foldl Machine.step m).handle.observe reading).state

/-- A Release that failed does not complete on a handle that is past a deadline
and not yet marked as expired. -/
def Settled (m : Machine) : Event → Prop
  | .finish call reading => ∀ record started reply,
      m.calls[call]? = some ⟨.release, .replied record started reply⟩ → reply.err ≠ none →
      m.handle.state = .active →
      reading.clock < m.handle.deadline ∧ reading.wall < m.handle.wallDeadline
  | _ => True

def Past (now : Reading) (handle : Handle) : Prop :=
  ¬now.clock < handle.deadline ∨ ¬now.wall < handle.wallDeadline

/-- The same handle, or one whose expiry has already been noticed. -/
inductive Ahead (now : Reading) (handle : Handle) : Handle → Prop
  | same : Ahead now handle handle
  | latched (hactive : handle.state = .active) (hpast : Past now handle) :
      Ahead now handle { handle with state := .expired }

section Handle

variable {handle handle' : Handle} {now reading : Reading}

theorem Past.later (h : Past now handle) (hle : now ≤ reading) : Past reading handle := by
  obtain ⟨hclock, hwall⟩ := hle
  rcases h with h | h
  · exact .inl (by omega)
  · exact .inr (by omega)

theorem Ahead.later (h : Ahead now handle handle') (hle : now ≤ reading) : Ahead reading handle handle' := by
  cases h with
  | same => exact .same
  | latched hactive hpast => exact .latched hactive (hpast.later hle)

theorem Ahead.busy (h : Ahead now handle handle') (busy : Bool) :
    Ahead now { handle with busy } { handle' with busy } := by
  cases h with
  | same => exact .same
  | latched hactive hpast => exact .latched hactive hpast

theorem Ahead.managed (h : Ahead now handle handle') (managed : Bool) :
    Ahead now { handle with managed } { handle' with managed } := by
  cases h with
  | same => exact .same
  | latched hactive hpast => exact .latched hactive hpast

theorem Ahead.policy_eq (h : Ahead now handle handle') : handle'.policy = handle.policy := by
  cases h with
  | same | latched => rfl

/-- Whatever evaluates the expiry first makes the two handles one. -/
theorem Ahead.expire (h : Ahead now handle handle') (hle : now ≤ reading) :
    handle'.expireLocked reading = handle.expireLocked reading := by
  cases h with
  | same => rfl
  | latched hactive hpast =>
      have hp : Past reading handle := hpast.later hle
      unfold Handle.expireLocked
      rw [if_neg, if_pos ⟨hactive, hp⟩]
      rintro ⟨he, _⟩
      cases he

theorem Ahead.require (h : Ahead now handle handle') (hle : now ≤ reading) :
    handle'.requireActiveLocked reading = handle.requireActiveLocked reading := by
  simp only [Handle.requireActiveLocked, h.expire hle]

theorem Ahead.startManaged (h : Ahead now handle handle') (hle : now ≤ reading) (slot : Bool) :
    handle'.startManaged reading slot = handle.startManaged reading slot := by
  simp only [Handle.startManaged, h.require hle]

theorem beginRelease_of_open (handle : Handle)
    (hopen : handle.state = .active ∨ handle.state = .expired) :
    handle.beginRelease =
      if handle.busy then (handle, .returned (some (wrap .errInvalidState "handle operation")))
      else ({ handle with busy := true }, .reserved handle.record) := by
  rcases hopen with h | h <;> simp [Handle.beginRelease, h]

theorem Ahead.start (h : Ahead now handle handle') (hle : now ≤ reading) (op : Op) :
    (handle'.start op reading).2 = (handle.start op reading).2 ∧
      Ahead now (handle.start op reading).1 (handle'.start op reading).1 := by
  cases op with
  | renew | validate =>
      simp only [Handle.start, Handle.beginActiveOperation, h.require hle]
      exact ⟨trivial, .same⟩
  | release =>
      cases h with
      | same => exact ⟨rfl, .same⟩
      | latched hactive hpast =>
          -- Release reserves an active and an expired handle alike.
          have hopen := beginRelease_of_open handle (.inl hactive)
          have hopen' := beginRelease_of_open { handle with state := .expired } (.inr rfl)
          simp only [Handle.start, hopen, hopen']
          split
          next => exact ⟨rfl, .latched hactive hpast⟩
          next => exact ⟨rfl, .latched hactive hpast⟩

theorem Ahead.finish (h : Ahead now handle handle') (hle : now ≤ reading) {record : Record}
    {started : Reading} {reply : Reply} (op : Op)
    (hsettled : op = .release → reply.err ≠ none → handle.state = .active →
      reading.clock < handle.deadline ∧ reading.wall < handle.wallDeadline) :
    handle'.finish reading record started reply op = handle.finish reading record started reply op := by
  cases op with
  | renew =>
      unfold Handle.finish Handle.finishActiveOperation
      rw [(h.busy false).expire hle, h.policy_eq]
  | validate =>
      unfold Handle.finish Handle.finishActiveOperation
      rw [(h.busy false).expire hle]
  | release =>
      cases h with
      | same => rfl
      | latched hactive hpast =>
          simp only [Handle.finish, Handle.finishRelease, Handle.replyErr]
          cases he : reply.err with
          | none => rfl
          | some err =>
              have hs := hsettled rfl (by rw [he]; simp) hactive
              rcases hpast.later hle with hp | hp
              · exact absurd hs.1 hp
              · exact absurd hs.2 hp

end Handle

/-- The steps of a call and of a renewer that do not lock the handle. -/
def unlocked : Event → Bool
  | .dispatch .. | .reply .. | .wake .. | .resume _ => true
  | _ => false

theorem step_unlocked (m : Machine) (handle' : Handle) {event : Event} (h : unlocked event = true) :
    ({ m with handle := handle' } : Machine).step event = { m.step event with handle := handle' } ∧
      (m.step event).handle = m.handle := by
  cases event with
  | dispatch call reading =>
      simp only [Machine.step, Machine.dispatch]
      split <;> exact ⟨rfl, rfl⟩
  | reply call reply =>
      simp only [Machine.step, Machine.reply]
      split <;> exact ⟨rfl, rfl⟩
  | wake renewer err =>
      simp only [Machine.step, Machine.wake]
      split <;> exact ⟨rfl, rfl⟩
  | resume renewer =>
      simp only [Machine.step, Machine.resume]
      split
      next => split <;> exact ⟨rfl, rfl⟩
      next => exact ⟨rfl, rfl⟩
  | state | invoke | finish | startManaged | renew | lose | exit => cases h

theorem Ahead.unlocked {now : Reading} {m : Machine} {handle' : Handle} (h : Ahead now m.handle handle')
    {event : Event} (he : Observation.unlocked event = true) (hle : now ≤ clockAfter now event) :
    ∃ handle'', ({ m with handle := handle' } : Machine).step event =
        { m.step event with handle := handle'' } ∧
      Ahead (clockAfter now event) (m.step event).handle handle'' := by
  obtain ⟨hstep, hhandle⟩ := step_unlocked m handle' he
  refine ⟨handle', hstep, ?_⟩
  rw [hhandle]
  exact h.later hle

/-- One step keeps two machines together whose handles differ at most in that
an expiry has been noticed, and answers them alike. -/
theorem Ahead.step {now : Reading} {m : Machine} {handle' : Handle} (h : Ahead now m.handle handle')
    {event : Event} (hle : now ≤ clockAfter now event) (hs : Settled m event) :
    ∃ handle'', ({ m with handle := handle' } : Machine).step event =
        { m.step event with handle := handle'' } ∧
      Ahead (clockAfter now event) (m.step event).handle handle'' ∧
      answer { m with handle := handle' } event = answer m event := by
  cases event with
  | state reading =>
      have hle : now ≤ reading := hle
      refine ⟨m.handle.observe reading, ?_, .same, ?_⟩
      · simp only [Machine.step, Handle.observe, h.expire hle]
      · simp only [answer, Handle.observe, h.expire hle]
  | invoke op reading =>
      have hle : now ≤ reading := hle
      obtain ⟨hadmission, hahead⟩ := h.start hle op
      refine ⟨(handle'.start op reading).1, ?_, hahead.later hle, rfl⟩
      simp only [Machine.step, Machine.invoke, hadmission]
  | dispatch call reading =>
      obtain ⟨handle'', hstep, hahead⟩ := h.unlocked rfl hle
      exact ⟨handle'', hstep, hahead, by simp only [answer, h.policy_eq]⟩
  | reply | wake | resume =>
      obtain ⟨handle'', hstep, hahead⟩ := h.unlocked rfl hle
      exact ⟨handle'', hstep, hahead, rfl⟩
  | finish call reading =>
      have hle : now ≤ reading := hle
      simp only [Machine.step, Machine.finish]
      split
      next op record started reply hc =>
        have hf := @Ahead.finish _ _ _ _ h hle record started reply op
          (fun hop he ha => hs record started reply (hop ▸ hc) he ha)
        exact ⟨_, by rw [hf], .same, rfl⟩
      next => exact ⟨handle', rfl, h.later hle, rfl⟩
  | startManaged reading slot =>
      have hle : now ≤ reading := hle
      refine ⟨(m.handle.startManaged reading slot).1, ?_, .same, ?_⟩
      · simp only [Machine.step, Machine.startManaged, h.startManaged hle]
      · simp only [answer, h.startManaged hle]
  | renew renewer reading =>
      have hle : now ≤ reading := hle
      simp only [Machine.step, Machine.renew]
      split
      next =>
        obtain ⟨hadmission, hahead⟩ := h.start hle .renew
        refine ⟨(handle'.start .renew reading).1, ?_, hahead.later hle, rfl⟩
        simp only [Machine.invoke, hadmission]
      next => exact ⟨handle', rfl, h.later hle, rfl⟩
  | lose renewer reading =>
      have hle : now ≤ reading := hle
      simp only [Machine.step, Machine.lose]
      split
      next =>
        refine ⟨m.handle.observe reading, ?_, .same, rfl⟩
        simp only [Handle.observe, h.expire hle]
      next => exact ⟨handle', rfl, h.later hle, rfl⟩
  | exit renewer =>
      simp only [Machine.step, Machine.exit]
      split
      next => exact ⟨{ handle' with managed := false }, rfl, h.managed false, rfl⟩
      next => exact ⟨handle', rfl, h, rfl⟩

/-- An additional State call can only notice an expiry. -/
theorem Ahead.observe {now reading : Reading} {handle handle' : Handle} (h : Ahead now handle handle')
    (hle : now ≤ reading) : Ahead reading handle (handle'.observe reading) := by
  rw [Handle.observe, h.expire hle]
  unfold Handle.expireLocked
  split
  next hp => exact .latched hp.1 hp.2
  next => exact .same

/-- The machine with the additional calls stays beside the one without, answer
by answer. -/
theorem Ahead.run {schedule : Schedule} {now : Reading} {m : Machine} {handle' : Handle}
    (h : Ahead now m.handle handle') (hclock : Chronological now (watched schedule))
    (hs : Along Machine.step Settled m (original schedule)) :
    ∃ handle'', (watched schedule).foldl Machine.step { m with handle := handle' } =
        { (original schedule).foldl Machine.step m with handle := handle'' } ∧
      Ahead ((watched schedule).foldl clockAfter now)
        ((original schedule).foldl Machine.step m).handle handle'' ∧
      answers { m with handle := handle' } schedule = answers m ((original schedule).map .inl) := by
  induction schedule generalizing now m handle' with
  | nil => exact ⟨handle', rfl, h, rfl⟩
  | cons entry schedule ih =>
      cases entry with
      | inl event =>
          obtain ⟨handle₁, hstep, hahead, hanswer⟩ := h.step hclock.1 hs.1
          obtain ⟨handle₂, hrun, hahead', hanswers⟩ := ih hahead hclock.2 hs.2
          refine ⟨handle₂, ?_, hahead', ?_⟩
          · rw [← hstep] at hrun
            exact hrun
          · rw [← hstep] at hanswers
            exact congrArg₂ List.cons hanswer hanswers
      | inr reading => exact ih (h.observe hclock.1) hclock.2 hs

theorem inserted_at (before : List Event) (event : Event) (after : List Event) (reading : Reading) :
    let schedule := before.map .inl ++ .inr reading :: .inl event :: after.map .inl
    original schedule = before ++ event :: after ∧
      watched schedule = before ++ .state reading :: event :: after := by
  constructor
  · simp [original, List.filterMap_append, List.filterMap_cons, List.filterMap_map, Function.comp_def]
  · simp [watched, Function.comp_def]

theorem chronological_append {now : Reading} {events later : List Event} :
    Chronological now (events ++ later) ↔
      Chronological now events ∧ Chronological (events.foldl clockAfter now) later := by
  induction events generalizing now with
  | nil => simp [Chronological]
  | cons event events ih => simp [Chronological, ih, and_assoc]

theorem observe_of_closed {handle : Handle} (h : handle.state ≠ .active) (reading : Reading) :
    handle.observe reading = handle := by
  unfold Handle.observe Handle.expireLocked
  rw [if_neg]
  intro hp
  exact h hp.1

section Necessity

variable {m : Machine} {call : Nat} {reading started : Reading} {record : Record} {reply : Reply}

/-- Without a State call the failure of a late Release is taken for a loss or
for an uncertain outcome. -/
theorem late_failure_unobserved
    (hc : m.calls[call]? = some ⟨.release, .replied record started reply⟩) (herr : reply.err ≠ none)
    (hactive : m.handle.state = .active) :
    (m.step (.finish call reading)).handle.state = .lost ∨
      (m.step (.finish call reading)).handle.state = .uncertain := by
  obtain ⟨err, he⟩ := Option.ne_none_iff_exists'.mp herr
  simp only [Machine.step, Machine.finish, hc, Handle.finish, Handle.finishRelease, Handle.replyErr, he]
  obtain ⟨state, hne, hf, hedge⟩ := ({ m.handle with busy := false } : Handle).failLocked_eq err
  rw [hf]
  rcases hedge with hs | ⟨_, hs⟩
  · exact absurd (hs.trans hactive) hne
  · exact hs

/-- With one it leaves the handle expired, as documented. -/
theorem late_failure_observed
    (hc : m.calls[call]? = some ⟨.release, .replied record started reply⟩) (herr : reply.err ≠ none)
    (hactive : m.handle.state = .active) (hpast : Past reading m.handle) :
    ((m.step (.state reading)).step (.finish call reading)).handle.state = .expired := by
  obtain ⟨err, he⟩ := Option.ne_none_iff_exists'.mp herr
  have ho : m.step (.state reading) = { m with handle := { m.handle with state := .expired } } := by
    simp only [Machine.step, Handle.observe, Handle.expireLocked]
    rw [if_pos ⟨hactive, hpast⟩]
  rw [ho]
  simp only [Machine.step, Machine.finish, hc, Handle.finish, Handle.finishRelease, Handle.replyErr, he]
  unfold Handle.failLocked
  rw [if_pos]
  intro hf
  cases hf

theorem noticed_of_late_failure (h : Inv m)
    (hc : m.calls[call]? = some ⟨.release, .replied record started reply⟩) (herr : reply.err ≠ none)
    (hactive : m.handle.state = .active) (hpast : Past reading m.handle) (after : List Event)
    (last : Reading) :
    ((after.foldl Machine.step ((m.step (.state reading)).step (.finish call reading))).handle.observe
        last).state ≠
      ((after.foldl Machine.step (m.step (.finish call reading))).handle.observe last).state := by
  have hquiet := ((h.step (.finish call reading)).run_closed
    (S := fun s => s = .lost ∨ s = .uncertain) (late_failure_unobserved hc herr hactive) (by
      rintro s s' (rfl | rfl) he <;> cases he) after).2
  have hwatched := (((h.step (.state reading)).step (.finish call reading)).run_closed
    (S := fun s => s = .expired ∨ s = .released)
    (.inl (late_failure_observed hc herr hactive hpast)) (by
      rintro s s' (rfl | rfl) he <;> cases he
      exact .inr rfl) after).2
  rw [observe_of_closed (by rcases hwatched with hs | hs <;> rw [hs] <;> decide),
    observe_of_closed (by rcases hquiet with hs | hs <;> rw [hs] <;> decide)]
  rcases hwatched with hs | hs <;> rcases hquiet with hs' | hs' <;> rw [hs, hs'] <;> decide

end Necessity

/-- State is a pure observation of exactly those runs in which no failed
Release completes past a deadline that nothing has noticed. -/
theorem state_pure_iff (policy : Policy) (record : Record) (started : Reading) (events : List Event)
    (hclock : Chronological started events) :
    (∀ schedule, original schedule = events → Chronological started (watched schedule) →
      Unnoticed (initial (Handle.newHandleAt policy record started)) started schedule) ↔
    Along Machine.step Settled (initial (Handle.newHandleAt policy record started)) events := by
  constructor
  · intro hpure
    by_contra hs
    obtain ⟨before, event, after, rfl, hbad⟩ := exists_of_not_along hs
    cases event with
    | finish call reading =>
        simp only [Settled, not_forall] at hbad
        obtain ⟨sent, dispatched, reply, hc, herr, hactive, hpast⟩ := hbad
        rw [not_and_or] at hpast
        obtain ⟨hbefore, hle, hafter⟩ := chronological_append.mp hclock
        -- The offending State call comes right before the Release completes.
        obtain ⟨ho, hw⟩ := inserted_at before (.finish call reading) after reading
        have hchron : Chronological started
            (before ++ .state reading :: .finish call reading :: after) :=
          chronological_append.mpr ⟨hbefore, hle, Reading.le_refl _, hafter⟩
        have hu := hpure _ ho (hw ▸ hchron)
        have hinv := invariant_rule (inv_initial policy record started) (fun _ e hi => hi.step e) before
        have hstates := hu.states _ (Reading.le_refl _)
        simp only [ho, hw, List.foldl_append] at hstates
        exact noticed_of_late_failure hinv hc herr hactive hpast after _ hstates
    | state | invoke | dispatch | reply | startManaged | wake | renew | resume | lose | exit =>
        exact absurd trivial hbad
  · rintro hs schedule rfl hchron
    obtain ⟨handle, hrun, hahead, hanswers⟩ := Ahead.run .same hchron hs
    have hrun : (watched schedule).foldl Machine.step
      (initial (Handle.newHandleAt policy record started)) = _ := hrun
    refine ⟨hanswers, ?_, ?_, ?_⟩
    · rw [hrun]
    · rw [hrun]
    · intro reading hle
      rw [hrun]
      exact congrArg Handle.state (hahead.expire hle)

def held : Machine := initial (Handle.newHandleAt Policy.renewable.1 firstGrant ⟨0, 0⟩)

/-- A Release sent before the safety deadline and answered after it. -/
def lateRelease (reply : Reply) : List Event :=
  [.invoke .release ⟨800, 800⟩, .dispatch 0 ⟨800, 800⟩, .reply 0 reply, .finish 0 ⟨960, 960⟩]

def watchedRelease (reply : Reply) : Schedule :=
  [.inl (.invoke .release ⟨800, 800⟩), .inl (.dispatch 0 ⟨800, 800⟩), .inl (.reply 0 reply),
    .inr ⟨950, 950⟩, .inl (.finish 0 ⟨960, 960⟩)]

def unavailable : Reply := .ofErr (some (wrap .errBackendUnavailable "release"))

/-- The handle ends uncertain, and refuses another Release, unless State was
called between the deadline and the failure: then it ends expired. -/
theorem state_changes_failed_release :
    ((lateRelease unavailable).foldl Machine.step held).handle.state = .uncertain ∧
      ((watched (watchedRelease unavailable)).foldl Machine.step held).handle.state = .expired ∧
      original (watchedRelease unavailable) = lateRelease unavailable ∧
      Chronological ⟨0, 0⟩ (watched (watchedRelease unavailable)) ∧
      ¬Unnoticed held ⟨0, 0⟩ (watchedRelease unavailable) := by
  refine ⟨by decide, by decide, by decide, by decide, ?_⟩
  intro h
  have hs := h.states ⟨960, 960⟩ (by decide)
  revert hs
  decide

/-- The same Release acknowledged: the State call goes unnoticed. -/
theorem state_pure_acknowledged_release :
    Unnoticed held ⟨0, 0⟩ (watchedRelease (.ofErr none)) := by
  refine (state_pure_iff Policy.renewable.1 _ ⟨0, 0⟩ (lateRelease (.ofErr none)) (by decide)).mpr ?_ _ rfl
    (by decide)
  simp only [lateRelease, Along, Settled, and_true, true_and]
  rintro _ _ _ ⟨⟩ herr
  exact absurd rfl herr

end GoLease.Observation
