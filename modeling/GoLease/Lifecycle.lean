import GoLease.Handle
import GoLease.Pool
import GoLease.Traces

namespace GoLease.Lifecycle

/-- Where a call of Renew, Validate or Release stands. Between the two locked
sections the call holds the record it sends and, once it has read the clocks
and called the backend, those readings. -/
inductive Stage
  | reserved (record : Record)
  | dispatched (record : Record) (started : Reading)
  | replied (record : Record) (started : Reading) (reply : Reply)
  | returned (err : Option Error)
  deriving DecidableEq, Repr

structure Invocation where
  op : Op
  stage : Stage
  deriving DecidableEq, Repr

def Invocation.inFlight (call : Invocation) : Bool :=
  match call.stage with
  | .returned _ => false
  | _ => true

structure Loss where
  observedAt : Int
  state : State
  err : Error
  deriving DecidableEq, Repr

/-- The goroutine of Managed.run. Its Renew is one of the handle's calls. -/
inductive Renewer
  | sleeping
  | awake
  | renewing (call : Nat)
  | failed (err : Error)
  | exiting (loss : Option Loss)
  | exited (loss : Option Loss)
  deriving DecidableEq, Repr

/-- One handle, every call ever made on it, and the renewers started for it. -/
structure Machine where
  handle : Handle
  calls : List Invocation
  renewers : List Renewer
  deriving DecidableEq, Repr

/-- The atomic steps of the goroutines that use a handle. The environment
chooses the clock readings, the replies and the results of the sleeper. -/
inductive Event
  | state (reading : Reading)
  | invoke (op : Op) (reading : Reading)
  | dispatch (call : Nat) (reading : Reading)
  | reply (call : Nat) (reply : Reply)
  | finish (call : Nat) (reading : Reading)
  | startManaged (reading : Reading) (slot : Bool)
  | wake (renewer : Nat) (err : Option Error)
  | renew (renewer : Nat) (reading : Reading)
  | resume (renewer : Nat)
  | lose (renewer : Nat) (reading : Reading)
  | exit (renewer : Nat)
  deriving DecidableEq, Repr

def Stage.ofAdmission : Admission → Stage
  | .returned err => .returned err
  | .reserved record => .reserved record

def initial (handle : Handle) : Machine := ⟨handle, [], []⟩

namespace Machine

variable (m : Machine)

/-- The first locked section of a call; it joins the list of calls. -/
def invoke (op : Op) (reading : Reading) : Machine :=
  { m with
    handle := (m.handle.start op reading).1
    calls := m.calls ++ [⟨op, .ofAdmission (m.handle.start op reading).2⟩] }

def dispatch (call : Nat) (reading : Reading) : Machine :=
  match m.calls[call]? with
  | some ⟨op, .reserved record⟩ =>
    { m with calls := m.calls.set call ⟨op, .dispatched record reading⟩ }
  | _ => m

def reply (call : Nat) (reply : Reply) : Machine :=
  match m.calls[call]? with
  | some ⟨op, .dispatched record started⟩ =>
    { m with calls := m.calls.set call ⟨op, .replied record started reply⟩ }
  | _ => m

/-- The last locked section of a call that has its reply. -/
def finish (call : Nat) (reading : Reading) : Machine :=
  match m.calls[call]? with
  | some ⟨op, .replied record started reply⟩ =>
    let result := m.handle.finish reading record started reply op
    { m with handle := result.1, calls := m.calls.set call ⟨op, .returned result.2⟩ }
  | _ => m

def startManaged (reading : Reading) (slot : Bool) : Machine :=
  let result := m.handle.startManaged reading slot
  { m with
    handle := result.1
    renewers := if result.2 = none then m.renewers ++ [.sleeping] else m.renewers }

/-- The sleeper returns: an error ends the loop without a loss. -/
def wake (renewer : Nat) (err : Option Error) : Machine :=
  match m.renewers[renewer]? with
  | some .sleeping =>
    { m with renewers := m.renewers.set renewer (if err = none then .awake else .exiting none) }
  | _ => m

def renew (renewer : Nat) (reading : Reading) : Machine :=
  match m.renewers[renewer]? with
  | some .awake =>
    { m.invoke .renew reading with
      renewers := m.renewers.set renewer (.renewing m.calls.length) }
  | _ => m

/-- The renewer's own Renew has returned to its loop. -/
def resume (renewer : Nat) : Machine :=
  match m.renewers[renewer]? with
  | some (.renewing call) =>
    match m.calls[call]? with
    | some ⟨_, .returned none⟩ => { m with renewers := m.renewers.set renewer .sleeping }
    | some ⟨_, .returned (some err)⟩ => { m with renewers := m.renewers.set renewer (.failed err) }
    | _ => m
  | _ => m

/-- The loss is built, which evaluates State, and sent. -/
def lose (renewer : Nat) (reading : Reading) : Machine :=
  match m.renewers[renewer]? with
  | some (.failed err) =>
    let handle := m.handle.observe reading
    { m with
      handle
      renewers := m.renewers.set renewer (.exiting (some ⟨reading.clock, handle.state, err⟩)) }
  | _ => m

/-- The deferred exit of the renewer returns its slot. -/
def exit (renewer : Nat) : Machine :=
  match m.renewers[renewer]? with
  | some (.exiting loss) =>
    { m with
      handle := { m.handle with managed := false }
      renewers := m.renewers.set renewer (.exited loss) }
  | _ => m

def step : Event → Machine
  | .state reading => { m with handle := m.handle.observe reading }
  | .invoke op reading => m.invoke op reading
  | .dispatch call reading => m.dispatch call reading
  | .reply call reply => m.reply call reply
  | .finish call reading => m.finish call reading
  | .startManaged reading slot => m.startManaged reading slot
  | .wake renewer err => m.wake renewer err
  | .renew renewer reading => m.renew renewer reading
  | .resume renewer => m.resume renewer
  | .lose renewer reading => m.lose renewer reading
  | .exit renewer => m.exit renewer

end Machine

open Traces Pool

/-- The transitions of the documented local handle. -/
inductive Edge : State → State → Prop
  | expire : Edge .active .expired
  | lose : Edge .active .lost
  | doubt : Edge .active .uncertain
  | release : Edge .active .released
  | cleanup : Edge .expired .released

theorem edge_closes {state state' : State} (h : Edge state state') : state' ≠ .active := by
  rintro rfl
  cases h

structure Inv (m : Machine) : Prop where
  reserved : m.calls.countP Invocation.inFlight = if m.handle.busy then 1 else 0
  opened : m.handle.busy = true → m.handle.state = .active ∨ m.handle.state = .expired
  acknowledged : ∀ call ∈ m.calls, call.op = .release → call.stage = .returned none →
    m.handle.state = .released

theorem inv_initial (policy : Policy) (record : Record) (started : Reading) :
    Inv (initial (Handle.newHandleAt policy record started)) := by
  refine ⟨rfl, ?_, ?_⟩
  · intro h
    cases h
  · intro call hc
    cases hc

/-- The locked sections that reserve nothing: they may close an active handle
and they may change the managed flag. -/
def Idles (handle handle' : Handle) : Prop :=
  ∃ state managed, handle' = { handle with state, managed } ∧
    (state = handle.state ∨ handle.state = .active ∧ state = .expired)

theorem Idles.refl (handle : Handle) : Idles handle handle := ⟨_, _, rfl, .inl rfl⟩

theorem idles_managed (handle : Handle) (managed : Bool) : Idles handle { handle with managed } :=
  ⟨_, _, rfl, .inl rfl⟩

theorem idles_expireLocked (handle : Handle) (reading : Reading) :
    Idles handle (handle.expireLocked reading) := by
  rcases handle.expireLocked_eq reading with he | ⟨hactive, he⟩
  · rw [he]
    exact .refl handle
  · rw [he]
    exact ⟨_, _, rfl, .inr ⟨hactive, rfl⟩⟩

theorem idles_startManaged (handle : Handle) (reading : Reading) (slot : Bool) :
    Idles handle (handle.startManaged reading slot).1 := by
  rcases handle.startManaged_eq reading slot with he | he | he
  · rw [he]
    exact idles_expireLocked handle reading
  · rw [he]
    exact .refl handle
  · rw [he]
    exact idles_managed handle true

/-- Everything one step can do to the handle and its calls, with the guards
under which it does it. -/
inductive Stepped (m : Machine) : Event → Machine → Prop
  | idle (event : Event) {handle : Handle} (hi : Idles m.handle handle) (renewers : List Renewer) :
      Stepped m event { m with handle, renewers }
  | invoked (event : Event) {op : Op} {reading : Reading} {handle : Handle} {admission : Admission}
      (hs : m.handle.Started reading op handle admission) (renewers : List Renewer) :
      Stepped m event ⟨handle, m.calls ++ [⟨op, .ofAdmission admission⟩], renewers⟩
  | dispatched {call : Nat} {op : Op} {record : Record} (reading : Reading)
      (hc : m.calls[call]? = some ⟨op, .reserved record⟩) :
      Stepped m (.dispatch call reading)
        { m with calls := m.calls.set call ⟨op, .dispatched record reading⟩ }
  | replied {call : Nat} {op : Op} {record : Record} {started : Reading} (reply : Reply)
      (hc : m.calls[call]? = some ⟨op, .dispatched record started⟩) :
      Stepped m (.reply call reply)
        { m with calls := m.calls.set call ⟨op, .replied record started reply⟩ }
  | finished {call : Nat} {op : Op} {record : Record} {started reading : Reading} {reply : Reply}
      {handle : Handle} {err : Option Error}
      (hc : m.calls[call]? = some ⟨op, .replied record started reply⟩)
      (hf : m.handle.Finished reading record started reply op handle err) :
      Stepped m (.finish call reading)
        { m with handle, calls := m.calls.set call ⟨op, .returned err⟩ }

variable {m : Machine}

theorem step_stepped (m : Machine) (event : Event) : Stepped m event (m.step event) := by
  have hsame (event : Event) (renewers : List Renewer) : Stepped m event { m with renewers } :=
    .idle event (.refl m.handle) renewers
  cases event with
  | state reading => exact .idle _ (idles_expireLocked m.handle reading) m.renewers
  | invoke op reading => exact .invoked _ (m.handle.start_started op reading) m.renewers
  | dispatch call reading =>
      simp only [Machine.step, Machine.dispatch]
      split
      next hc => exact .dispatched reading hc
      next => exact hsame _ _
  | reply call reply =>
      simp only [Machine.step, Machine.reply]
      split
      next hc => exact .replied reply hc
      next => exact hsame _ _
  | finish call reading =>
      simp only [Machine.step, Machine.finish]
      split
      next hc => exact .finished hc (m.handle.finish_finished _ _ _ _ _)
      next => exact hsame _ _
  | startManaged reading slot => exact .idle _ (idles_startManaged m.handle reading slot) _
  | wake renewer err =>
      simp only [Machine.step, Machine.wake]
      split
      next => exact hsame _ _
      next => exact hsame _ _
  | renew renewer reading =>
      simp only [Machine.step, Machine.renew]
      split
      next => exact .invoked _ (m.handle.start_started .renew reading) _
      next => exact hsame _ _
  | resume renewer =>
      simp only [Machine.step, Machine.resume]
      split
      next => split <;> exact hsame _ _
      next => exact hsame _ _
  | lose renewer reading =>
      simp only [Machine.step, Machine.lose]
      split
      next => exact .idle _ (idles_expireLocked m.handle reading) _
      next => exact hsame _ _
  | exit renewer =>
      simp only [Machine.step, Machine.exit]
      split
      next => exact .idle _ (idles_managed m.handle false) _
      next => exact hsame _ _

theorem Inv.idle (h : Inv m) {handle : Handle} (hi : Idles m.handle handle) (renewers : List Renewer) :
    Inv { m with handle, renewers } := by
  obtain ⟨state, managed, rfl, hstate⟩ := hi
  refine ⟨h.reserved, ?_, ?_⟩
  · intro hb
    rcases hstate with hs | ⟨_, hs⟩
    · rw [hs]
      exact h.opened hb
    · exact .inr hs
  · intro call hc hop hst
    have hr := h.acknowledged call hc hop hst
    rcases hstate with hs | ⟨hs, _⟩
    · exact hs.trans hr
    · rw [hr] at hs
      cases hs

theorem Inv.invoked (h : Inv m) {op : Op} {reading : Reading} {handle : Handle}
    {admission : Admission} (hs : m.handle.Started reading op handle admission)
    (renewers : List Renewer) :
    Inv ⟨handle, m.calls ++ [⟨op, .ofAdmission admission⟩], renewers⟩ := by
  have hcount (stage : Stage) : (m.calls ++ [(⟨op, stage⟩ : Invocation)]).countP Invocation.inFlight =
      (if m.handle.busy then 1 else 0) + (if Invocation.inFlight ⟨op, stage⟩ then 1 else 0) := by
    rw [List.countP_append, h.reserved, List.countP_singleton]
  cases hs with
  | refused op err =>
      refine ⟨hcount _, h.opened, forall_mem_append h.acknowledged ?_⟩
      intro _ hst
      cases hst
  | expired op err hop =>
      have hi := h.idle (idles_expireLocked m.handle reading) m.renewers
      refine ⟨?_, hi.opened, forall_mem_append hi.acknowledged ?_⟩
      · rw [hcount, ← h.reserved]
        exact hi.reserved
      · intro hr
        exact absurd hr hop
  | already hr =>
      refine ⟨hcount _, h.opened, forall_mem_append h.acknowledged ?_⟩
      intro _ _
      exact hr
  | admitted op hop hbusy hactive hclock hwall =>
      refine ⟨by rw [hcount, hbusy]; rfl, fun _ => .inl hactive, forall_mem_append h.acknowledged ?_⟩
      intro _ hst
      cases hst
  | releasing hbusy hopen =>
      refine ⟨by rw [hcount, hbusy]; rfl, fun _ => hopen, forall_mem_append h.acknowledged ?_⟩
      intro _ hst
      cases hst

theorem Inv.advance (h : Inv m) {call : Nat} {op : Op} {stage stage' : Stage}
    (hc : m.calls[call]? = some ⟨op, stage⟩) (hs : Invocation.inFlight ⟨op, stage⟩ = true)
    (hs' : Invocation.inFlight ⟨op, stage'⟩ = true) :
    Inv { m with calls := m.calls.set call ⟨op, stage'⟩ } := by
  refine ⟨?_, h.opened, forall_mem_set h.acknowledged ?_⟩
  · have hset := countP_set_add (p := Invocation.inFlight) (b := ⟨op, stage'⟩) hc
    rw [hs, hs'] at hset
    rw [← h.reserved]
    exact Nat.add_right_cancel hset
  · intro _ hst
    simp only at hst
    rw [hst] at hs'
    cases hs'

theorem Inv.busy_of_inFlight (h : Inv m) {call : Nat} {inv : Invocation}
    (hc : m.calls[call]? = some inv) (hs : inv.inFlight = true) : m.handle.busy = true := by
  have hpos : 0 < m.calls.countP Invocation.inFlight :=
    List.countP_pos_iff.mpr ⟨inv, List.mem_of_getElem? hc, hs⟩
  rw [h.reserved] at hpos
  by_contra hb
  rw [if_neg hb] at hpos
  exact Nat.lt_irrefl 0 hpos

/-- No two calls are in flight at once. -/
theorem Inv.inFlight_unique (h : Inv m) {call other : Nat} {a b : Invocation}
    (hc : m.calls[call]? = some a) (ha : a.inFlight = true) (ho : m.calls[other]? = some b)
    (hb : b.inFlight = true) : other = call := by
  by_contra hne
  have hset := countP_set_add (p := Invocation.inFlight) (b := ⟨a.op, .returned none⟩) hc
  rw [h.reserved, h.busy_of_inFlight hc ha, ha] at hset
  have hzero := List.countP_eq_zero.mp (Nat.add_right_cancel hset)
  have hmem : b ∈ m.calls.set call ⟨a.op, .returned none⟩ :=
    List.mem_of_getElem? ((List.getElem?_set_ne (Ne.symm hne)).trans ho)
  exact hzero b hmem hb

theorem Inv.finished (h : Inv m) {call : Nat} {op : Op} {record : Record} {started reading : Reading}
    {reply : Reply} {handle : Handle} {err : Option Error}
    (hc : m.calls[call]? = some ⟨op, .replied record started reply⟩)
    (hf : m.handle.Finished reading record started reply op handle err) :
    Inv { m with handle, calls := m.calls.set call ⟨op, .returned err⟩ } := by
  have hbusy := h.busy_of_inFlight hc rfl
  have hcount : (m.calls.set call ⟨op, .returned err⟩).countP Invocation.inFlight = 0 := by
    have hset := countP_set_add (p := Invocation.inFlight) (b := ⟨op, .returned err⟩) hc
    rw [h.reserved, hbusy] at hset
    exact Nat.add_right_cancel hset
  have hopen := h.opened hbusy
  -- While a call is in flight no release has been acknowledged.
  have hold (c : Invocation) (hm : c ∈ m.calls) (hop : c.op = .release)
      (hst : c.stage = .returned none) : handle.state = .released := by
    have hr := h.acknowledged c hm hop hst
    rw [hr] at hopen
    simp at hopen
  have hfree (hb : false = true) : handle.state = .active ∨ handle.state = .expired := by cases hb
  cases hf with
  | closed op state err hstate hedge =>
      refine ⟨hcount, hfree, forall_mem_set hold ?_⟩
      intro _ hst
      cases hst
  | renewed hreply hsame hactive hclock hwall hzero =>
      refine ⟨hcount, hfree, forall_mem_set hold ?_⟩
      intro hop
      cases hop
  | confirmed op hop hreply hsame hactive hclock hwall hzero =>
      refine ⟨hcount, hfree, forall_mem_set hold ?_⟩
      intro hr
      exact absurd hr hop
  | released hreply =>
      exact ⟨hcount, hfree, fun _ _ _ _ => rfl⟩

theorem Inv.stepped (h : Inv m) {event : Event} {m' : Machine} (hs : Stepped m event m') : Inv m' := by
  cases hs with
  | idle event hi renewers => exact h.idle hi renewers
  | invoked event hs renewers => exact h.invoked hs renewers
  | dispatched reading hc => exact h.advance hc rfl rfl
  | replied reply hc => exact h.advance hc rfl rfl
  | finished hc hf => exact h.finished hc hf

theorem Inv.step (h : Inv m) (event : Event) : Inv (m.step event) := h.stepped (step_stepped m event)

theorem Idles.edge {handle handle' : Handle} (h : Idles handle handle') :
    handle'.state = handle.state ∨ Edge handle.state handle'.state := by
  obtain ⟨state, managed, rfl, hs | ⟨hs, rfl⟩⟩ := h
  · exact .inl hs
  · rw [hs]
    exact .inr .expire

theorem Inv.stepped_edge (h : Inv m) {event : Event} {m' : Machine} (hs : Stepped m event m') :
    m'.handle.state = m.handle.state ∨ Edge m.handle.state m'.handle.state := by
  cases hs with
  | idle event hi renewers => exact hi.edge
  | invoked event hs renewers =>
      cases hs with
      | refused | already | admitted | releasing => exact .inl rfl
      | expired op err hop => exact (idles_expireLocked m.handle _).edge
  | dispatched | replied => exact .inl rfl
  | finished hc hf =>
      have hopen := h.opened (h.busy_of_inFlight hc rfl)
      cases hf with
      | closed op state err hstate hedge =>
          rcases hedge with hs | ⟨hs, rfl | rfl | rfl⟩
          · exact .inl hs
          · rw [hs]; exact .inr .expire
          · rw [hs]; exact .inr .lose
          · rw [hs]; exact .inr .doubt
      | renewed | confirmed => exact .inl rfl
      | released hreply =>
          rcases hopen with hs | hs
          · rw [hs]; exact .inr .release
          · rw [hs]; exact .inr .cleanup

theorem Inv.step_edge (h : Inv m) (event : Event) :
    (m.step event).handle.state = m.handle.state ∨ Edge m.handle.state (m.step event).handle.state :=
  h.stepped_edge (step_stepped m event)

/-- From a state that satisfies the invariant, every run keeps it, and keeps
every set of handle states that no edge leaves. -/
theorem Inv.run_closed (h : Inv m) {S : State → Prop} (hS : S m.handle.state)
    (hclosed : ∀ s s', S s → Edge s s' → S s') (events : List Event) :
    Inv (events.foldl Machine.step m) ∧ S (events.foldl Machine.step m).handle.state := by
  refine invariant_rule (P := fun m => Inv m ∧ S m.handle.state) ⟨h, hS⟩ ?_ events
  rintro m event ⟨hi, hs⟩
  refine ⟨hi.step event, ?_⟩
  rcases hi.step_edge event with he | he
  · rw [he]
    exact hs
  · exact hclosed _ _ hs he

theorem admitted_active (m : Machine) (event : Event) {call : Invocation}
    (hc : (m.step event).calls[m.calls.length]? = some call) (hf : call.inFlight = true)
    (hop : call.op ≠ .release) :
    m.handle.state = .active ∧ (m.step event).handle.state = .active := by
  have hs := step_stepped m event
  generalize m.step event = m' at hs hc ⊢
  cases hs with
  | idle => simp at hc
  | invoked event hs renewers =>
      simp only [List.getElem?_concat_length, Option.some.injEq] at hc
      subst hc
      cases hs with
      | refused | expired | already => cases hf
      | admitted op hop' hbusy hactive => exact ⟨hactive, hactive⟩
      | releasing => exact absurd rfl hop
  | dispatched | replied | finished => simp at hc

/-- Every run of a handle, whatever its callers, renewers, clocks and backend
do, follows the documented state machine. -/
theorem lifecycle_conformance (policy : Policy) (record : Record) (started : Reading)
    (events : List Event) :
    let m := events.foldl Machine.step (initial (Handle.newHandleAt policy record started))
    (∀ event, (m.step event).handle.state = m.handle.state ∨
      Edge m.handle.state (m.step event).handle.state) ∧
    (m.handle.state ≠ .active →
      ∀ later : List Event, (later.foldl Machine.step m).handle.state ≠ .active) ∧
    m.calls.countP Invocation.inFlight ≤ 1 ∧
    (m.handle.busy = true ↔ ∃ call ∈ m.calls, call.inFlight = true) ∧
    (∀ event call, (m.step event).calls[m.calls.length]? = some call → call.inFlight = true →
      call.op ≠ .release → m.handle.state = .active ∧ (m.step event).handle.state = .active) ∧
    (∀ (call : Nat) (reading : Reading) op sent readings reply,
      m.calls[call]? = some ⟨op, .replied sent readings reply⟩ →
      reply.err ≠ none ∨ op ≠ .release ∧ sameAcquisition sent reply.record = false →
      (m.step (.finish call reading)).handle.state ≠ .active) ∧
    ((∃ call ∈ m.calls, call.op = .release ∧ call.stage = .returned none) →
      ∀ (later : List Event) (reading : Reading), let m' := later.foldl Machine.step m
        m'.step (.invoke .release reading) =
          { m' with calls := m'.calls ++ [⟨.release, .returned none⟩] }) := by
  intro m
  have h : Inv m := invariant_rule (inv_initial policy record started) (fun _ e hi => hi.step e) events
  refine ⟨h.step_edge, ?_, ?_, ?_, fun event call => admitted_active m event, ?_, ?_⟩
  · intro hs later
    refine (h.run_closed (S := (· ≠ .active)) hs ?_ later).2
    rintro s s' - he rfl
    cases he
  · rw [h.reserved]
    split <;> decide
  · rw [← List.countP_pos_iff, h.reserved]
    split <;> simp_all
  · intro call reading op sent readings reply hc hbad
    simp only [Machine.step, Machine.finish, hc]
    apply Handle.finish_err_closes
    rcases hbad with herr | ⟨hop, hsame⟩
    · cases op with
      | release => exact herr
      | renew | validate =>
          intro he
          exact herr ((Handle.replyErr_eq_none (by decide)).mp he).1
    · intro he
      rw [((Handle.replyErr_eq_none hop).mp he).2] at hsame
      cases hsame
  · rintro ⟨call, hc, hop, hst⟩ later reading m'
    have hr : m'.handle.state = .released := by
      refine (h.run_closed (S := (· = .released)) (h.acknowledged call hc hop hst) ?_ later).2
      rintro s s' rfl he
      cases he
    simp [Machine.step, Machine.invoke, Handle.start, Handle.beginRelease, hr, Stage.ofAdmission]

/-- The record of a first acquisition, for concrete runs of a handle. -/
def firstGrant : Record := ⟨⟨[107]⟩, [97], 1, 0, 1000⟩

end GoLease.Lifecycle
