import GoLease.Policy

namespace GoLease

inductive State
  | active
  | expired
  | lost
  | uncertain
  | released
  deriving DecidableEq, Repr

/-- The two clocks of a handle, read one after the other: the injected Clock
and time.Now. -/
structure Reading where
  clock : Int
  wall : Int
  deriving DecidableEq, Repr

/-- The mutable fields under the handle's mutex, and the policy. The borrowed
backend, clocks and slots enter each method through what they return. -/
structure Handle where
  policy : Policy
  record : Record
  deadline : Int
  wallDeadline : Int
  state : State
  busy : Bool
  managed : Bool
  deriving DecidableEq, Repr

def sameAcquisition (current next : Record) : Bool :=
  current.key.value == next.key.value && current.owner == next.owner &&
    current.token == next.token && current.acquiredAt == next.acquiredAt &&
    decide (next.expiresAt > next.acquiredAt)

/-- The remote calls of a handle. -/
inductive Op
  | renew
  | validate
  | release
  deriving DecidableEq, Repr

def Op.request (policy : Policy) (record : Record) : Op → Request
  | .renew => .renew record policy.ttl.toInt
  | .validate => .validate record
  | .release => .release record

/-- How the first locked section of a method ends: with a result, or with the
single operation reserved and the record to send. -/
inductive Admission
  | returned (err : Option Error)
  | reserved (record : Record)
  deriving DecidableEq, Repr

namespace Handle

def newHandleAt (policy : Policy) (record : Record) (started : Reading) : Handle :=
  { policy, record, deadline := started.clock + policy.budget,
    wallDeadline := started.wall + policy.budget, state := .active, busy := false, managed := false }

variable (handle : Handle)

def expireLocked (reading : Reading) : Handle :=
  if handle.state = .active ∧
      (¬reading.clock < handle.deadline ∨ ¬reading.wall < handle.wallDeadline)
    then { handle with state := .expired } else handle

def failLocked (err : Error) : Handle :=
  if handle.state ≠ .active then handle
  else if err.is .errStaleOwner || err.is .errLost then { handle with state := .lost }
  else { handle with state := .uncertain }

/-- State: the handle as the method leaves it; the result is its state. -/
def observe (reading : Reading) : Handle := handle.expireLocked reading

def requireActiveLocked (reading : Reading) : Handle × Option Error :=
  let handle := handle.expireLocked reading
  if handle.state = .expired then (handle, some (wrap .errLost "deadline"))
  else if handle.state ≠ .active then (handle, some (wrap .errInvalidState "handle"))
  else (handle, none)

def beginActiveOperation (reading : Reading) : Handle × Admission :=
  match handle.requireActiveLocked reading with
  | (handle, some err) => (handle, .returned (some err))
  | (handle, none) =>
    if handle.busy then (handle, .returned (some (wrap .errInvalidState "handle operation")))
    else ({ handle with busy := true }, .reserved handle.record)

/-- The rest of finishActiveOperation once the expiry check against the old
deadline is made. -/
def acceptLocked (record : Record) (err : Option Error) (deadline wallDeadline : Int) :
    Handle × Option Error :=
  match err with
  | some err => (handle.failLocked err, some err)
  | none =>
    if handle.state ≠ .active then (handle, some (wrap .errLost "deadline during operation"))
    else if deadline ≠ zeroTime then ({ handle with record, deadline, wallDeadline }, none)
    else ({ handle with record }, none)

def finishActiveOperation (reading : Reading) (record : Record) (err : Option Error)
    (deadline wallDeadline : Int) : Handle × Option Error :=
  ({ handle with busy := false }.expireLocked reading).acceptLocked record err deadline wallDeadline

def beginRelease : Handle × Admission :=
  if handle.state = .released then (handle, .returned none)
  else if handle.state = .lost ∨ handle.state = .uncertain then
    (handle, .returned (some (wrap .errInvalidState "release")))
  else if handle.busy then (handle, .returned (some (wrap .errInvalidState "handle operation")))
  else ({ handle with busy := true }, .reserved handle.record)

/-- The locked section in which Renew, Validate or Release starts. -/
def start : Op → Reading → Handle × Admission
  | .renew, reading | .validate, reading => handle.beginActiveOperation reading
  | .release, _ => handle.beginRelease

/-- The error a reply stands for: a matching success of Renew or Validate is
none, a success for another acquisition is an error of its own. -/
def replyErr (record : Record) (reply : Reply) : Op → Option Error
  | .renew => if reply.err = none ∧ ¬sameAcquisition record reply.record
      then some (wrap .errAmbiguousOutcome "renew response") else reply.err
  | .validate => if reply.err = none ∧ ¬sameAcquisition record reply.record
      then some (wrap .errBackendUnavailable "validate response") else reply.err
  | .release => reply.err

def finishRelease (err : Option Error) : Handle × Option Error :=
  let handle := { handle with busy := false }
  match err with
  | some err => (handle.failLocked err, some err)
  | none => ({ handle with state := .released }, none)

/-- The locked section in which a method that sent the record returns. Only
Renew has read the clocks before it called the backend; Validate passes zero
instants in place of new deadlines. -/
def finish (reading : Reading) (record : Record) (started : Reading) (reply : Reply) :
    Op → Handle × Option Error
  | .renew => handle.finishActiveOperation reading reply.record (replyErr record reply .renew)
      (started.clock + handle.policy.budget) (started.wall + handle.policy.budget)
  | .validate => handle.finishActiveOperation reading reply.record (replyErr record reply .validate)
      zeroTime zeroTime
  | .release => handle.finishRelease (replyErr record reply .release)

/-- StartManaged up to the goroutine it starts. The flag says whether the send
on the client's managed slots succeeds. -/
def startManaged (reading : Reading) (slot : Bool) : Handle × Option Error :=
  match handle.requireActiveLocked reading with
  | (handle, some err) => (handle, some err)
  | (handle, none) =>
    if handle.policy.renewEvery ≤ 0 ∨ handle.managed ∨ handle.busy then
      (handle, some (wrap .errInvalidState "managed renewal"))
    else if ¬slot then (handle, some (wrap .errBackendUnavailable "managed renewal capacity"))
    else ({ handle with managed := true }, none)

theorem expireLocked_eq (reading : Reading) :
    handle.expireLocked reading = handle ∨
      handle.state = .active ∧ handle.expireLocked reading = { handle with state := .expired } := by
  unfold expireLocked
  split
  next h => exact .inr ⟨h.1, rfl⟩
  next => exact .inl rfl

theorem expireLocked_active {reading : Reading}
    (h : (handle.expireLocked reading).state = .active) :
    handle.expireLocked reading = handle ∧ handle.state = .active ∧
      reading.clock < handle.deadline ∧ reading.wall < handle.wallDeadline := by
  unfold expireLocked at h ⊢
  split at h
  next => cases h
  next hn =>
    rw [if_neg hn]
    simp only [h, true_and, not_or, not_not] at hn
    exact ⟨rfl, h, hn⟩

theorem failLocked_eq (err : Error) :
    ∃ state, state ≠ .active ∧ handle.failLocked err = { handle with state } ∧
      (state = handle.state ∨ handle.state = .active ∧ (state = .lost ∨ state = .uncertain)) := by
  unfold failLocked
  split
  next h => exact ⟨handle.state, h, rfl, .inl rfl⟩
  next h =>
    rw [not_not] at h
    split
    next => exact ⟨.lost, by decide, rfl, .inr ⟨h, .inl rfl⟩⟩
    next => exact ⟨.uncertain, by decide, rfl, .inr ⟨h, .inr rfl⟩⟩

theorem requireActiveLocked_eq (reading : Reading) :
    (∃ err, handle.requireActiveLocked reading = (handle.expireLocked reading, some err)) ∨
      handle.requireActiveLocked reading = (handle, none) ∧ handle.state = .active ∧
        reading.clock < handle.deadline ∧ reading.wall < handle.wallDeadline := by
  unfold requireActiveLocked
  dsimp only
  split
  next => exact .inl ⟨_, rfl⟩
  next =>
    split
    next => exact .inl ⟨_, rfl⟩
    next h =>
      rw [not_not] at h
      obtain ⟨he, hactive⟩ := handle.expireLocked_active h
      exact .inr ⟨by rw [he], hactive⟩

/-- What the first locked section of a method can do. -/
inductive Started (reading : Reading) : Op → Handle → Admission → Prop
  | refused (op : Op) (err : Error) : Started reading op handle (.returned (some err))
  | expired (op : Op) (err : Error) (hop : op ≠ .release) :
      Started reading op (handle.expireLocked reading) (.returned (some err))
  | already (h : handle.state = .released) : Started reading .release handle (.returned none)
  | admitted (op : Op) (hop : op ≠ .release) (hbusy : handle.busy = false)
      (hactive : handle.state = .active) (hclock : reading.clock < handle.deadline)
      (hwall : reading.wall < handle.wallDeadline) :
      Started reading op { handle with busy := true } (.reserved handle.record)
  | releasing (hbusy : handle.busy = false) (hopen : handle.state = .active ∨ handle.state = .expired) :
      Started reading .release { handle with busy := true } (.reserved handle.record)

theorem beginActiveOperation_started {op : Op} (hop : op ≠ .release) (reading : Reading) :
    handle.Started reading op (handle.beginActiveOperation reading).1
      (handle.beginActiveOperation reading).2 := by
  unfold beginActiveOperation
  rcases handle.requireActiveLocked_eq reading with ⟨err, he⟩ | ⟨he, hactive, hclock, hwall⟩
  · rw [he]
    exact .expired op err hop
  · rw [he]
    dsimp only
    split
    next => exact .refused op _
    next hbusy => exact .admitted op hop (by simpa using hbusy) hactive hclock hwall

theorem beginRelease_started (reading : Reading) :
    handle.Started reading .release handle.beginRelease.1 handle.beginRelease.2 := by
  unfold beginRelease
  split
  next h => exact .already h
  next hreleased =>
    split
    next => exact .refused .release _
    next hclosed =>
      split
      next => exact .refused .release _
      next hbusy =>
        refine .releasing (by simpa using hbusy) ?_
        cases h : handle.state <;> simp_all

theorem start_started (op : Op) (reading : Reading) :
    handle.Started reading op (handle.start op reading).1 (handle.start op reading).2 := by
  cases op with
  | renew => exact handle.beginActiveOperation_started (by decide) reading
  | validate => exact handle.beginActiveOperation_started (by decide) reading
  | release => exact handle.beginRelease_started reading

theorem expireLocked_of_lt {reading : Reading} (hclock : reading.clock < handle.deadline)
    (hwall : reading.wall < handle.wallDeadline) : handle.expireLocked reading = handle := by
  unfold expireLocked
  rw [if_neg]
  rintro ⟨_, h | h⟩
  · exact h hclock
  · exact h hwall

theorem start_admits {op : Op} {reading : Reading} (hop : op ≠ .release)
    (hactive : handle.state = .active) (hbusy : handle.busy = false)
    (hclock : reading.clock < handle.deadline) (hwall : reading.wall < handle.wallDeadline) :
    handle.start op reading = ({ handle with busy := true }, .reserved handle.record) := by
  have hrequire : handle.requireActiveLocked reading = (handle, none) := by
    simp [requireActiveLocked, handle.expireLocked_of_lt hclock hwall, hactive]
  cases op with
  | renew | validate => simp [start, beginActiveOperation, hrequire, hbusy]
  | release => exact absurd rfl hop

theorem requireActiveLocked_closes {reading : Reading} {handle' : Handle} {err : Error}
    (h : handle.requireActiveLocked reading = (handle', some err)) : handle'.state ≠ .active := by
  unfold requireActiveLocked at h
  dsimp only at h
  split at h
  next he =>
    cases h
    rw [he]
    intro hf
    cases hf
  next =>
    split at h
    next hne =>
      cases h
      exact hne
    next => cases h

/-- A Renew or Validate that is refused leaves a closed handle behind, unless
another call held the operation of a handle that still admits work. -/
theorem start_refuses {op : Op} {reading : Reading} {handle' : Handle} {err : Error}
    (hop : op ≠ .release) (h : handle.start op reading = (handle', .returned (some err))) :
    handle'.state ≠ .active ∨
      handle.busy = true ∧ handle.state = .active ∧ reading.clock < handle.deadline ∧
        reading.wall < handle.wallDeadline := by
  have hbegin : handle.beginActiveOperation reading = (handle', .returned (some err)) := by
    cases op with
    | renew | validate => exact h
    | release => exact absurd rfl hop
  unfold beginActiveOperation at hbegin
  rcases handle.requireActiveLocked_eq reading with ⟨err', he⟩ | ⟨he, hadmits⟩
  · rw [he] at hbegin
    cases hbegin
    exact .inl (handle.requireActiveLocked_closes he)
  · rw [he] at hbegin
    dsimp only at hbegin
    split at hbegin
    next hbusy => exact .inr ⟨hbusy, hadmits⟩
    next => cases hbegin

theorem start_release_admits (reading : Reading) (hactive : handle.state = .active)
    (hbusy : handle.busy = false) :
    handle.start .release reading = ({ handle with busy := true }, .reserved handle.record) := by
  simp [start, beginRelease, hactive, hbusy]

theorem expireLocked_managed (reading : Reading) :
    (handle.expireLocked reading).managed = handle.managed := by
  unfold expireLocked
  split <;> rfl

theorem start_managed (op : Op) (reading : Reading) :
    (handle.start op reading).1.managed = handle.managed := by
  have hs := handle.start_started op reading
  generalize handle.start op reading = result at hs ⊢
  obtain ⟨handle', admission⟩ := result
  cases hs with
  | refused | already | admitted | releasing => rfl
  | expired => exact handle.expireLocked_managed reading

/-- What the last locked section of a method can do with a reply. Every way
ends with the operation free again. -/
inductive Finished (reading : Reading) (record : Record) (started : Reading) (reply : Reply) :
    Op → Handle → Option Error → Prop
  | closed (op : Op) (state : State) (err : Error) (hstate : state ≠ .active)
      (hedge : state = handle.state ∨
        handle.state = .active ∧ (state = .expired ∨ state = .lost ∨ state = .uncertain)) :
      Finished reading record started reply op { handle with busy := false, state } (some err)
  | renewed (hreply : reply.err = none) (hsame : sameAcquisition record reply.record = true)
      (hactive : handle.state = .active) (hclock : reading.clock < handle.deadline)
      (hwall : reading.wall < handle.wallDeadline)
      (hzero : started.clock + handle.policy.budget ≠ zeroTime) :
      Finished reading record started reply .renew
        { handle with
          busy := false, record := reply.record, deadline := started.clock + handle.policy.budget,
          wallDeadline := started.wall + handle.policy.budget } none
  | confirmed (op : Op) (hop : op ≠ .release) (hreply : reply.err = none)
      (hsame : sameAcquisition record reply.record = true) (hactive : handle.state = .active)
      (hclock : reading.clock < handle.deadline) (hwall : reading.wall < handle.wallDeadline)
      (hzero : op = .renew → started.clock + handle.policy.budget = zeroTime) :
      Finished reading record started reply op
        { handle with busy := false, record := reply.record } none
  | released (hreply : reply.err = none) :
      Finished reading record started reply .release
        { handle with busy := false, state := .released } none

theorem acceptLocked_eq (record : Record) (err : Option Error) (deadline wallDeadline : Int) :
    (∃ state err', state ≠ .active ∧
      (state = handle.state ∨ handle.state = .active ∧ (state = .lost ∨ state = .uncertain)) ∧
      handle.acceptLocked record err deadline wallDeadline = ({ handle with state }, some err')) ∨
    err = none ∧ handle.state = .active ∧
      handle.acceptLocked record err deadline wallDeadline =
        (if deadline ≠ zeroTime then { handle with record, deadline, wallDeadline }
          else { handle with record }, none) := by
  unfold acceptLocked
  cases err with
  | some err =>
      obtain ⟨state, hne, hf, hedge⟩ := handle.failLocked_eq err
      exact .inl ⟨state, err, hne, hedge, congrArg (fun h => (h, some err)) hf⟩
  | none =>
      by_cases hactive : handle.state = .active
      · refine .inr ⟨rfl, hactive, ?_⟩
        dsimp only
        rw [if_neg (not_not.mpr hactive)]
        split <;> rfl
      · exact .inl ⟨handle.state, _, hactive, .inl rfl, if_pos hactive⟩

theorem finishActiveOperation_eq (reading : Reading) (record : Record) (err : Option Error)
    (deadline wallDeadline : Int) :
    (∃ state err', state ≠ .active ∧
      (state = handle.state ∨
        handle.state = .active ∧ (state = .expired ∨ state = .lost ∨ state = .uncertain)) ∧
      handle.finishActiveOperation reading record err deadline wallDeadline =
        ({ handle with busy := false, state }, some err')) ∨
    err = none ∧ handle.state = .active ∧ reading.clock < handle.deadline ∧
      reading.wall < handle.wallDeadline ∧
      handle.finishActiveOperation reading record err deadline wallDeadline =
        (if deadline ≠ zeroTime then { handle with busy := false, record, deadline, wallDeadline }
          else { handle with busy := false, record }, none) := by
  unfold finishActiveOperation
  rcases expireLocked_eq { handle with busy := false } reading with he | ⟨hactive, he⟩
  · rw [he]
    rcases acceptLocked_eq { handle with busy := false } record err deadline wallDeadline with
      ⟨state, err', hne, hedge, hf⟩ | ⟨herr, hactive, hf⟩
    · refine .inl ⟨state, err', hne, ?_, hf⟩
      rcases hedge with h | ⟨h, h'⟩
      · exact .inl h
      · exact .inr ⟨h, .inr h'⟩
    · have hb := @expireLocked_active { handle with busy := false } reading
        (by rw [he]; exact hactive)
      exact .inr ⟨herr, hactive, hb.2.2.1, hb.2.2.2, hf⟩
  · rw [he]
    -- The handle expired during the call; no reply brings it back.
    rcases acceptLocked_eq { handle with busy := false, state := .expired } record err deadline
      wallDeadline with ⟨state, err', hne, hedge, hf⟩ | ⟨_, h, _⟩
    · rcases hedge with h | ⟨h, _⟩
      · exact .inl ⟨state, err', hne, .inr ⟨hactive, .inl h⟩, hf⟩
      · cases h
    · cases h

theorem replyErr_eq_none {record : Record} {reply : Reply} {op : Op} (hop : op ≠ .release) :
    replyErr record reply op = none ↔ reply.err = none ∧ sameAcquisition record reply.record = true := by
  cases op with
  | renew | validate =>
      simp only [replyErr]
      split
      next h => simp [h.2]
      next h =>
        rw [not_and, not_not] at h
        exact ⟨fun hr => ⟨hr, h hr⟩, fun hr => hr.1⟩
  | release => exact absurd rfl hop

theorem finish_finished (reading : Reading) (record : Record) (started : Reading) (reply : Reply)
    (op : Op) :
    handle.Finished reading record started reply op
      (handle.finish reading record started reply op).1
      (handle.finish reading record started reply op).2 := by
  cases op with
  | renew =>
      unfold finish
      rcases handle.finishActiveOperation_eq reading reply.record (replyErr record reply .renew)
          (started.clock + handle.policy.budget) (started.wall + handle.policy.budget) with
        ⟨state, err, hne, hedge, he⟩ | ⟨herr, hactive, hclock, hwall, he⟩
      · rw [he]
        exact .closed .renew state err hne hedge
      · rw [he]
        obtain ⟨hreply, hsame⟩ := (replyErr_eq_none (by decide)).mp herr
        by_cases hz : started.clock + handle.policy.budget = zeroTime
        · rw [if_neg (not_not.mpr hz)]
          exact .confirmed .renew (by decide) hreply hsame hactive hclock hwall (fun _ => hz)
        · rw [if_pos hz]
          exact .renewed hreply hsame hactive hclock hwall hz
  | validate =>
      unfold finish
      rcases handle.finishActiveOperation_eq reading reply.record (replyErr record reply .validate)
          zeroTime zeroTime with ⟨state, err, hne, hedge, he⟩ | ⟨herr, hactive, hclock, hwall, he⟩
      · rw [he]
        exact .closed .validate state err hne hedge
      · rw [he]
        obtain ⟨hreply, hsame⟩ := (replyErr_eq_none (by decide)).mp herr
        exact .confirmed .validate (by decide) hreply hsame hactive hclock hwall (fun h => by cases h)
  | release =>
      unfold finish finishRelease replyErr
      cases h : reply.err with
      | none => exact .released h
      | some err =>
          obtain ⟨state, hne, hf, hedge⟩ := ({ handle with busy := false } : Handle).failLocked_eq err
          dsimp only
          rw [hf]
          refine .closed .release state err hne ?_
          rcases hedge with h | ⟨h, h'⟩
          · exact .inl h
          · exact .inr ⟨h, .inr h'⟩

theorem finish_renew_accepts {reading started : Reading} {record : Record} {reply : Reply}
    (hreply : reply.err = none) (hsame : sameAcquisition record reply.record = true)
    (hactive : handle.state = .active) (hclock : reading.clock < handle.deadline)
    (hwall : reading.wall < handle.wallDeadline) :
    ∃ deadline wallDeadline, handle.finish reading record started reply .renew =
      ({ handle with busy := false, record := reply.record, deadline, wallDeadline }, none) := by
  have herr : replyErr record reply .renew = none := (replyErr_eq_none (by decide)).mpr ⟨hreply, hsame⟩
  have hopen : ({ handle with busy := false } : Handle).expireLocked reading =
      { handle with busy := false } := expireLocked_of_lt _ hclock hwall
  unfold finish finishActiveOperation
  rw [hopen, herr]
  unfold acceptLocked
  dsimp only
  rw [if_neg (not_not.mpr hactive)]
  split
  next => exact ⟨_, _, rfl⟩
  next => exact ⟨_, _, rfl⟩

/-- An error, or a success for another acquisition, always closes the handle. -/
theorem finish_err_closes (reading : Reading) (record : Record) (started : Reading) {reply : Reply}
    {op : Op} (h : replyErr record reply op ≠ none) :
    (handle.finish reading record started reply op).1.state ≠ .active := by
  have hf := handle.finish_finished reading record started reply op
  generalize handle.finish reading record started reply op = result at hf ⊢
  obtain ⟨handle', err⟩ := result
  cases hf with
  | closed _ state err hstate _ => exact hstate
  | renewed hreply hsame => exact absurd ((replyErr_eq_none (by decide)).mpr ⟨hreply, hsame⟩) h
  | confirmed _ hop hreply hsame => exact absurd ((replyErr_eq_none hop).mpr ⟨hreply, hsame⟩) h
  | released hreply => exact absurd hreply h

/-- An error of the reply is what the method returns. -/
theorem finish_err (reading : Reading) {record : Record} (started : Reading) {reply : Reply} {op : Op}
    {err : Error} (h : replyErr record reply op = some err) :
    (handle.finish reading record started reply op).2 = some err := by
  cases op with
  | renew | validate => simp only [finish, finishActiveOperation, acceptLocked, h]
  | release => simp only [finish, finishRelease, h]

/-- A method that fails once its operation was reserved frees it, leaves the
handle closed and changes nothing else. -/
theorem finish_failed {reading : Reading} {record : Record} {started : Reading} {reply : Reply} {op : Op}
    {err : Error} (h : (handle.finish reading record started reply op).2 = some err) :
    ∃ state, state ≠ .active ∧
      (handle.finish reading record started reply op).1 = { handle with busy := false, state } := by
  have hf := handle.finish_finished reading record started reply op
  generalize handle.finish reading record started reply op = result at hf h ⊢
  obtain ⟨handle', err'⟩ := result
  cases hf with
  | closed _ state _ hstate _ => exact ⟨state, hstate, rfl⟩
  | renewed | confirmed | released => cases h

theorem finish_managed (reading : Reading) (record : Record) (started : Reading) (reply : Reply)
    (op : Op) : (handle.finish reading record started reply op).1.managed = handle.managed := by
  have hf := handle.finish_finished reading record started reply op
  generalize handle.finish reading record started reply op = result at hf ⊢
  obtain ⟨handle', err⟩ := result
  cases hf with
  | closed | renewed | confirmed | released => rfl

/-- StartManaged refuses, perhaps with the handle expired, or it sets the flag. -/
theorem startManaged_cases (reading : Reading) (slot : Bool) :
    (∃ err, handle.startManaged reading slot = (handle.expireLocked reading, some err)) ∨
      (∃ err, handle.startManaged reading slot = (handle, some err)) ∨
      handle.managed = false ∧ slot = true ∧
        handle.startManaged reading slot = ({ handle with managed := true }, none) := by
  unfold startManaged
  rcases handle.requireActiveLocked_eq reading with ⟨err, he⟩ | ⟨he, _⟩
  · rw [he]
    exact .inl ⟨err, rfl⟩
  · rw [he]
    dsimp only
    split
    next => exact .inr (.inl ⟨_, rfl⟩)
    next hfree =>
      split
      next => exact .inr (.inl ⟨_, rfl⟩)
      next hslot =>
        simp only [not_or, Bool.not_eq_true] at hfree
        exact .inr (.inr ⟨hfree.2.1, not_not.mp hslot, rfl⟩)

theorem startManaged_eq (reading : Reading) (slot : Bool) :
    (handle.startManaged reading slot).1 = handle.expireLocked reading ∨
      (handle.startManaged reading slot).1 = handle ∨
      (handle.startManaged reading slot).1 = { handle with managed := true } := by
  rcases handle.startManaged_cases reading slot with ⟨err, he⟩ | ⟨err, he⟩ | ⟨_, _, he⟩
  · exact .inl (congrArg Prod.fst he)
  · exact .inr (.inl (congrArg Prod.fst he))
  · exact .inr (.inr (congrArg Prod.fst he))

theorem startManaged_ok {reading : Reading} {slot : Bool}
    (h : (handle.startManaged reading slot).2 = none) :
    handle.managed = false ∧ slot = true ∧
      handle.startManaged reading slot = ({ handle with managed := true }, none) := by
  rcases handle.startManaged_cases reading slot with ⟨err, he⟩ | ⟨err, he⟩ | hok
  · rw [he] at h
    cases h
  · rw [he] at h
    cases h
  · exact hok

theorem startManaged_refused {reading : Reading} {slot : Bool}
    (h : (handle.startManaged reading slot).2 ≠ none) :
    (handle.startManaged reading slot).1.managed = handle.managed := by
  rcases handle.startManaged_cases reading slot with ⟨err, he⟩ | ⟨err, he⟩ | ⟨_, _, he⟩
  · rw [he]
    exact handle.expireLocked_managed reading
  · rw [he]
  · rw [he] at h
    exact absurd rfl h

end Handle

end GoLease
