import GoLease.Handle

namespace GoLease.Client

def validAcquisition (key : Key) (owner : Bytes) (record : Record) : Bool :=
  record.key.value == key.value && record.owner == owner &&
    record.token != 0 && decide (record.expiresAt > record.acquiredAt)

/-- The record answers a request to acquire. -/
structure Answers (key : Key) (owner : Bytes) (record : Record) : Prop where
  key : record.key = key
  owner : record.owner = owner
  token : record.token ≠ 0
  ordered : record.acquiredAt < record.expiresAt

theorem validAcquisition_iff {key : Key} {owner : Bytes} {record : Record} :
    validAcquisition key owner record = true ↔ Answers key owner record := by
  obtain ⟨value⟩ := key
  obtain ⟨⟨value'⟩, owner', token, acquiredAt, expiresAt⟩ := record
  simp only [validAcquisition, Bool.and_eq_true, beq_iff_eq, bne_iff_ne, decide_eq_true_eq]
  constructor
  · rintro ⟨⟨⟨rfl, rfl⟩, htoken⟩, h⟩
    exact ⟨rfl, rfl, htoken, h⟩
  · rintro ⟨hkey, howner, htoken, h⟩
    cases hkey
    exact ⟨⟨⟨rfl, howner⟩, htoken⟩, h⟩

/-- A nil context is none. -/
def acquisitionContextError : Option Ctx → Option Error
  | none => some (wrap .errInvalidState "acquire context")
  | some none => none
  | some (some err) => some (.joined (wrap .errCanceled "acquire") err.toError)

/-- The identity from the OwnerSource, if it is usable. -/
def newOwner : Except Error Bytes → Except Error Bytes
  | .ok owner => if owner = [] ∨ owner.length > 128
      then .error (wrap .errBackendUnavailable "owner generation") else .ok owner
  | .error _ => .error (wrap .errBackendUnavailable "owner generation")

/-- What both acquisition methods make of a backend reply without an error. -/
def accept (key : Key) (owner : Bytes) (policy : Policy) (started : Reading) (record : Record) :
    Except Error Handle :=
  if validAcquisition key owner record then .ok (Handle.newHandleAt policy record started)
  else .error (wrap .errAmbiguousOutcome "acquire response")

def tryAcquire (ctx : Option Ctx) (source : Except Error Bytes) (key : Key) (policy : Policy)
    (started : Reading) (backend : Bytes → Reply) : Except Error Handle :=
  match acquisitionContextError ctx, newOwner source with
  | some err, _ => .error err
  | none, .error err => .error err
  | none, .ok owner =>
    match (backend owner).err with
    | some err => .error err
    | none => accept key owner policy started (backend owner).record

def isContention (err : Error) : Bool := err.is .errContended

def waitDeadlineReached (parent waitContext : Ctx) : Bool :=
  parent.isNone && waitContext == some .deadlineExceeded

/-- binary.BigEndian.Uint64 on the array that io.ReadFull has filled. -/
def bigEndianUint64 (bytes : Vector UInt8 8) : UInt64 :=
  bytes.toList.foldl (fun n b => n <<< 8 ||| b.toUInt64) 0

/-- The jitter of randomRetry, with the result of reading eight bytes. The
conversions keep the bits, and the sum is one of uint64. -/
def randomJitter (maximum : Int64) (read : Except Error (Vector UInt8 8)) : Int64 :=
  if maximum < 1 then 0
  else match read with
    | .error _ => 0
    | .ok bytes => (bigEndianUint64 bytes % (maximum.toUInt64 + 1)).toInt64

def boundedJitter (jitter maximum : Int64) : Int64 := min (max jitter 0) maximum

/-- Everything one iteration of Acquire's loop reads from its surroundings, in
the order of reading: the clocks before the call, the reply, the two contexts,
the jitter, the clock, the sleeper's result and the contexts once more. -/
structure Attempt where
  started : Reading
  reply : Reply
  parent : Ctx
  waitContext : Ctx
  jitter : Int64
  now : Int
  sleepErr : Option Error
  parentAfter : Ctx
  waitContextAfter : Ctx
  deriving DecidableEq, Repr

/-- One iteration either ends Acquire or has slept and goes on. -/
inductive Verdict
  | done (result : Except Error Handle)
  | retry (delay : Int)

section Loop

variable (key : Key) (owner : Bytes) (policy : Policy) (deadline : Int)

def delay (attempt : Attempt) : Int := (policy.retry + boundedJitter attempt.jitter policy.jitter).toInt

def iteration (number : Nat) (attempt : Attempt) : Verdict :=
  match attempt.reply.err with
  | none => .done (accept key owner policy attempt.started attempt.reply.record)
  | some err =>
    if waitDeadlineReached attempt.parent attempt.waitContext then
      .done (.error (wrap .errTimeout "acquire"))
    else if ¬isContention err then .done (.error err)
    else if policy.wait = 0 ∨ number = policy.maxAttempts ∨
        ¬attempt.now + delay policy attempt < deadline then
      .done (.error (wrap .errTimeout "acquire"))
    else
      match attempt.sleepErr with
      | none => .retry (delay policy attempt)
      | some _ =>
        if waitDeadlineReached attempt.parentAfter attempt.waitContextAfter then
          .done (.error (wrap .errTimeout "acquire"))
        else .done (.error (wrap .errCanceled "acquire"))

/-- The calls made to the backend, the sleeps requested between them and the
result of Acquire. -/
structure Acquisition where
  calls : Nat
  sleeps : List Int
  result : Except Error Handle

/-- The for loop, from a given attempt number. Fuel runs out only if it is
less than the attempts that are left. -/
def loop (attempts : Nat → Attempt) : Nat → Nat → Option Acquisition
  | 0, _ => none
  | fuel + 1, number =>
    match iteration key owner policy deadline number (attempts number) with
    | .done result => some ⟨number, [], result⟩
    | .retry delay => (loop attempts fuel (number + 1)).map
        (fun rest => { rest with sleeps := delay :: rest.sleeps })

end Loop

/-- Acquire with the result of reserving a waiter slot, the clock reading
before the loop and what each attempt finds. -/
def acquire (ctx : Option Ctx) (slot : Bool) (source : Except Error Bytes) (key : Key)
    (policy : Policy) (started : Int) (attempts : Nat → Attempt) : Option Acquisition :=
  match acquisitionContextError ctx with
  | some err => some ⟨0, [], .error err⟩
  | none =>
    if ¬slot then some ⟨0, [], .error (wrap .errBackendUnavailable "waiter capacity")⟩
    else match newOwner source with
      | .error err => some ⟨0, [], .error err⟩
      | .ok owner =>
        loop key owner policy (started + policy.wait.toInt) attempts policy.maxAttempts 1

section Results

variable {key : Key} {owner : Bytes} {policy : Policy} {deadline : Int} {attempts : Nat → Attempt}

/-- The iteration found contention with budget left and slept. -/
structure Retries (policy : Policy) (deadline : Int) (number : Nat) (attempt : Attempt) : Prop where
  contended : ∃ err, attempt.reply.err = some err ∧ isContention err = true
  waiting : waitDeadlineReached attempt.parent attempt.waitContext = false
  allowed : policy.wait ≠ 0 ∧ number ≠ policy.maxAttempts
  early : attempt.now + delay policy attempt < deadline
  slept : attempt.sleepErr = none

/-- The exits of one iteration, in the order in which the source tests them. -/
inductive Iterated (key : Key) (owner : Bytes) (policy : Policy) (deadline : Int) (number : Nat)
    (attempt : Attempt) : Verdict → Prop
  | accepted (h : attempt.reply.err = none) :
      Iterated key owner policy deadline number attempt
        (.done (accept key owner policy attempt.started attempt.reply.record))
  | late (err : Error) (h : attempt.reply.err = some err)
      (hwait : waitDeadlineReached attempt.parent attempt.waitContext = true) :
      Iterated key owner policy deadline number attempt (.done (.error (wrap .errTimeout "acquire")))
  | failed (err : Error) (h : attempt.reply.err = some err)
      (hwait : waitDeadlineReached attempt.parent attempt.waitContext = false)
      (hcontended : isContention err = false) :
      Iterated key owner policy deadline number attempt (.done (.error err))
  | contended (err : Error) (stop : Sentinel) (h : attempt.reply.err = some err)
      (hcontended : isContention err = true) (hstop : stop = .errTimeout ∨ stop = .errCanceled)
      (hnot : ¬Retries policy deadline number attempt) :
      Iterated key owner policy deadline number attempt (.done (.error (wrap stop "acquire")))
  | retried (h : Retries policy deadline number attempt) :
      Iterated key owner policy deadline number attempt (.retry (delay policy attempt))

theorem iteration_iterated (number : Nat) (attempt : Attempt) :
    Iterated key owner policy deadline number attempt
      (iteration key owner policy deadline number attempt) := by
  unfold iteration
  cases herr : attempt.reply.err with
  | none => exact .accepted herr
  | some err =>
      dsimp only
      split
      next hwait => exact .late err herr hwait
      next hwait =>
        split
        next hcontended => exact .failed err herr (by simpa using hwait) (by simpa using hcontended)
        next hcontended =>
          rw [not_not] at hcontended
          split
          next hbudget =>
            refine .contended err .errTimeout herr hcontended (.inl rfl) ?_
            rintro ⟨_, _, ⟨hzero, hmax⟩, hearly, _⟩
            rcases hbudget with hb | hb | hb
            · exact hzero hb
            · exact hmax hb
            · exact hb hearly
          next hbudget =>
            simp only [not_or, not_not] at hbudget
            split
            next hslept =>
              exact .retried ⟨⟨err, herr, hcontended⟩, by simpa using hwait,
                ⟨hbudget.1, hbudget.2.1⟩, hbudget.2.2, hslept⟩
            next sleepErr hslept =>
              have hnot : ¬Retries policy deadline number attempt := by
                intro hr
                rw [hr.slept] at hslept
                cases hslept
              split
              next => exact .contended err .errTimeout herr hcontended (.inl rfl) hnot
              next => exact .contended err .errCanceled herr hcontended (.inr rfl) hnot

def Ambiguous (attempt : Attempt) : Prop :=
  ∃ err, attempt.reply.err = some err ∧ err.is .errAmbiguousOutcome = true

/-- The reply is one that Acquire reports as ambiguous when it stops there. -/
def Discloses (key : Key) (owner : Bytes) (attempt : Attempt) : Prop :=
  attempt.reply.err = none ∧ validAcquisition key owner attempt.reply.record = false ∨
    ∃ err, attempt.reply.err = some err ∧ err.is .errAmbiguousOutcome = true ∧
      isContention err = false ∧ waitDeadlineReached attempt.parent attempt.waitContext = false

theorem accept_ambiguous (started : Reading) (record : Record) :
    (∃ err, accept key owner policy started record = .error err ∧
      err.is .errAmbiguousOutcome = true) ↔ validAcquisition key owner record = false := by
  unfold accept
  split
  next h => simp [h]
  next h => simpa using h

theorem iteration_ambiguous {number : Nat} {attempt : Attempt} {result : Except Error Handle}
    (h : iteration key owner policy deadline number attempt = .done result) :
    (∃ err, result = .error err ∧ err.is .errAmbiguousOutcome = true) ↔
      Discloses key owner attempt := by
  have hi : Iterated key owner policy deadline number attempt _ :=
    iteration_iterated number attempt
  rw [h] at hi
  cases hi with
  | accepted herr => simp [accept_ambiguous, Discloses, herr]
  | late err herr hwait => simp [Discloses, herr, hwait]
  | failed err herr hwait hcontended => simp [Discloses, herr, hwait, hcontended]
  | contended err stop herr hcontended hstop hnot =>
      rcases hstop with rfl | rfl <;> simp [Discloses, herr, hcontended]

/-- The loop stops at this attempt: it retries every one before it and not
this one. -/
def StopsAt (policy : Policy) (deadline : Int) (attempts : Nat → Attempt) (last : Nat) : Prop :=
  0 < last ∧ (∀ n, 0 < n → n < last → Retries policy deadline n (attempts n)) ∧
    ¬Retries policy deadline last (attempts last)

theorem StopsAt.unique {last last' : Nat} (h : StopsAt policy deadline attempts last)
    (h' : StopsAt policy deadline attempts last') : last = last' := by
  rcases Nat.lt_trichotomy last last' with hlt | heq | hgt
  · exact absurd (h'.2.1 last h.1 hlt) h.2.2
  · exact heq
  · exact absurd (h.2.1 last' h'.1 hgt) h'.2.2

theorem loop_stopsAt (fuel number : Nat) (hnumber : 0 < number)
    (hpast : ∀ n, 0 < n → n < number → Retries policy deadline n (attempts n))
    (hfuel : policy.maxAttempts < fuel + number) (hle : number ≤ policy.maxAttempts) :
    ∃ r, loop key owner policy deadline attempts fuel number = some r ∧
      StopsAt policy deadline attempts r.calls ∧
      iteration key owner policy deadline r.calls (attempts r.calls) = .done r.result := by
  -- A retry takes one attempt and one unit of fuel, and the last attempt never retries.
  induction fuel generalizing number with
  | zero => omega
  | succ fuel ih =>
      have hi : Iterated key owner policy deadline number (attempts number) _ :=
        iteration_iterated number (attempts number)
      unfold loop
      cases hv : iteration key owner policy deadline number (attempts number) with
      | done result =>
          refine ⟨_, rfl, ⟨hnumber, hpast, ?_⟩, hv⟩
          intro hr
          rw [hv] at hi
          obtain ⟨err, herr, hcontended⟩ := hr.contended
          cases hi with
          | accepted h => simp [h] at herr
          | late err' h hwait => simp [hr.waiting] at hwait
          | failed err' h hwait hc =>
              obtain rfl : err = err' := by simpa [h] using herr.symm
              simp [hc] at hcontended
          | contended err' stop h hc hstop hnot => exact hnot hr
      | retry d =>
          rw [hv] at hi
          cases hi with
          | retried hr =>
              have hmax : number ≠ policy.maxAttempts := hr.allowed.2
              obtain ⟨r, hl, hstop, hdone⟩ := ih (number + 1) (Nat.succ_pos _)
                (fun n hn hlt => by
                  rcases Nat.lt_succ_iff_lt_or_eq.mp hlt with h | rfl
                  · exact hpast n hn h
                  · exact hr)
                (by omega) (by omega)
              dsimp only
              rw [hl]
              exact ⟨_, rfl, hstop, hdone⟩

theorem accept_ok {started : Reading} {handle : Handle} {record : Record}
    (h : accept key owner policy started record = .ok handle) :
    validAcquisition key owner record = true ∧ handle = Handle.newHandleAt policy record started := by
  unfold accept at h
  split at h
  next hvalid => exact ⟨hvalid, (Except.ok.inj h).symm⟩
  next => cases h

theorem tryAcquire_ok {started : Reading} {handle : Handle} {ctx : Option Ctx}
    {source : Except Error Bytes} {backend : Bytes → Reply}
    (h : tryAcquire ctx source key policy started backend = .ok handle) :
    ∃ owner, newOwner source = .ok owner ∧
      accept key owner policy started (backend owner).record = .ok handle := by
  unfold tryAcquire at h
  split at h
  next => cases h
  next => cases h
  next owner _ howner =>
    split at h
    next => cases h
    next => exact ⟨owner, howner, h⟩

theorem iteration_ok {number : Nat} {attempt : Attempt} {handle : Handle}
    (h : iteration key owner policy deadline number attempt = .done (.ok handle)) :
    attempt.reply.err = none ∧
      accept key owner policy attempt.started attempt.reply.record = .ok handle := by
  have hi : Iterated key owner policy deadline number attempt _ := iteration_iterated number attempt
  generalize iteration key owner policy deadline number attempt = verdict at h hi
  cases hi with
  | accepted herr => exact ⟨herr, Verdict.done.inj h⟩
  | late | failed | contended | retried => cases h

/-- The loop ends with the result of its last attempt. -/
theorem loop_result {fuel number : Nat} {r : Acquisition}
    (h : loop key owner policy deadline attempts fuel number = some r) :
    iteration key owner policy deadline r.calls (attempts r.calls) = .done r.result := by
  induction fuel generalizing number r with
  | zero => cases h
  | succ fuel ih =>
      unfold loop at h
      split at h
      next result hi =>
        cases h
        exact hi
      next delay hi =>
        obtain ⟨rest, hrest, rfl⟩ := Option.map_eq_some_iff.mp h
        have hdone := ih hrest
        exact hdone

/-- Every attempt before the last one was retried. -/
theorem loop_retries {fuel number : Nat} {r : Acquisition}
    (h : loop key owner policy deadline attempts fuel number = some r) :
    number ≤ r.calls ∧ r.calls < number + fuel ∧
      ∀ n, number ≤ n → n < r.calls → Retries policy deadline n (attempts n) := by
  induction fuel generalizing number r with
  | zero => cases h
  | succ fuel ih =>
      have hi : Iterated key owner policy deadline number (attempts number) _ :=
        iteration_iterated number (attempts number)
      unfold loop at h
      split at h
      next result hv =>
        cases h
        refine ⟨Nat.le_refl _, ?_, ?_⟩
        · exact Nat.lt_add_of_pos_right (Nat.succ_pos fuel)
        · exact fun n hle hlt => absurd hlt (Nat.not_lt.mpr hle)
      next delay hv =>
        rw [hv] at hi
        obtain ⟨rest, hrest, rfl⟩ := Option.map_eq_some_iff.mp h
        obtain ⟨hle, hlt, hretries⟩ := ih hrest
        dsimp only
        refine ⟨by omega, by omega, ?_⟩
        intro n hn hlast
        rcases Nat.eq_or_lt_of_le hn with rfl | hn
        · cases hi with
          | retried hr => exact hr
        · exact hretries n hn hlast

/-- Acquire fails before it has an owner, or runs its loop. -/
theorem acquire_loop {ctx : Option Ctx} {slot : Bool} {source : Except Error Bytes} {clock : Int}
    {r : Acquisition} (h : acquire ctx slot source key policy clock attempts = some r) :
    (r.calls = 0 ∧ r.sleeps = [] ∧ ∃ err, r.result = .error err) ∨
      ∃ owner, newOwner source = .ok owner ∧
        loop key owner policy (clock + policy.wait.toInt) attempts policy.maxAttempts 1 = some r := by
  unfold acquire at h
  split at h
  next err _ =>
    cases h
    exact .inl ⟨rfl, rfl, err, rfl⟩
  next =>
    split at h
    next =>
      cases h
      exact .inl ⟨rfl, rfl, _, rfl⟩
    next =>
      split at h
      next err _ =>
        cases h
        exact .inl ⟨rfl, rfl, err, rfl⟩
      next owner howner => exact .inr ⟨owner, howner, h⟩

theorem acquire_returns (policy : Policy.Accepted) (ctx : Option Ctx) (slot : Bool)
    (source : Except Error Bytes) (key : Key) (clock : Int) (attempts : Nat → Attempt) :
    ∃ r, acquire ctx slot source key policy.1 clock attempts = some r := by
  unfold acquire
  split
  next => exact ⟨_, rfl⟩
  next =>
    split
    next => exact ⟨_, rfl⟩
    next =>
      split
      next => exact ⟨_, rfl⟩
      next owner _ =>
        have hpos := policy.valid.attempts_pos
        obtain ⟨r, hloop, -⟩ := @loop_stopsAt key owner policy.1 (clock + policy.1.wait.toInt)
          attempts policy.1.maxAttempts 1 Nat.one_pos (fun n hn hlt => by omega) (by omega) hpos
        exact ⟨r, hloop⟩

theorem acquire_ok {ctx : Option Ctx} {slot : Bool} {source : Except Error Bytes} {clock : Int}
    {r : Acquisition} {handle : Handle}
    (h : acquire ctx slot source key policy clock attempts = some r) (hr : r.result = .ok handle) :
    ∃ owner, newOwner source = .ok owner ∧
      accept key owner policy (attempts r.calls).started (attempts r.calls).reply.record =
        .ok handle := by
  rcases acquire_loop h with ⟨-, -, err, herr⟩ | ⟨owner, howner, hloop⟩
  · rw [hr] at herr
    cases herr
  · have hdone := loop_result hloop
    rw [hr] at hdone
    exact ⟨owner, howner, (iteration_ok hdone).2⟩

/-- The handle came from a call of the client, which accepted this response to
an attempt that was dispatched right after these readings. -/
inductive Obtained (key : Key) (owner : Bytes) (policy : Policy) : Record → Reading → Handle → Prop
  | tryAcquire {ctx : Option Ctx} {source : Except Error Bytes} {started : Reading}
      {backend : Bytes → Reply} {handle : Handle} (hsource : newOwner source = .ok owner)
      (h : Client.tryAcquire ctx source key policy started backend = .ok handle) :
      Obtained key owner policy (backend owner).record started handle
  | acquire {ctx : Option Ctx} {slot : Bool} {source : Except Error Bytes} {clock : Int}
      {attempts : Nat → Attempt} {r : Acquisition} {handle : Handle}
      (hsource : newOwner source = .ok owner)
      (h : Client.acquire ctx slot source key policy clock attempts = some r)
      (hr : r.result = .ok handle) :
      Obtained key owner policy (attempts r.calls).reply.record (attempts r.calls).started handle

theorem Obtained.accepted {granted : Record} {started : Reading} {handle : Handle}
    (h : Obtained key owner policy granted started handle) :
    validAcquisition key owner granted = true ∧ handle = Handle.newHandleAt policy granted started := by
  cases h with
  | tryAcquire hsource h =>
      obtain ⟨owner', howner, haccept⟩ := tryAcquire_ok h
      cases hsource.symm.trans howner
      exact accept_ok haccept
  | acquire hsource h hr =>
      obtain ⟨owner', howner, haccept⟩ := acquire_ok h hr
      cases hsource.symm.trans howner
      exact accept_ok haccept

/-- Acquire returns for every accepted policy, and an ambiguous reply among
its calls is reported as ambiguous exactly when the reply at which the loop
stops is one it discloses. -/
theorem acquire_discloses_iff (policy : Policy.Accepted) (ctx : Option Ctx) (slot : Bool)
    (source : Except Error Bytes) (key : Key) (started : Int) (attempts : Nat → Attempt) :
    ∃ r, acquire ctx slot source key policy.1 started attempts = some r ∧
      (((∃ n, 0 < n ∧ n ≤ r.calls ∧ Ambiguous (attempts n)) →
          ∃ err, r.result = .error err ∧ err.is .errAmbiguousOutcome = true) ↔
        (acquisitionContextError ctx = none → slot = true →
          ∀ owner, newOwner source = .ok owner →
          ∀ last, StopsAt policy.1 (started + policy.1.wait.toInt) attempts last →
            (∀ n, 0 < n → n ≤ last → ¬Ambiguous (attempts n)) ∨
              Discloses key owner (attempts last))) := by
  have hnone (P : Prop) : (∃ n, 0 < n ∧ n ≤ 0 ∧ Ambiguous (attempts n)) → P := by
    rintro ⟨n, hn, hle, _⟩
    exact absurd (Nat.lt_of_lt_of_le hn hle) (Nat.lt_irrefl 0)
  unfold acquire
  cases hctx : acquisitionContextError ctx with
  | some err => exact ⟨_, rfl, iff_of_true (hnone _) (fun h => by cases h)⟩
  | none =>
      dsimp only
      split
      next hslot => exact ⟨_, rfl, iff_of_true (hnone _) (fun _ hs => absurd hs hslot)⟩
      next hslot =>
        rw [not_not] at hslot
        cases hsource : newOwner source with
        | error err => exact ⟨_, rfl, iff_of_true (hnone _) (fun _ _ _ ho => by cases ho)⟩
        | ok owner =>
            obtain ⟨r, hl, hstop, hdone⟩ := @loop_stopsAt key owner policy.1
              (started + policy.1.wait.toInt) attempts policy.1.maxAttempts 1 Nat.one_pos
              (fun n hn hlt => by omega) (by omega) policy.valid.attempts_pos
            refine ⟨r, hl, ?_⟩
            rw [iteration_ambiguous hdone]
            constructor
            · intro h _ _ owner' ho last hlast
              cases ho
              rw [hlast.unique hstop]
              by_cases ha : ∃ n, 0 < n ∧ n ≤ r.calls ∧ Ambiguous (attempts n)
              · exact .inr (h ha)
              · exact .inl (fun n hn hle hamb => ha ⟨n, hn, hle, hamb⟩)
            · rintro h ⟨n, hn, hle, hamb⟩
              rcases h rfl hslot owner rfl r.calls hstop with hnone | hd
              · exact absurd hamb (hnone n hn hle)
              · exact hd

def shortWait : PolicyOptions :=
  { ttl := 1000000000, wait := 20000000, retry := 1000000, maxAttempts := 10000 }

/-- The wait deadline cuts a call that the native stores had dispatched. -/
def cutByWait : Attempt :=
  { started := ⟨0, 0⟩
    reply := ⟨zeroRecord, some (.classified (.sentinel .errAmbiguousOutcome)
      (.sentinel .contextDeadlineExceeded) "postgres operation")⟩
    parent := none
    waitContext := some .deadlineExceeded
    jitter := 0
    now := 20000000
    sleepErr := none
    parentAfter := none
    waitContextAfter := some .deadlineExceeded }

theorem acquire_masks_ambiguous_reply :
    ∃ policy r, Policy.newPolicy shortWait = .ok policy ∧
      acquire (some none) true (.ok [97]) ⟨[107]⟩ policy 0 (fun _ => cutByWait) = some r ∧
      (∃ n, 0 < n ∧ n ≤ r.calls ∧ Ambiguous cutByWait) ∧
      r.result = .error (wrap .errTimeout "acquire") ∧
      ¬∃ err, r.result = .error err ∧ err.is .errAmbiguousOutcome = true := by
  refine ⟨_, _, rfl, rfl, ⟨1, Nat.one_pos, Nat.le_refl 1, _, rfl, rfl⟩, rfl, ?_⟩
  rintro ⟨err, he, ha⟩
  cases he
  cases ha

end Results

end GoLease.Client
