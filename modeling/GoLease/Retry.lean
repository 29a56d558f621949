import GoLease.Client

/-!
The retry loop of Acquire with everything it asks of its surroundings: the
readings of the injected clock, the calls of the backend and the sleeps.
-/

namespace GoLease.Retry

open Client

inductive Effect
  | now (clock : Int)
  | call (request : Request) (reply : Reply)
  | sleep (delay : Int) (err : Option Error)
  deriving DecidableEq, Repr

def calls (effects : List Effect) : List (Request × Reply) :=
  effects.filterMap fun
    | .call request reply => some (request, reply)
    | _ => none

def sleeps (effects : List Effect) : List Int :=
  effects.filterMap fun
    | .sleep delay _ => some delay
    | _ => none

@[simp] theorem calls_append (effects more : List Effect) :
    calls (effects ++ more) = calls effects ++ calls more := List.filterMap_append

@[simp] theorem sleeps_append (effects more : List Effect) :
    sleeps (effects ++ more) = sleeps effects ++ sleeps more := List.filterMap_append

section Loop

variable (key : Key) (owner : Bytes) (policy : Policy) (deadline : Int)

/-- What one iteration asks for. The last test reads the clock only where the
ones before it have not already ended the loop. -/
def asked (number : Nat) (attempt : Attempt) : List Effect :=
  .now attempt.started.clock :: .call (.tryAcquire key owner policy.ttl.toInt) attempt.reply ::
    match attempt.reply.err with
    | none => []
    | some err =>
      if waitDeadlineReached attempt.parent attempt.waitContext ∨ ¬isContention err ∨ policy.wait = 0 ∨
          number = policy.maxAttempts then []
      else if attempt.now + delay policy attempt < deadline then
        [.now attempt.now, .sleep (delay policy attempt) attempt.sleepErr]
      else [.now attempt.now]

/-- The iterations from one number to another, both included. -/
def askedBetween (attempts : Nat → Attempt) (first last : Nat) : List Effect :=
  (List.range' first (last + 1 - first)).flatMap
    (fun number => asked key owner policy deadline number (attempts number))

end Loop

/-- The effects of an Acquire that came to this end. The clock is read once
before the loop, for the deadline. -/
def effects (source : Except Error Bytes) (key : Key) (policy : Policy) (started : Int)
    (attempts : Nat → Attempt) (r : Acquisition) : List Effect :=
  match newOwner source with
  | .error _ => []
  | .ok owner =>
    if r.calls = 0 then []
    else .now started :: askedBetween key owner policy (started + policy.wait.toInt) attempts 1 r.calls

def performAcquire (ctx : Option Ctx) (slot : Bool) (source : Except Error Bytes) (key : Key)
    (policy : Policy) (started : Int) (attempts : Nat → Attempt) :
    Option (List Effect × Except Error Handle) :=
  (acquire ctx slot source key policy started attempts).map
    (fun r => (effects source key policy started attempts r, r.result))

/-- The clock does not go back between its readings, and over each successful
sleep it advances by at least the delay. -/
def Advances : Int → List Effect → Prop
  | _, [] => True
  | last, .now clock :: rest => last ≤ clock ∧ Advances clock rest
  | last, .call _ _ :: rest => Advances last rest
  | last, .sleep delay none :: rest => Advances (last + delay) rest
  | last, .sleep _ (some _) :: rest => Advances last rest

section Iteration

variable {key : Key} {owner : Bytes} {policy : Policy} {deadline : Int} {number : Nat} {attempt : Attempt}

/-- What one iteration can ask for, and how it then ends. -/
inductive Performed (key : Key) (owner : Bytes) (policy : Policy) (deadline : Int) (number : Nat)
    (attempt : Attempt) : List Effect → Verdict → Prop
  | answered (h : attempt.reply.err = none) :
      Performed key owner policy deadline number attempt
        [.now attempt.started.clock, .call (.tryAcquire key owner policy.ttl.toInt) attempt.reply]
        (.done (accept key owner policy attempt.started attempt.reply.record))
  | refused (err : Error) (more : List Effect) (hmore : more = [] ∨ more = [.now attempt.now]) :
      Performed key owner policy deadline number attempt
        (.now attempt.started.clock :: .call (.tryAcquire key owner policy.ttl.toInt) attempt.reply :: more)
        (.done (.error err))
  | slept (verdict : Verdict)
      (hcontended : ∃ err, attempt.reply.err = some err ∧ isContention err = true)
      (hallowed : policy.wait ≠ 0 ∧ number ≠ policy.maxAttempts)
      (hearly : attempt.now + delay policy attempt < deadline)
      (hverdict : attempt.sleepErr = none ∧ verdict = .retry (delay policy attempt) ∨
        attempt.sleepErr ≠ none ∧ ∃ err, verdict = .done (.error err)) :
      Performed key owner policy deadline number attempt
        [.now attempt.started.clock, .call (.tryAcquire key owner policy.ttl.toInt) attempt.reply,
          .now attempt.now, .sleep (delay policy attempt) attempt.sleepErr] verdict

theorem asked_performed (number : Nat) (attempt : Attempt) :
    Performed key owner policy deadline number attempt
      (asked key owner policy deadline number attempt)
      (iteration key owner policy deadline number attempt) := by
  unfold asked iteration
  cases herr : attempt.reply.err with
  | none => exact .answered herr
  | some err =>
      dsimp only
      by_cases hwait : waitDeadlineReached attempt.parent attempt.waitContext = true
      · rw [if_pos (.inl hwait), if_pos hwait]
        exact .refused _ [] (.inl rfl)
      · rw [if_neg hwait]
        by_cases hcontended : isContention err = true
        · rw [if_neg (not_not.mpr hcontended)]
          by_cases hstop : policy.wait = 0 ∨ number = policy.maxAttempts
          · rw [if_pos (.inr (.inr hstop)), if_pos (hstop.imp_right .inl)]
            exact .refused _ [] (.inl rfl)
          · rw [if_neg (by tauto)]
            by_cases hearly : attempt.now + delay policy attempt < deadline
            · rw [if_pos hearly, if_neg (by tauto)]
              refine .slept _ ⟨err, herr, hcontended⟩ (not_or.mp hstop) hearly ?_
              cases attempt.sleepErr with
              | none => exact .inl ⟨rfl, rfl⟩
              | some sleepErr =>
                  refine .inr ⟨Option.some_ne_none _, ?_⟩
                  dsimp only
                  split
                  next => exact ⟨_, rfl⟩
                  next => exact ⟨_, rfl⟩
            · rw [if_neg hearly, if_pos (.inr (.inr hearly))]
              exact .refused _ _ (.inr rfl)
        · rw [if_pos (.inr (.inl hcontended)), if_pos hcontended]
          exact .refused err [] (.inl rfl)

theorem Performed.calls_eq {effects : List Effect} {verdict : Verdict}
    (h : Performed key owner policy deadline number attempt effects verdict) :
    calls effects = [(.tryAcquire key owner policy.ttl.toInt, attempt.reply)] := by
  cases h with
  | answered | slept => rfl
  | refused err more hmore => rcases hmore with rfl | rfl <;> rfl

theorem Performed.accepted {effects : List Effect} {handle : Handle}
    (h : Performed key owner policy deadline number attempt effects (.done (.ok handle))) :
    attempt.reply.err = none ∧ Answers key owner attempt.reply.record := by
  generalize hverdict : Verdict.done (.ok handle) = verdict at h
  cases h with
  | answered herr =>
      exact ⟨herr, validAcquisition_iff.mp (accept_ok (Verdict.done.inj hverdict).symm).1⟩
  | refused => cases hverdict
  | slept verdict _ _ _ hslept =>
      rcases hslept with ⟨-, rfl⟩ | ⟨-, err, rfl⟩ <;> cases hverdict

theorem Performed.sleeps_cases {effects : List Effect} {verdict : Verdict}
    (h : Performed key owner policy deadline number attempt effects verdict) :
    sleeps effects = [] ∨ policy.wait ≠ 0 ∧ sleeps effects = [delay policy attempt] ∧
      ∀ last, Advances last effects → last + delay policy attempt < deadline := by
  cases h with
  | answered => exact .inl rfl
  | refused err more hmore => rcases hmore with rfl | rfl <;> exact .inl rfl
  | slept verdict hcontended hallowed hearly hverdict =>
      refine .inr ⟨hallowed.1, rfl, ?_⟩
      rintro last ⟨hstarted, hnow, -⟩
      omega

/-- An iteration that goes on has found contention and slept in full. -/
theorem Performed.retried {effects : List Effect} {d : Int}
    (h : Performed key owner policy deadline number attempt effects (.retry d)) :
    (∃ err, attempt.reply.err = some err ∧ isContention err = true) ∧
      (policy.wait ≠ 0 ∧ number ≠ policy.maxAttempts) ∧
      attempt.now + delay policy attempt < deadline ∧
      effects = [.now attempt.started.clock, .call (.tryAcquire key owner policy.ttl.toInt) attempt.reply,
        .now attempt.now, .sleep (delay policy attempt) none] := by
  cases h with
  | slept verdict hcontended hallowed hearly hverdict =>
      rcases hverdict with ⟨hslept, -⟩ | ⟨-, err, hv⟩
      · rw [hslept]
        exact ⟨hcontended, hallowed, hearly, rfl⟩
      · cases hv

end Iteration

section Log

variable {key : Key} {owner : Bytes} {policy : Policy} {deadline : Int} {attempts : Nat → Attempt}

/-- What the log of a loop that starts with this attempt keeps to. -/
structure Disciplined (key : Key) (owner : Bytes) (policy : Policy) (deadline : Int) (number : Nat)
    (effects : List Effect) (result : Except Error Handle) : Prop where
  requests : ∀ call ∈ calls effects, call.1 = .tryAcquire key owner policy.ttl.toInt
  some_call : calls effects ≠ []
  contended : ∀ call ∈ (calls effects).dropLast,
    ∃ err, call.2.err = some err ∧ err.is .errContended = true
  bounded : (calls effects).length + number ≤ policy.maxAttempts + 1
  once : policy.wait = 0 → (calls effects).length ≤ 1 ∧ sleeps effects = []
  delays : ∀ d ∈ sleeps effects, ∃ attempt, d = delay policy attempt
  waited : ∀ last, Advances last effects → sleeps effects = [] ∨ last + (sleeps effects).sum < deadline
  accepted : ∀ handle, result = .ok handle → ∃ call, (calls effects).getLast? = some call ∧
    call.2.err = none ∧ Answers key owner call.2.record

theorem disciplined_done {number : Nat} {attempt : Attempt} {effects : List Effect}
    {result : Except Error Handle} (hle : number ≤ policy.maxAttempts)
    (h : Performed key owner policy deadline number attempt effects (.done result)) :
    Disciplined key owner policy deadline number effects result where
  requests := by
    rw [h.calls_eq]
    exact List.forall_mem_singleton.mpr rfl
  some_call := by
    rw [h.calls_eq]
    exact List.cons_ne_nil _ _
  contended := by
    rw [h.calls_eq]
    exact fun call hcall => absurd hcall List.not_mem_nil
  bounded := by
    rw [h.calls_eq, List.length_singleton]
    omega
  once := by
    intro hwait
    rw [h.calls_eq]
    exact ⟨Nat.le_refl 1, h.sleeps_cases.resolve_right (fun hslept => hslept.1 hwait)⟩
  delays := by
    rcases h.sleeps_cases with hs | ⟨-, hs, -⟩
    · rw [hs]
      exact fun d hmem => absurd hmem List.not_mem_nil
    · rw [hs]
      exact List.forall_mem_singleton.mpr ⟨attempt, rfl⟩
  waited := by
    intro last hadvances
    rcases h.sleeps_cases with hs | ⟨-, hs, hearly⟩
    · exact .inl hs
    · rw [hs, List.sum_singleton]
      exact .inr (hearly last hadvances)
  accepted := by
    rintro handle rfl
    rw [h.calls_eq]
    exact ⟨_, rfl, h.accepted⟩

theorem Disciplined.again {number : Nat} {attempt : Attempt} {effects more : List Effect} {d : Int}
    {result : Except Error Handle}
    (hrest : Disciplined key owner policy deadline (number + 1) more result)
    (h : Performed key owner policy deadline number attempt effects (.retry d)) :
    Disciplined key owner policy deadline number (effects ++ more) result := by
  have hcalls := h.calls_eq
  obtain ⟨hcontended, ⟨hwait, -⟩, hearly, heffects⟩ := h.retried
  have hsleeps : sleeps effects = [delay policy attempt] := by
    rw [heffects]
    rfl
  refine ⟨?_, ?_, ?_, ?_, fun hzero => absurd hzero hwait, ?_, ?_, ?_⟩
  · rw [calls_append, hcalls]
    exact List.forall_mem_cons.mpr ⟨rfl, hrest.requests⟩
  · rw [calls_append, hcalls]
    exact List.cons_ne_nil _ _
  · rw [calls_append, hcalls, List.singleton_append, List.dropLast_cons_of_ne_nil hrest.some_call]
    exact List.forall_mem_cons.mpr ⟨hcontended, hrest.contended⟩
  · rw [calls_append, hcalls, List.length_append, List.length_singleton]
    have hbounded := hrest.bounded
    omega
  · rw [sleeps_append, hsleeps]
    exact List.forall_mem_cons.mpr ⟨⟨attempt, rfl⟩, hrest.delays⟩
  · intro last hadvances
    rw [heffects] at hadvances
    obtain ⟨hstarted, hnow, hlater⟩ := hadvances
    rw [sleeps_append, hsleeps, List.singleton_append, List.sum_cons]
    rcases hrest.waited _ hlater with hnone | hlate
    · rw [hnone, List.sum_nil]
      right
      omega
    · right
      omega
  · intro handle hresult
    obtain ⟨call, hlast, haccepted⟩ := hrest.accepted handle hresult
    refine ⟨call, ?_, haccepted⟩
    rw [calls_append, List.getLast?_append, hlast]
    rfl

theorem askedBetween_self (number : Nat) : askedBetween key owner policy deadline attempts number number =
    asked key owner policy deadline number (attempts number) := by
  simp [askedBetween]

theorem askedBetween_succ {number last : Nat} (h : number < last) :
    askedBetween key owner policy deadline attempts number last =
      asked key owner policy deadline number (attempts number) ++
        askedBetween key owner policy deadline attempts (number + 1) last := by
  have hlength : last + 1 - number = (last + 1 - (number + 1)) + 1 := by omega
  rw [askedBetween, hlength, List.range'_succ, List.flatMap_cons]
  rfl

theorem disciplined_loop {fuel number : Nat} {r : Acquisition} (hle : number ≤ policy.maxAttempts)
    (h : loop key owner policy deadline attempts fuel number = some r) :
    number ≤ r.calls ∧
      (calls (askedBetween key owner policy deadline attempts number r.calls)).length + number = r.calls + 1 ∧
      Disciplined key owner policy deadline number
        (askedBetween key owner policy deadline attempts number r.calls) r.result := by
  induction fuel generalizing number r with
  | zero => cases h
  | succ fuel ih =>
      have hp : Performed key owner policy deadline number (attempts number) _ _ :=
        asked_performed number (attempts number)
      unfold loop at h
      cases hv : iteration key owner policy deadline number (attempts number) with
      | done result =>
          rw [hv] at h hp
          cases h
          rw [askedBetween_self, hp.calls_eq, List.length_singleton, Nat.add_comm]
          exact ⟨Nat.le_refl _, rfl, disciplined_done hle hp⟩
      | retry d =>
          rw [hv] at h hp
          obtain ⟨rest, hrest, rfl⟩ := Option.map_eq_some_iff.mp h
          have hmax := hp.retried.2.1.2
          obtain ⟨hcalls, hlength, hdisciplined⟩ := ih (by omega) hrest
          rw [askedBetween_succ hcalls, calls_append, List.length_append, hp.calls_eq, List.length_singleton]
          refine ⟨Nat.le_of_succ_le hcalls, ?_, hdisciplined.again hp⟩
          dsimp only
          omega

end Log

theorem boundedJitter_range (jitter : Int64) {maximum : Int64} (h : 0 ≤ maximum.toInt) :
    0 ≤ (boundedJitter jitter maximum).toInt ∧
      (boundedJitter jitter maximum).toInt ≤ maximum.toInt := by
  have hzero : (0 : Int64).toInt = 0 := rfl
  have heq : boundedJitter jitter maximum =
      if (if jitter ≤ 0 then 0 else jitter) ≤ maximum then (if jitter ≤ 0 then 0 else jitter)
      else maximum := rfl
  rw [heq]
  simp only [Int64.le_iff_toInt_le]
  split
  next =>
    rw [if_pos (by omega)]
    exact ⟨Int.le_refl 0, h⟩
  next hpos =>
    split
    next hle => exact ⟨by omega, hle⟩
    next => exact ⟨h, Int.le_refl _⟩

/-- No sum of the retry interval and a jitter leaves the range of a duration. -/
theorem delay_eq (policy : Policy.Accepted) (attempt : Attempt) : delay policy.1 attempt =
    policy.1.retry.toInt + (boundedJitter attempt.jitter policy.1.jitter).toInt := by
  obtain ⟨-, hretry, hretry', hjitter, hjitter'⟩ := policy.paced
  obtain ⟨hlow, hhigh⟩ := boundedJitter_range attempt.jitter hjitter
  unfold delay
  rw [Int64.toInt_add, Int.bmod_eq_of_le] <;> omega

theorem delay_range (policy : Policy.Accepted) (attempt : Attempt) :
    policy.1.retry.toInt ≤ delay policy.1 attempt ∧
      delay policy.1 attempt ≤ policy.1.retry.toInt + policy.1.jitter.toInt := by
  obtain ⟨hlow, hhigh⟩ := boundedJitter_range attempt.jitter policy.paced.jitter_nonneg
  rw [delay_eq]
  omega

section Acquire

variable {ctx : Option Ctx} {slot : Bool} {source : Except Error Bytes} {key : Key} {started : Int}
  {attempts : Nat → Attempt}

/-- Acquire makes no call, or its loop is disciplined from the first attempt. -/
theorem performAcquire_cases (policy : Policy.Accepted) :
    ∃ effects result r, performAcquire ctx slot source key policy.1 started attempts =
        some (effects, result) ∧
      Client.acquire ctx slot source key policy.1 started attempts = some r ∧
      r.result = result ∧ r.calls = (calls effects).length ∧
      ((effects = [] ∧ ∃ err, result = .error err) ∨
        ∃ owner rest, effects = .now started :: rest ∧ newOwner source = .ok owner ∧
          Disciplined key owner policy.1 (started + policy.1.wait.toInt) 1 rest result) := by
  obtain ⟨r, hr⟩ := acquire_returns policy ctx slot source key started attempts
  refine ⟨effects source key policy.1 started attempts r, r.result, r, ?_, hr, rfl, ?_⟩
  · rw [performAcquire, hr, Option.map_some]
  · rcases acquire_loop hr with ⟨hzero, -, herr⟩ | ⟨owner, howner, hloop⟩
    · have hnone : effects source key policy.1 started attempts r = [] := by
        unfold effects
        split
        next => rfl
        next => exact if_pos hzero
      rw [hnone, hzero]
      exact ⟨rfl, .inl ⟨rfl, herr⟩⟩
    · obtain ⟨hcalls, hlength, hdisciplined⟩ := disciplined_loop policy.valid.attempts_pos hloop
      have hsome : effects source key policy.1 started attempts r = .now started ::
          askedBetween key owner policy.1 (started + policy.1.wait.toInt) attempts 1 r.calls := by
        simp only [effects, howner]
        exact if_neg (by omega)
      rw [hsome]
      exact ⟨(Nat.succ_injective hlength).symm, .inr ⟨owner, _, rfl, howner, hdisciplined⟩⟩

/-- Acquire's loop ends, within its attempts and its wait, whatever the
backend, the sleeper, the jitter source and the clock do. -/
theorem acquire_disciplined (policy : Policy.Accepted) (ctx : Option Ctx) (slot : Bool)
    (source : Except Error Bytes) (key : Key) (started : Int) (attempts : Nat → Attempt) :
    ∃ effects result r, performAcquire ctx slot source key policy.1 started attempts =
        some (effects, result) ∧
      (Client.acquire ctx slot source key policy.1 started attempts = some r ∧
        r.result = result ∧ r.calls = (calls effects).length) ∧
      (calls effects).length ≤ policy.1.maxAttempts ∧
      (policy.1.wait = 0 → (calls effects).length ≤ 1 ∧ sleeps effects = []) ∧
      (∃ owner, ∀ call ∈ calls effects, newOwner source = .ok owner ∧
        call.1 = .tryAcquire key owner policy.1.ttl.toInt) ∧
      (∀ call ∈ (calls effects).dropLast,
        ∃ err, call.2.err = some err ∧ err.is .errContended = true) ∧
      (∀ d ∈ sleeps effects, policy.1.retry.toInt ≤ d ∧
        d ≤ policy.1.retry.toInt + policy.1.jitter.toInt) ∧
      (policy.1.wait ≠ 0 → Advances started effects →
        (sleeps effects).sum < policy.1.wait.toInt) ∧
      ∀ handle, result = .ok handle → ∃ owner call, newOwner source = .ok owner ∧
        (calls effects).getLast? = some call ∧ call.2.err = none ∧
        Answers key owner call.2.record := by
  obtain ⟨effects, result, r, hperform, hr, hresult, hcalls, hcases⟩ :=
    @performAcquire_cases ctx slot source key started attempts policy
  have hwait := policy.paced.wait_nonneg
  have hpos (h : policy.1.wait ≠ 0) : 0 < policy.1.wait.toInt := by
    have hne : policy.1.wait.toInt ≠ 0 := fun heq => h (Int64.toInt_inj.mp heq)
    omega
  refine ⟨effects, result, r, hperform, ⟨hr, hresult, hcalls⟩, ?_⟩
  rcases hcases with ⟨rfl, err, rfl⟩ | ⟨owner, rest, rfl, howner, hd⟩
  · refine ⟨Nat.zero_le _, fun _ => ⟨Nat.zero_le _, rfl⟩, ⟨[], ?_⟩, ?_, ?_, fun h _ => hpos h, ?_⟩
    · exact fun call hcall => absurd hcall List.not_mem_nil
    · exact fun call hcall => absurd hcall List.not_mem_nil
    · exact fun d hmem => absurd hmem List.not_mem_nil
    · intro handle hok
      cases hok
  · have hcalls : calls (.now started :: rest) = calls rest := rfl
    have hsleeps : sleeps (.now started :: rest) = sleeps rest := rfl
    rw [hcalls, hsleeps]
    refine ⟨by have := hd.bounded; omega, hd.once, ⟨owner, ?_⟩, hd.contended, ?_, ?_, ?_⟩
    · exact fun call hcall => ⟨howner, hd.requests call hcall⟩
    · intro d hmem
      obtain ⟨attempt, rfl⟩ := hd.delays d hmem
      exact delay_range policy attempt
    · rintro hne ⟨-, hadvances⟩
      rcases hd.waited started hadvances with hnone | hsum
      · rw [hnone]
        exact hpos hne
      · omega
    · intro handle hok
      obtain ⟨call, hlast, herr, hanswers⟩ := hd.accepted handle hok
      exact ⟨owner, call, howner, hlast, herr, hanswers⟩

/-- A contended attempt at a clock that stands still. -/
def contended : Attempt :=
  { started := ⟨0, 0⟩
    reply := ⟨zeroRecord, some (wrap .errContended "acquire")⟩
    parent := none
    waitContext := none
    jitter := 0
    now := 0
    sleepErr := none
    parentAfter := none
    waitContextAfter := none }

/-- With no wait nothing is slept, and nothing is not less than no wait. -/
theorem acquire_zero_wait :
    ∃ effects, performAcquire (some none) true (.ok [97]) ⟨[107]⟩ Policy.renewable.1 0
        (fun _ => contended) = some (effects, .error (wrap .errTimeout "acquire")) ∧
      Advances 0 effects ∧ ¬(sleeps effects).sum < Policy.renewable.1.wait.toInt := by
  refine ⟨_, rfl, ?_, by decide⟩
  exact ⟨Int.le_refl 0, Int.le_refl 0, trivial⟩

end Acquire

end GoLease.Retry
