import GoLease.Availability.Stores
import GoLease.Honest
import GoLease.Lossy.Answers
import GoLease.Memory.Superseded
import GoLease.Retry

/-!
Acquire against a lease that nobody keeps up. A policy that waits long enough
for the TTLs in use times out only if somebody else was granted the lease, or
renewed it, after the wait had begun.
-/

namespace GoLease.Availability

open Traces Client

/-- What surrounds the attempts of one Acquire: the calls that the store has
executed before each of them, and when and in which context it was executed. -/
structure Course where
  past : Nat → List Call
  instant : Nat → Int
  ctx : Nat → Ctx

def Course.call (course : Course) (key : Key) (owner : Bytes) (policy : Policy) (n : Nat) : Call :=
  ⟨course.instant n, course.ctx n, .tryAcquire key owner policy.ttl.toInt⟩

/-- How long a wait under a policy can last at least, if the surroundings are
late by no more than a lag. -/
def patience (policy : Policy) (lag : Int) : Int :=
  min (policy.wait.toInt - policy.retry.toInt - policy.jitter.toInt - 2 * lag)
    ((policy.maxAttempts - 1 : Int) * policy.retry.toInt)

/-- Acquire on the clock of a store that answers, for a caller who does not
give up: the wait's context and the sleeper end early only for its deadline. -/
structure Prompt {σ : Type} (exec : σ → Call → σ × Reply) (store : σ) (key : Key) (owner : Bytes)
    (policy : Policy) (started lag : Int) (course : Course) (attempts : Nat → Attempt) : Prop where
  begun : started ≤ course.instant 1
  replies : ∀ n, (attempts n).reply =
    (exec (run exec store (course.past n)) (course.call key owner policy n)).2
  after : ∀ n, course.instant n ≤ (attempts n).now
  soon : ∀ n, (attempts n).now ≤ course.instant n + lag
  timer : ∀ n, (attempts n).waitContext ≠ none → started + policy.wait.toInt ≤ (attempts n).now + lag
  slept : ∀ n, (attempts n).sleepErr = none →
    (attempts n).now + delay policy (attempts n) ≤ course.instant (n + 1)
  woken : ∀ n, (attempts n).sleepErr ≠ none →
    started + policy.wait.toInt ≤ (attempts n).now + delay policy (attempts n) + lag

section Wait

variable {σ κ : Type} {exec : σ → Call → σ × Reply} {store : σ} {key : Key} {owner : Bytes}
  {policy : Policy.Accepted} {started lag : Int} {course : Course} {attempts : Nat → Attempt}

/-- The instants of the attempts are a retry interval apart. -/
theorem Prompt.paced (h : Prompt exec store key owner policy.1 started lag course attempts) {deadline : Int}
    {n : Nat} (hretries : ∀ m, 0 < m → m < n + 1 → Retries policy.1 deadline m (attempts m)) :
    started + n * policy.1.retry.toInt ≤ course.instant (n + 1) := by
  induction n with
  | zero =>
      have := h.begun
      simpa using this
  | succ n ih =>
      have hlast := hretries (n + 1) (Nat.succ_pos n) (Nat.lt_succ_self _)
      have hinstant := ih (fun m hm hlt => hretries m hm (Nat.lt_succ_of_lt hlt))
      have hnext := h.slept (n + 1) hlast.slept
      have hafter := h.after (n + 1)
      have hdelay := (Retry.delay_range policy (attempts (n + 1))).1
      have hmul : ((n + 1 : Nat) : Int) * policy.1.retry.toInt =
          n * policy.1.retry.toInt + policy.1.retry.toInt := by
        push_cast
        rw [Int.add_mul, Int.one_mul]
      omega

/-- Acquire does not stop on a contended attempt before its patience is over. -/
theorem Prompt.waited (h : Prompt exec store key owner policy.1 started lag course attempts) {last : Nat}
    (hstop : StopsAt policy.1 (started + policy.1.wait.toInt) attempts last) {err : Error}
    (herr : (attempts last).reply.err = some err) (hcontended : isContention err = true) :
    started + patience policy.1 lag ≤ course.instant last := by
  obtain ⟨hpos, hretries, hnot⟩ := hstop
  obtain ⟨n, rfl⟩ : ∃ n, last = n + 1 := ⟨last - 1, by omega⟩
  have hinstant := h.paced hretries
  have hdelay := Retry.delay_range policy (attempts (n + 1))
  have hafter := h.after (n + 1)
  have hsoon := h.soon (n + 1)
  have hpaced := policy.paced
  have hretry := hpaced.retry_nonneg
  have hjitter := hpaced.jitter_nonneg
  have hnonneg : 0 ≤ n * policy.1.retry.toInt := Int.mul_nonneg (Int.natCast_nonneg n) hretry
  have hwait : started + patience policy.1 lag ≤ course.instant (n + 1) ∨ course.instant (n + 1) <
      started + policy.1.wait.toInt - policy.1.retry.toInt - policy.1.jitter.toInt - 2 * lag := by
    unfold patience
    omega
  by_contra hearly
  have hwait := hwait.resolve_left hearly
  refine hnot ⟨⟨err, herr, hcontended⟩, ?_, ⟨?_, ?_⟩, ?_, ?_⟩
  · cases hc : (attempts (n + 1)).waitContext with
    | none => simp [waitDeadlineReached]
    | some reason =>
        have := h.timer (n + 1) (by rw [hc]; exact Option.some_ne_none _)
        omega
  · intro hzero
    rw [hzero, Int64.toInt_zero] at hwait
    omega
  · intro hmax
    refine hearly (Int.le_trans ?_ hinstant)
    have hlast : (policy.1.maxAttempts - 1 : Int) = n := by omega
    rw [patience, hlast]
    omega
  · omega
  · by_contra hslept
    have := h.woken (n + 1) hslept
    omega

variable {slot : Key → κ} {P : Reply → Prop} {Fits : Call → Prop}

/-- Somebody was granted the lease of the slot, or renewed it, after an instant. -/
def Overtaken (slot : Key → κ) (P : Reply → Prop) (key : Key) (instant : Int)
    (past : List (Call × Reply)) : Prop :=
  ∃ entry ∈ past, ∃ limit, Grants slot P (slot key) limit entry ∧ instant < entry.1.now

theorem overtaken_of_lastGrant {past : List Call} {limit instant longest : Int}
    (h : LastGrant slot P (slot key) limit (trace exec store past)) (hlt : instant + longest < limit)
    (hshort : ∀ call ∈ past, ∀ other ttl, extension call.request = some (other, ttl) →
      slot other = slot key → ttl ≤ longest) :
    Overtaken slot P key instant (trace exec store past) := by
  obtain ⟨before, entry, after, hpast, hgrant, -⟩ := h
  have hmem : entry ∈ trace exec store past := by simp [hpast]
  have hcall : entry.1 ∈ past := mem_of_mem_trace hmem
  refine ⟨entry, hmem, limit, hgrant, ?_⟩
  obtain ⟨-, other, ttl, hext, hslot, rfl⟩ := hgrant
  have := hshort _ hcall other ttl hext hslot
  omega

theorem Lapsing.overtaken (l : Lapsing exec slot P Fits) (hok : l.ok store)
    (hempty : ∀ k, l.ends store k = none)
    (h : Prompt exec store key owner policy.1 started lag course attempts)
    (hfits : ∀ n, Fits (course.call key owner policy.1 n) ∧ ∀ call ∈ course.past n, Fits call)
    (hshort : ∀ n, ∀ call ∈ course.past n, ∀ other ttl, extension call.request = some (other, ttl) →
      slot other = slot key → ttl ≤ patience policy.1 lag)
    {last : Nat} (hstop : StopsAt policy.1 (started + policy.1.wait.toInt) attempts last) {err : Error}
    (herr : (attempts last).reply.err = some err) (hcontended : isContention err = true) :
    Overtaken slot P key started (trace exec store (course.past last)) := by
  have hwaited := h.waited hstop herr hcontended
  rw [h.replies] at herr
  obtain ⟨limit, hlast, hlt⟩ := l.contention hok hempty (hfits last).2 (hfits last).1 rfl herr hcontended
  exact overtaken_of_lastGrant hlast (Int.lt_of_le_of_lt hwaited hlt) (hshort last)

end Wait

/-- Acquire returns. It has the lease, or was refused for another reason than
contention, or was overtaken while it waited. -/
def Outwaits {σ κ : Type} (exec : σ → Call → σ × Reply) (slot : Key → κ) (P : Reply → Prop)
    (Fits : Call → Prop) (store : σ) : Prop :=
  ∀ (policy : Policy.Accepted) (source : Except Error Bytes) (key : Key) (owner : Bytes) (started lag : Int)
    (course : Course) (attempts : Nat → Attempt), newOwner source = .ok owner →
    Prompt exec store key owner policy.1 started lag course attempts →
    (∀ n, Fits (course.call key owner policy.1 n) ∧ ∀ call ∈ course.past n, Fits call) →
    (∀ n, ∀ call ∈ course.past n, ∀ other ttl, extension call.request = some (other, ttl) →
      slot other = slot key → ttl ≤ patience policy.1 lag) →
    ∃ r, acquire (some none) true source key policy.1 started attempts = some r ∧
      ((∃ handle, r.result = .ok handle) ∨
        (∃ err, (attempts r.calls).reply.err = some err ∧ isContention err = false) ∨
        Overtaken slot P key started (trace exec store (course.past r.calls)))

theorem Lapsing.outwaits {σ κ : Type} {exec : σ → Call → σ × Reply} {slot : Key → κ} {P : Reply → Prop}
    {Fits : Call → Prop} (l : Lapsing exec slot P Fits) {store : σ} (hok : l.ok store)
    (hempty : ∀ k, l.ends store k = none)
    (hvalid : ∀ past now ctx key owner ttl,
      Lossy.Fits (.tryAcquire key owner ttl)
        (exec (Traces.run exec store past) ⟨now, ctx, .tryAcquire key owner ttl⟩).2) :
    Outwaits exec slot P Fits store := by
  intro policy source key owner started lag course attempts howner h hfits hshort
  have hacquire : acquire (some none) true source key policy.1 started attempts =
      loop key owner policy.1 (started + policy.1.wait.toInt) attempts policy.1.maxAttempts 1 := by
    simp [acquire, acquisitionContextError, howner]
  obtain ⟨r, hloop, hstop, hdone⟩ := @loop_stopsAt key owner policy.1 (started + policy.1.wait.toInt) attempts
    policy.1.maxAttempts 1 Nat.one_pos (fun n hn hlt => absurd hn (by omega)) (Nat.lt_succ_self _)
    policy.valid.attempts_pos
  refine ⟨r, hacquire.trans hloop, ?_⟩
  cases herr : (attempts r.calls).reply.err with
  | none =>
      have hok : validAcquisition key owner (attempts r.calls).reply.record = true := by
        rw [h.replies] at herr ⊢
        exact hvalid _ _ _ _ _ _ herr
      simp only [iteration, herr, accept, hok, if_true, Verdict.done.injEq] at hdone
      exact .inl ⟨_, hdone.symm⟩
  | some err =>
      cases hcontended : isContention err with
      | false => exact .inr (.inl ⟨err, rfl, hcontended⟩)
      | true => exact .inr (.inr (l.overtaken hok hempty h hfits hshort hstop herr hcontended))

theorem memory_fits {maxKeys : Nat} {store : Memory.Store} (hnew : Memory.new maxKeys = .ok store)
    (past : List Call) (now : Int) (ctx : Ctx) (key : Key) (owner : Bytes) (ttl : Int) :
    Lossy.Fits (.tryAcquire key owner ttl)
      (Memory.Store.exec (run Memory.Store.exec store past) ⟨now, ctx, .tryAcquire key owner ttl⟩).2 := by
  intro herr
  have hle := Memory.Superseded.reachable_fence_le hnew key past
  obtain ⟨hvalid, -, hmax, hrecord, -⟩ := ((run Memory.Store.exec store past).exec_step
    ⟨now, ctx, .tryAcquire key owner ttl⟩).acquired_of_ok herr
  refine validAcquisition_iff.mpr ?_
  have hpos : 0 < ttl := Honest.ttl_pos hvalid
  simp only [maxUint64] at hle hmax
  rw [hrecord]
  refine ⟨rfl, rfl, ?_, ?_⟩
  · dsimp only
    omega
  · dsimp only
    omega

theorem acquire_outwaits {maxKeys : Nat} {memory : Memory.Store} (hnew : Memory.new maxKeys = .ok memory)
    (postgres : Postgres.Store) (valkey : Valkey.Store) :
    Outwaits Memory.Store.exec id Given (fun _ => True) memory ∧
    Outwaits postgres.serve postgres.digest Given (fun _ => True) .empty ∧
    Outwaits valkey.serve valkey.leaseKey Answered Valkeyable (fun _ => none) := by
  refine ⟨?_, ?_, ?_⟩
  · refine memoryLapsing.outwaits trivial (fun k => ?_) (memory_fits hnew)
    obtain rfl := Memory.new_ok hnew
    rfl
  · refine (postgresLapsing postgres).outwaits trivial (fun _ => rfl) ?_
    intro past now ctx key owner ttl
    have hfits := (Lossy.postgres_returns postgres (Postgres.Responses.serving postgres (Postgres.frozen now) [])
      (run postgres.serve .empty past) ctx ctx (.tryAcquire key owner ttl)).fits
    rwa [Postgres.Responses.exec_serving] at hfits
  · refine (valkeyLapsing valkey).outwaits Valkey.Store.wellFormed_empty (fun _ => rfl) ?_
    intro past now ctx key owner ttl
    exact (Lossy.valkey_returns valkey _ _ ctx (.tryAcquire key owner ttl)).fits

def waiting : Policy.Accepted :=
  ⟨_, { ttl := 5000000, wait := 20000000, retry := 1000000, maxAttempts := 10 }, rfl⟩

/-- One attempt a millisecond, after the only holder has crashed. -/
def afterCrash : Course := ⟨fun _ => held, fun n => 1000000 * n, fun _ => none⟩

def everyMillisecond (n : Nat) : Attempt where
  started := ⟨1000000 * n, 1000000 * n⟩
  reply := (Memory.Store.exec (run Memory.Store.exec ⟨1, ∅⟩ (afterCrash.past n))
    (afterCrash.call ⟨[107]⟩ [98] waiting.1 n)).2
  parent := none
  waitContext := none
  jitter := 0
  now := 1000000 * n
  sleepErr := none
  parentAfter := none
  waitContextAfter := none

theorem delay_everyMillisecond (n : Nat) : delay waiting.1 (everyMillisecond n) = 1000000 := by
  have hjitter : (everyMillisecond n).jitter = 0 := rfl
  rw [delay, hjitter]
  decide

theorem prompt_afterCrash :
    Prompt Memory.Store.exec ⟨1, ∅⟩ ⟨[107]⟩ [98] waiting.1 1000000 0 afterCrash everyMillisecond := by
  have hinstant (n : Nat) : afterCrash.instant n = 1000000 * n := rfl
  have hnow (n : Nat) : (everyMillisecond n).now = 1000000 * n := rfl
  have hreplies (n : Nat) : (everyMillisecond n).reply = (Memory.Store.exec (run Memory.Store.exec ⟨1, ∅⟩
      (afterCrash.past n)) (afterCrash.call ⟨[107]⟩ [98] waiting.1 n)).2 := by
    simp only [everyMillisecond]
  refine ⟨?_, hreplies, ?_, ?_, fun _ h => absurd rfl h, ?_, fun _ h => absurd rfl h⟩
  · rw [hinstant]
    decide
  · intro n
    rw [hinstant, hnow]
  · intro n
    rw [hinstant, hnow]
    omega
  · intro n _
    rw [hinstant, hnow, delay_everyMillisecond]
    omega

/-- The lease is free five milliseconds after its last grant, and taken at once. -/
theorem acquire_outwaits_crash : ∃ r handle,
    acquire (some none) true (.ok [98]) ⟨[107]⟩ waiting.1 1000000 everyMillisecond = some r ∧
      r.result = .ok handle ∧ r.calls = 5 := by
  obtain ⟨r, hr, hresult⟩ := (@acquire_outwaits 1 ⟨1, ∅⟩ rfl ⟨id, fun _ => true⟩ Valkey.Store.plain).1 waiting
    (.ok [98]) ⟨[107]⟩ [98] 1000000 0 afterCrash everyMillisecond rfl prompt_afterCrash
    (fun n => ⟨trivial, fun _ _ => trivial⟩) (by
      intro n call hmem other ttl hext hslot
      rw [List.mem_singleton.mp hmem] at hext
      cases hext
      decide)
  have hcalls : (acquire (some none) true (.ok [98]) ⟨[107]⟩ waiting.1 1000000 everyMillisecond).map
      Acquisition.calls = some 5 := by decide
  rw [hr, Option.map_some] at hcalls
  have hcalls := Option.some.inj hcalls
  rcases hresult with ⟨handle, hok⟩ | ⟨err, herr, -⟩ | ⟨entry, hmem, -, -, hlt⟩
  · exact ⟨r, handle, hr, hok, hcalls⟩
  · have hnone : (everyMillisecond 5).reply.err = none := by decide
    rw [hcalls, hnone] at herr
    cases herr
  · rw [List.mem_singleton.mp (mem_of_mem_trace hmem)] at hlt
    exact absurd hlt (by decide)

end GoLease.Availability
