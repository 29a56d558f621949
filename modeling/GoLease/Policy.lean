import GoLease.Backend
import Mathlib.Tactic.Common

namespace GoLease

def maxTTL : Int64 := 86400000000000
def maxWait : Int64 := 3600000000000
def maxAttempts : Nat := 10000
def maxOperationTimeout : Int64 := 60000000000
def failureFailClosed : Nat := 1

structure PolicyOptions where
  ttl : Int64
  wait : Int64 := 0
  retry : Int64 := 0
  jitter : Int64 := 0
  renewEvery : Int64 := 0
  safetyMargin : Int64 := 0
  maxAttempts : Nat
  operationTimeout : Int64 := 0
  failureBehavior : Nat := 0
  deriving DecidableEq, Repr

structure Policy where
  ttl : Int64
  wait : Int64
  retry : Int64
  jitter : Int64
  renewEvery : Int64
  safetyMargin : Int64
  maxAttempts : Nat
  operationTimeout : Int64
  failureBehavior : Nat
  deriving DecidableEq, Repr

namespace Policy

def withDefaults (options : PolicyOptions) : PolicyOptions :=
  let timed := if options.operationTimeout = 0
    then { options with operationTimeout := min options.ttl 30000000000 } else options
  if timed.failureBehavior = 0 then { timed with failureBehavior := failureFailClosed } else timed

def invalidRenewal (options : PolicyOptions) (remainingTTL : Int64) : Bool :=
  if options.renewEvery ≠ 0
    then options.renewEvery < 0 || options.renewEvery ≥ remainingTTL else options.renewEvery < 0

/-- The rejecting condition of NewPolicy. The subtraction wraps, as int64
subtraction does, and comes before any range is checked. -/
def invalid (options : PolicyOptions) : Bool :=
  let remainingTTL := options.ttl - options.safetyMargin
  options.ttl < 1 || options.ttl > maxTTL ||
    options.wait < 0 || options.wait > maxWait || options.retry < 0 || options.retry > maxWait ||
    options.jitter < 0 || options.safetyMargin < 0 ||
    remainingTTL < 1 || options.jitter > options.retry ||
    invalidRenewal options remainingTTL ||
    options.maxAttempts == 0 || options.maxAttempts > GoLease.maxAttempts ||
    options.operationTimeout < 1 || options.operationTimeout > maxOperationTimeout ||
    options.failureBehavior != failureFailClosed ||
    (options.wait > 0 && options.retry == 0)

def ofOptions (options : PolicyOptions) : Policy :=
  ⟨options.ttl, options.wait, options.retry, options.jitter, options.renewEvery,
    options.safetyMargin, options.maxAttempts, options.operationTimeout, options.failureBehavior⟩

def newPolicy (options : PolicyOptions) : Except Error Policy :=
  if invalid (withDefaults options)
    then .error (.detailed (.sentinel .errInvalidState) "invalid policy")
    else .ok (ofOptions (withDefaults options))

/-- A policy that NewPolicy returned. The fields are private to the package,
so a client never holds another one but the zero value. -/
def Accepted : Type := { policy : Policy // ∃ options, newPolicy options = .ok policy }

/-- TTL - SafetyMargin as the handle computes it. -/
def budget (policy : Policy) : Int := (policy.ttl - policy.safetyMargin).toInt

theorem newPolicy_ok {options : PolicyOptions} {policy : Policy}
    (h : newPolicy options = .ok policy) :
    invalid (withDefaults options) = false ∧ policy = ofOptions (withDefaults options) := by
  simp only [newPolicy] at h
  split at h
  next hi => cases h
  next hi => exact ⟨by simpa using hi, (Except.ok.inj h).symm⟩

theorem sub_toInt_of_nonneg {a b : Int64} (ha : 0 ≤ a.toInt) (hb : 0 ≤ b.toInt) :
    (a - b).toInt = a.toInt - b.toInt := by
  have h₁ := a.toInt_lt
  have h₂ := b.toInt_lt
  rw [Int64.toInt_sub, Int.bmod_eq_of_le] <;> omega

/-- The options of a policy with unbounded integers for its durations. -/
structure Unbounded where
  ttl : Int
  wait : Int
  retry : Int
  jitter : Int
  renewEvery : Int
  safetyMargin : Int
  maxAttempts : Nat
  operationTimeout : Int
  failureBehavior : Nat

def unbounded (options : PolicyOptions) : Unbounded where
  ttl := options.ttl.toInt
  wait := options.wait.toInt
  retry := options.retry.toInt
  jitter := options.jitter.toInt
  renewEvery := options.renewEvery.toInt
  safetyMargin := options.safetyMargin.toInt
  maxAttempts := options.maxAttempts
  operationTimeout := options.operationTimeout.toInt
  failureBehavior := options.failureBehavior

namespace Unbounded

/-- The documented defaults, of the timeout and of the failure behavior. -/
def withDefaults (options : Unbounded) : Unbounded :=
  { options with
    operationTimeout :=
      if options.operationTimeout = 0 then min options.ttl 30000000000 else options.operationTimeout
    failureBehavior :=
      if options.failureBehavior = 0 then failureFailClosed else options.failureBehavior }

/-- The documented ranges and relations of the options. -/
structure Admissible (options : Unbounded) : Prop where
  ttl : 1 ≤ options.ttl ∧ options.ttl ≤ maxTTL.toInt
  wait : 0 ≤ options.wait ∧ options.wait ≤ maxWait.toInt
  retry : 0 ≤ options.retry ∧ options.retry ≤ maxWait.toInt
  jitter : 0 ≤ options.jitter ∧ options.jitter ≤ options.retry
  margin : 0 ≤ options.safetyMargin ∧ 1 ≤ options.ttl - options.safetyMargin
  renewal : options.renewEvery = 0 ∨
    0 < options.renewEvery ∧ options.renewEvery < options.ttl - options.safetyMargin
  attempts : 1 ≤ options.maxAttempts ∧ options.maxAttempts ≤ GoLease.maxAttempts
  timeout : 1 ≤ options.operationTimeout ∧ options.operationTimeout ≤ maxOperationTimeout.toInt
  behavior : options.failureBehavior = failureFailClosed
  pace : 0 < options.wait → options.retry ≠ 0

end Unbounded

theorem min_toInt (a b : Int64) : (min a b).toInt = min a.toInt b.toInt := by
  have hmin : min a b = if a ≤ b then a else b := rfl
  rw [hmin, Int.min_def]
  simp only [Int64.le_iff_toInt_le]
  split <;> rfl

theorem toInt_eq_zero {a : Int64} : a.toInt = 0 ↔ a = 0 := by
  rw [← Int64.toInt_inj]
  rfl

theorem unbounded_withDefaults (options : PolicyOptions) :
    unbounded (withDefaults options) = (unbounded options).withDefaults := by
  obtain ⟨ttl, wait, retry, jitter, renewEvery, safetyMargin, maxAttempts, timeout, behavior⟩ := options
  simp only [withDefaults, unbounded, Unbounded.withDefaults, toInt_eq_zero]
  by_cases ht : timeout = 0 <;> by_cases hb : behavior = 0 <;>
    simp [ht, hb, min_toInt]

theorem invalidRenewal_eq_false {options : PolicyOptions} {remaining : Int64} :
    invalidRenewal options remaining = false ↔ options.renewEvery.toInt = 0 ∨
      0 < options.renewEvery.toInt ∧ options.renewEvery.toInt < remaining.toInt := by
  have h0 : (0 : Int64).toInt = 0 := rfl
  unfold invalidRenewal
  rw [toInt_eq_zero]
  split
  next h =>
    have hne : options.renewEvery.toInt ≠ 0 := fun hz => h (toInt_eq_zero.mp hz)
    simp only [Bool.or_eq_false_iff, decide_eq_false_iff_not, Int64.lt_iff_toInt_lt, ge_iff_le,
      Int64.le_iff_toInt_le, h, false_or]
    omega
  next h =>
    rw [not_not] at h
    simp [h]

/-- The subtraction wraps only where one of the checks on its operands fails. -/
theorem invalid_eq_false {options : PolicyOptions} :
    invalid options = false ↔ (unbounded options).Admissible := by
  have h0 : (0 : Int64).toInt = 0 := rfl
  have h1 : (1 : Int64).toInt = 1 := rfl
  simp only [invalid, Bool.or_eq_false_iff, decide_eq_false_iff_not, and_assoc, gt_iff_lt,
    Int64.lt_iff_toInt_lt, invalidRenewal_eq_false, Bool.and_eq_false_iff, beq_eq_false_iff_ne,
    bne_eq_false_iff_eq, h0, h1, Int.not_lt, Nat.not_lt]
  constructor
  · rintro ⟨httl, httl', hwait, hwait', hretry, hretry', hjitter, hmargin, hremaining, hjitter', hrenewal,
      hattempts, hattempts', htimeout, htimeout', hbehavior, hpace⟩
    have hsub := sub_toInt_of_nonneg (a := options.ttl) (b := options.safetyMargin) (by omega) hmargin
    rw [hsub] at hremaining hrenewal
    refine ⟨⟨httl, httl'⟩, ⟨hwait, hwait'⟩, ⟨hretry, hretry'⟩, ⟨hjitter, hjitter'⟩, ⟨hmargin, hremaining⟩,
      hrenewal, ⟨Nat.pos_of_ne_zero hattempts, hattempts'⟩, ⟨htimeout, htimeout'⟩, hbehavior, ?_⟩
    intro hpos hzero
    rcases hpace with h | h
    · exact absurd hpos (Int.not_lt.mpr h)
    · exact h (toInt_eq_zero.mp hzero)
  · rintro ⟨⟨httl, httl'⟩, ⟨hwait, hwait'⟩, ⟨hretry, hretry'⟩, ⟨hjitter, hjitter'⟩, ⟨hmargin, hremaining⟩,
      hrenewal, ⟨hattempts, hattempts'⟩, ⟨htimeout, htimeout'⟩, hbehavior, hpace⟩
    simp only [unbounded] at *
    have hsub := sub_toInt_of_nonneg (a := options.ttl) (b := options.safetyMargin) (by omega) hmargin
    rw [hsub]
    refine ⟨httl, httl', hwait, hwait', hretry, hretry', hjitter, hmargin, hremaining, hjitter', hrenewal,
      Nat.pos_iff_ne_zero.mp hattempts, hattempts', htimeout, htimeout', hbehavior, ?_⟩
    by_cases hpos : 0 < options.wait.toInt
    · exact .inr (fun h => hpace hpos (toInt_eq_zero.mpr h))
    · exact .inl (Int.not_lt.mp hpos)

theorem newPolicy_isOk {options : PolicyOptions} : (∃ policy, newPolicy options = .ok policy) ↔
    (unbounded options).withDefaults.Admissible := by
  rw [← unbounded_withDefaults, ← invalid_eq_false]
  constructor
  · rintro ⟨policy, h⟩
    exact (newPolicy_ok h).1
  · intro h
    exact ⟨_, if_neg (by rw [h]; exact Bool.false_ne_true)⟩

-- A difference that wraps to a positive number passes the checks on the difference.
example : let options : PolicyOptions :=
      { ttl := -2, safetyMargin := 9223372036854775807, renewEvery := 1, maxAttempts := 1 }
    invalidRenewal options (options.ttl - options.safetyMargin) = false ∧
      1 ≤ options.ttl - options.safetyMargin ∧ invalid (withDefaults options) = true := by
  decide

theorem Accepted.admissible (policy : Accepted) :
    ∃ options, policy.1 = ofOptions options ∧ (unbounded options).Admissible := by
  obtain ⟨policy, options, h⟩ := policy
  obtain ⟨hi, rfl⟩ := newPolicy_ok h
  exact ⟨_, rfl, invalid_eq_false.mp hi⟩

/-- What the checks of NewPolicy leave for the rest of the package. -/
structure Valid (policy : Policy) : Prop where
  margin_nonneg : 0 ≤ policy.safetyMargin.toInt
  budget_pos : 0 < policy.budget
  budget_eq : policy.budget = policy.ttl.toInt - policy.safetyMargin.toInt
  attempts_pos : 0 < policy.maxAttempts

theorem Accepted.valid (policy : Accepted) : Valid policy.1 := by
  obtain ⟨options, hpolicy, h⟩ := policy.admissible
  obtain ⟨hmargin, hremaining⟩ := h.margin
  have hbudget : (ofOptions options).budget = options.ttl.toInt - options.safetyMargin.toInt :=
    sub_toInt_of_nonneg (Int.le_trans Int.one_nonneg h.ttl.1) hmargin
  rw [hpolicy]
  refine ⟨hmargin, ?_, hbudget, h.attempts.1⟩
  rw [hbudget]
  exact hremaining

/-- The ranges of the durations that Acquire waits by. -/
structure Paced (policy : Policy) : Prop where
  wait_nonneg : 0 ≤ policy.wait.toInt
  retry_nonneg : 0 ≤ policy.retry.toInt
  retry_le : policy.retry.toInt ≤ 3600000000000
  jitter_nonneg : 0 ≤ policy.jitter.toInt
  jitter_le : policy.jitter.toInt ≤ policy.retry.toInt

theorem Accepted.paced (policy : Accepted) : Paced policy.1 := by
  obtain ⟨options, hpolicy, h⟩ := policy.admissible
  rw [hpolicy]
  exact ⟨h.wait.1, h.retry.1, h.retry.2, h.jitter.1, h.jitter.2⟩

/-- A small policy for concrete runs. -/
def renewable : Accepted :=
  ⟨_, { ttl := 1000, safetyMargin := 100, renewEvery := 300, maxAttempts := 1 }, rfl⟩

end Policy

end GoLease
