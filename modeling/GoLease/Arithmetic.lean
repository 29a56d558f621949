import GoLease.Retry

/-!
The checks of NewPolicy and the arithmetic behind them, against the same checks
and sums over unbounded integers.
-/

namespace GoLease.Arithmetic

open Policy Client

section Jitter

variable {maximum : Int64}

theorem toNat_of_nonneg (h : 0 ≤ maximum.toInt) : (maximum.toUInt64.toNat : Int) = maximum.toInt := by
  have hle : 0 ≤ maximum := Int64.le_iff_toInt_le.mpr h
  rw [Int64.toNat_toUInt64_of_le hle, ← Int64.toNat_toInt, Int.toNat_of_nonneg h]

/-- The modulus of the random jitter is a positive number of uint64. -/
theorem modulus_eq (h : 0 ≤ maximum.toInt) :
    ((maximum.toUInt64 + 1).toNat : Int) = maximum.toInt + 1 := by
  have hnat := toNat_of_nonneg h
  have hlt := maximum.toInt_lt
  rw [UInt64.toNat_add, Nat.mod_eq_of_lt]
  · rw [Int.natCast_add, hnat]
    rfl
  · have h1 : (1 : UInt64).toNat = 1 := rfl
    omega

theorem toInt_toInt64 {n : UInt64} (h : n.toNat < 2 ^ 63) : n.toInt64.toInt = n.toNat := by
  apply BitVec.toInt_eq_toNat_of_lt
  change 2 * n.toNat < 2 ^ 64
  omega

theorem randomJitter_range (h : 0 ≤ maximum.toInt) (read : Except Error (Vector UInt8 8)) :
    0 ≤ (randomJitter maximum read).toInt ∧ (randomJitter maximum read).toInt ≤ maximum.toInt := by
  unfold randomJitter
  split
  next => exact ⟨Int.le_refl 0, h⟩
  next =>
    cases read with
    | error err => exact ⟨Int.le_refl 0, h⟩
    | ok bytes =>
        have hmodulus := modulus_eq h
        have hlt := maximum.toInt_lt
        have hrest : (bigEndianUint64 bytes % (maximum.toUInt64 + 1)).toNat <
            (maximum.toUInt64 + 1).toNat := by
          rw [UInt64.toNat_mod]
          exact Nat.mod_lt _ (by omega)
        dsimp only
        rw [toInt_toInt64 (by omega)]
        omega

end Jitter

/-- The ranges of an accepted policy, and the sums and differences that the
package computes from it, none of which wraps. -/
structure Sound (policy : Policy) : Prop where
  budget : 0 < policy.ttl.toInt - policy.safetyMargin.toInt ∧
    policy.ttl.toInt - policy.safetyMargin.toInt ≤ maxTTL.toInt
  renewal : policy.renewEvery.toInt = 0 ∨ 0 < policy.renewEvery.toInt ∧
    policy.renewEvery.toInt < policy.ttl.toInt - policy.safetyMargin.toInt
  timeout : 0 < policy.operationTimeout.toInt ∧
    policy.operationTimeout.toInt ≤ maxOperationTimeout.toInt
  attempts : 1 ≤ policy.maxAttempts ∧ policy.maxAttempts ≤ 10000
  created : ∀ record started,
    (Handle.newHandleAt policy record started).deadline =
        started.clock + (policy.ttl.toInt - policy.safetyMargin.toInt) ∧
      (Handle.newHandleAt policy record started).wallDeadline =
        started.wall + (policy.ttl.toInt - policy.safetyMargin.toInt)
  renewed : ∀ (handle : Handle) (reading started : Reading) (record : Record) (reply : Reply),
    handle.policy = policy → handle.finish reading record started reply .renew =
      handle.finishActiveOperation reading reply.record (Handle.replyErr record reply .renew)
        (started.clock + (policy.ttl.toInt - policy.safetyMargin.toInt))
        (started.wall + (policy.ttl.toInt - policy.safetyMargin.toInt))
  delayed : ∀ attempt, delay policy attempt =
    policy.retry.toInt + (boundedJitter attempt.jitter policy.jitter).toInt
  modulus : ((policy.jitter.toUInt64 + 1).toNat : Int) = policy.jitter.toInt + 1
  jitter : ∀ read, 0 ≤ (randomJitter policy.jitter read).toInt ∧
    (randomJitter policy.jitter read).toInt ≤ policy.jitter.toInt

theorem sound_ranges {options : PolicyOptions} (h : (unbounded options).Admissible) :
    let remaining := options.ttl.toInt - options.safetyMargin.toInt
    (0 < remaining ∧ remaining ≤ maxTTL.toInt) ∧
      (options.renewEvery.toInt = 0 ∨ 0 < options.renewEvery.toInt ∧ options.renewEvery.toInt < remaining) ∧
      0 < options.operationTimeout.toInt ∧ options.operationTimeout.toInt ≤ maxOperationTimeout.toInt := by
  obtain ⟨hmargin, hremaining⟩ := h.margin
  obtain ⟨httl, httl'⟩ := h.ttl
  refine ⟨⟨hremaining, ?_⟩, h.renewal, h.timeout⟩
  exact Int.le_trans (Int.sub_le_self _ hmargin) httl'

theorem accepted_sound (policy : Accepted) : Sound policy.1 := by
  have hbudget := policy.valid.budget_eq
  obtain ⟨options, hpolicy, h⟩ := policy.admissible
  obtain ⟨hrange, hrenewal, htimeout⟩ := sound_ranges h
  refine ⟨?_, ?_, ?_, ?_, ?_, ?_, Retry.delay_eq policy, ?_, ?_⟩
  · rw [hpolicy]
    exact hrange
  · rw [hpolicy]
    exact hrenewal
  · rw [hpolicy]
    exact htimeout
  · rw [hpolicy]
    exact h.attempts
  · intro record started
    rw [← hbudget]
    exact ⟨rfl, rfl⟩
  · intro handle reading started record reply hhandle
    rw [← hbudget, ← hhandle]
    rfl
  · exact modulus_eq policy.paced.jitter_nonneg
  · exact randomJitter_range policy.paced.jitter_nonneg

/-- NewPolicy decides as it would over the integers, and nothing computed from
a policy that it returns wraps. -/
theorem policy_arithmetic :
    (∀ options, (∃ policy, newPolicy options = .ok policy) ↔
        (unbounded options).withDefaults.Admissible) ∧
      ∀ policy : Accepted, Sound policy.1 :=
  ⟨fun _ => newPolicy_isOk, accepted_sound⟩

end GoLease.Arithmetic
