import GoLease.Postgres.Fences
import GoLease.Postgres.Store
import Mathlib.Tactic.SplitIfs

namespace GoLease.Postgres

/-- All readings of a statement are one common reading. -/
def frozen (now : Int) : Clock := fun _ => now

/-- One call against a server whose clock shows the instant of the call. -/
def Store.serve (store : Store) (db : Database) (call : Call) : Database × Reply :=
  store.exec (frozen call.now) db call.ctx call.request

namespace Database

variable {db : Database} {digest owner : Bytes} {token : Nat} {now ms : Int} {row : Row}

theorem check_iff : row.check = true ↔
    (1 ≤ row.owner.length ∧ row.owner.length ≤ 128) ∧ 0 < row.token ∧
      row.acquiredAt < row.expiresAt := by
  simp only [Row.check, Bool.and_eq_true, decide_eq_true_eq, and_assoc, gt_iff_lt]

theorem refusal_contended (h : db.nextFence digest = some token) : db.refusal digest = .contended := by
  unfold nextFence at h
  unfold refusal
  split
  next fence hf =>
    rw [hf] at h
    dsimp only at h
    split at h
    next hlt => exact if_neg (Nat.not_le.mpr hlt)
    next => cases h
  next => rfl

theorem refusal_exhausted (h : db.nextFence digest = none) :
    db.refusal digest = .exhausted := by
  unfold nextFence at h
  unfold refusal
  split at h
  next => cases h
  next fence hf =>
    split at h
    next => cases h
    next hle =>
      rw [hf]
      exact if_pos (Nat.not_lt.mp hle)

theorem check_proposed (ht : db.nextFence digest = some token)
    (hown : 1 ≤ owner.length ∧ owner.length ≤ 128) (hms : 0 < ms) :
    (⟨owner, token, now, now + ms * millisecond, true, now⟩ : Row).check = true := by
  refine check_iff.mpr ⟨hown, (Fences.nextFence_range ht).1, ?_⟩
  simp only [millisecond]
  omega

theorem acquireSQL_granted (ht : db.nextFence digest = some token)
    (hown : 1 ≤ owner.length ∧ owner.length ≤ 128) (hms : 0 < ms)
    (hvacant : ∀ row, db.records digest = some row → row.active = false ∨ row.expiresAt ≤ now) :
    db.acquireSQL (frozen now) digest owner ms =
      ((db.setFence digest token).setRecord digest
          ⟨owner, token, now, now + ms * millisecond, true, now⟩,
        some ⟨token, now, now + ms * millisecond, .ok⟩) := by
  simp only [acquireSQL, ht, frozen, check_proposed ht hown hms, not_true_eq_false, if_false]
  cases hr : db.records digest with
  | none => rfl
  | some row =>
      dsimp only
      rw [if_pos ((hvacant row hr).imp_left (fun hf => by simp [hf]))]

theorem acquireSQL_contended (ht : db.nextFence digest = some token)
    (hown : 1 ≤ owner.length ∧ owner.length ≤ 128) (hms : 0 < ms) (hr : db.records digest = some row)
    (ha : row.active = true) (hlt : now < row.expiresAt) :
    db.acquireSQL (frozen now) digest owner ms =
      (db.setFence digest token, some ⟨0, now, now, .contended⟩) := by
  simp only [acquireSQL, ht, frozen, check_proposed ht hown hms, hr, ha, not_true_eq_false, if_false,
    false_or, refusal_contended ht]
  rw [if_neg (Int.not_le.mpr hlt)]

/-- The row carries this owner and token, is active and unexpired. -/
def Current (row : Row) (owner : Bytes) (token : Nat) (now : Int) : Prop :=
  row.owner = owner ∧ row.token = token ∧ row.active = true ∧ now < row.expiresAt

theorem current_iff : (row.ours owner token ∧ row.active ∧ row.expiresAt > now) ↔
    Current row owner token now := by
  simp only [Row.ours, Bool.and_eq_true, beq_iff_eq, and_assoc, Current, gt_iff_lt]

theorem renewSQL_current (hr : db.records digest = some row) (h : Current row owner token now)
    (hcheck : row.check = true) (hlt : row.acquiredAt < now + ms * millisecond) :
    db.renewSQL (frozen now) digest owner token ms =
      (db.setRecord digest { row with expiresAt := now + ms * millisecond, updatedAt := now },
        some (some ⟨token, row.acquiredAt, now + ms * millisecond⟩)) := by
  have hcheck' : ({ row with expiresAt := now + ms * millisecond, updatedAt := now } : Row).check = true :=
    check_iff.mpr ⟨(check_iff.mp hcheck).1, (check_iff.mp hcheck).2.1, hlt⟩
  simp only [renewSQL, hr, frozen]
  refine (if_pos (current_iff.mpr h)).trans (if_neg ?_)
  exact not_not.mpr hcheck'

theorem renewSQL_stale (h : ∀ row, db.records digest = some row → ¬Current row owner token now) :
    db.renewSQL (frozen now) digest owner token ms = (db, some none) := by
  unfold renewSQL
  split
  next => rfl
  next row hr => exact if_neg (mt current_iff.mp (h row hr))

theorem validateSQL_current (hr : db.records digest = some row) (h : Current row owner token now) :
    db.validateSQL (frozen now) digest owner token =
      some ⟨token, row.acquiredAt, row.expiresAt⟩ := by
  simp only [validateSQL, hr, frozen]
  exact if_pos (current_iff.mpr h)

theorem validateSQL_stale (h : ∀ row, db.records digest = some row → ¬Current row owner token now) :
    db.validateSQL (frozen now) digest owner token = none := by
  unfold validateSQL
  split
  next => rfl
  next row hr => exact if_neg (mt current_iff.mp (h row hr))

theorem releaseSQL_released (hr : db.records digest = some row) (ho : row.owner = owner)
    (ht : row.token = token) (ha : row.active = true) :
    db.releaseSQL (frozen now) digest owner token =
      (db.setRecord digest { row with active := false, updatedAt := now }, .ok) := by
  simp [releaseSQL, hr, Row.ours, ho, ht, ha, releaseOutcome, frozen]

theorem releaseSQL_again (hr : db.records digest = some row) (ho : row.owner = owner)
    (ht : row.token = token) (ha : row.active = false) :
    db.releaseSQL (frozen now) digest owner token = (db, .idempotent) := by
  simp [releaseSQL, hr, Row.ours, ho, ht, ha, releaseOutcome]

theorem releaseSQL_stale (hr : db.records digest = some row)
    (hne : ¬(row.owner = owner ∧ row.token = token)) :
    db.releaseSQL (frozen now) digest owner token = (db, .stale) := by
  have hours : row.ours owner token = false := by
    simp only [Row.ours, Bool.and_eq_false_iff, beq_eq_false_iff_ne]
    exact not_and_or.mp hne
  simp [releaseSQL, hr, hours, releaseOutcome]

end Database

theorem accepted {ctx : Ctx} {key : Key} {owner : Bytes} {token : Nat} {ttl : Int}
    (h : validate ctx key owner token ttl = none) :
    ctx = none ∧ (1 ≤ owner.length ∧ owner.length ≤ 128) ∧ 0 < token ∧ millisecond ≤ ttl := by
  unfold validate at h
  split_ifs at h with hctx _ ho hlen htoken _ httl
  exact ⟨by simpa using hctx, ⟨List.length_pos_iff.mpr ho, Nat.not_lt.mp hlen⟩,
    Nat.pos_of_ne_zero htoken, Int.not_lt.mp httl⟩

theorem key_ne_nil {ctx : Ctx} {key : Key} {owner : Bytes} {token : Nat} {ttl : Int}
    (h : validate ctx key owner token ttl = none) : key.value ≠ [] := by
  unfold validate at h
  split_ifs at h with _ hk
  exact hk

namespace Store

variable {store : Store} {clock : Clock} {db db' : Database} {ctx : Ctx} {key : Key} {owner : Bytes}
  {ttl acquiredAt expiresAt : Int} {owned : Record} {token : Nat}

theorem exec_tryAcquire_ok (hv : Postgres.validate ctx key owner 1 ttl = none)
    (htext : store.isText owner = true) (hpos : 0 < token) (hlt : acquiredAt < expiresAt)
    (h : db.acquireSQL clock (store.digest key) owner (milliseconds ttl) =
      (db', some ⟨token, acquiredAt, expiresAt, .ok⟩)) :
    store.exec clock db ctx (.tryAcquire key owner ttl) =
      (db', ⟨⟨key, owner, token, acquiredAt, expiresAt⟩, none⟩) := by
  simp [exec, tryAcquire, hv, query, htext, h, recordFromValues, hlt, Nat.pos_iff_ne_zero.mp hpos,
    Reply.ofRecord]

theorem exec_tryAcquire_contended (hv : Postgres.validate ctx key owner 1 ttl = none)
    (htext : store.isText owner = true)
    (h : db.acquireSQL clock (store.digest key) owner (milliseconds ttl) =
      (db', some ⟨0, acquiredAt, expiresAt, .contended⟩)) :
    store.exec clock db ctx (.tryAcquire key owner ttl) =
      (db', ⟨zeroRecord, some (wrap .errContended "postgres acquire")⟩) := by
  simp [exec, tryAcquire, hv, query, htext, h, Reply.ofRecord]

theorem exec_renew_ok (hv : Postgres.validate ctx owned.key owned.owner owned.token ttl = none)
    (htext : store.isText owned.owner = true) (hpos : 0 < owned.token) (hlt : acquiredAt < expiresAt)
    (h : db.renewSQL clock (store.digest owned.key) owned.owner owned.token (milliseconds ttl) =
      (db', some (some ⟨owned.token, acquiredAt, expiresAt⟩))) :
    store.exec clock db ctx (.renew owned ttl) =
      (db', ⟨⟨owned.key, owned.owner, owned.token, acquiredAt, expiresAt⟩, none⟩) := by
  simp [exec, renew, hv, query, htext, h, scanRecord, recordFromValues, hlt,
    Nat.pos_iff_ne_zero.mp hpos, Reply.ofRecord]

theorem exec_renew_stale (hv : Postgres.validate ctx owned.key owned.owner owned.token ttl = none)
    (htext : store.isText owned.owner = true)
    (h : db.renewSQL clock (store.digest owned.key) owned.owner owned.token (milliseconds ttl) =
      (db', some none)) :
    store.exec clock db ctx (.renew owned ttl) =
      (db', ⟨zeroRecord, some (wrap .errStaleOwner "postgres renew")⟩) := by
  simp [exec, renew, hv, query, htext, h, scanRecord, Error.is, Reply.ofRecord]

theorem exec_validate_ok (hv : Postgres.validate ctx owned.key owned.owner owned.token millisecond = none)
    (htext : store.isText owned.owner = true) (hpos : 0 < owned.token) (hlt : acquiredAt < expiresAt)
    (h : db.validateSQL clock (store.digest owned.key) owned.owner owned.token =
      some ⟨owned.token, acquiredAt, expiresAt⟩) :
    store.exec clock db ctx (.validate owned) =
      (db, ⟨⟨owned.key, owned.owner, owned.token, acquiredAt, expiresAt⟩, none⟩) := by
  simp [exec, validate, hv, query, htext, h, scanRecord, recordFromValues, hlt,
    Nat.pos_iff_ne_zero.mp hpos, Reply.ofRecord]

theorem exec_validate_stale
    (hv : Postgres.validate ctx owned.key owned.owner owned.token millisecond = none)
    (htext : store.isText owned.owner = true)
    (h : db.validateSQL clock (store.digest owned.key) owned.owner owned.token = none) :
    store.exec clock db ctx (.validate owned) =
      (db, ⟨zeroRecord, some (wrap .errStaleOwner "postgres validate")⟩) := by
  simp [exec, validate, hv, query, htext, h, scanRecord, Error.is, Reply.ofRecord]

theorem exec_release_nil (hv : Postgres.validate ctx owned.key owned.owner owned.token millisecond = none)
    (htext : store.isText owned.owner = true) {outcome : ReleaseOutcome}
    (h : db.releaseSQL clock (store.digest owned.key) owned.owner owned.token = (db', outcome))
    (hout : outcome ≠ .stale) :
    store.exec clock db ctx (.release owned) = (db', ⟨zeroRecord, none⟩) := by
  cases outcome with
  | stale => exact absurd rfl hout
  | ok | idempotent => simp [exec, release, hv, query, htext, h, Reply.ofErr]

theorem exec_release_stale
    (hv : Postgres.validate ctx owned.key owned.owner owned.token millisecond = none)
    (htext : store.isText owned.owner = true)
    (h : db.releaseSQL clock (store.digest owned.key) owned.owner owned.token = (db', .stale)) :
    store.exec clock db ctx (.release owned) =
      (db', ⟨zeroRecord, some (wrap .errStaleOwner "postgres release")⟩) := by
  simp [exec, release, hv, query, htext, h, Reply.ofErr]

end Store

end GoLease.Postgres
