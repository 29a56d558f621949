import GoLease.Postgres.Responses
import GoLease.Valkey.Replies

/-!
The methods of the two native stores in one shape: the arguments are checked,
a statement or a script is sent, and the answer is decoded.
-/

namespace GoLease.Lossy

/-- A method of a native store: the refusal of its arguments, what it sends, and
what it makes of the answer in the context that it finds by then. -/
structure Plan (σ : Type) where
  Answer : Type
  refusal : Option Error
  act : σ → σ × Except Error Answer
  decode : Ctx → Except Error Answer → Reply

def Plan.run {σ : Type} (plan : Plan σ) (after : Ctx) (state : σ) : σ × Reply :=
  match plan.refusal with
  | some err => (state, .ofErr (some err))
  | none => ((plan.act state).1, plan.decode after (plan.act state).2)

section Postgres

open Postgres Responses

variable {σ : Type} (store : Postgres.Store) (driver : Driver σ) (state : σ) (ctx after : Ctx)

def postgresPlan : Request → Plan σ
  | .tryAcquire key owner ttl =>
    { Answer := AcquireScan
      refusal := Postgres.validate ctx key owner 1 ttl
      act := driver.acquireSQL (store.digest key) owner (milliseconds ttl)
      decode := fun _ answer => .ofRecord (acquired ctx key owner answer) }
  | .renew owned ttl =>
    { Answer := RecordScan
      refusal := Postgres.validate ctx owned.key owned.owner owned.token ttl
      act := driver.renewSQL (store.digest owned.key) owned.owner owned.token (milliseconds ttl)
      decode := fun _ answer => .ofRecord (renewed ctx owned answer) }
  | .validate owned =>
    { Answer := RecordScan
      refusal := Postgres.validate ctx owned.key owned.owner owned.token millisecond
      act := driver.validateSQL (store.digest owned.key) owned.owner owned.token
      decode := fun after answer => .ofRecord (validated after owned answer) }
  | .release owned =>
    { Answer := Bytes
      refusal := Postgres.validate ctx owned.key owned.owner owned.token millisecond
      act := driver.releaseSQL (store.digest owned.key) owned.owner owned.token
      decode := fun _ answer => .ofErr (released ctx answer) }

theorem exec_postgresPlan (request : Request) :
    Responses.exec store driver state ctx after request =
      (postgresPlan store driver ctx request).run after state := by
  cases request with
  | tryAcquire key owner ttl =>
      simp only [Responses.exec, Responses.tryAcquire, postgresPlan, Plan.run]
      cases Postgres.validate ctx key owner 1 ttl <;> rfl
  | renew owned ttl =>
      simp only [Responses.exec, Responses.renew, postgresPlan, Plan.run]
      cases Postgres.validate ctx owned.key owned.owner owned.token ttl <;> rfl
  | validate owned =>
      simp only [Responses.exec, Responses.validate, postgresPlan, Plan.run]
      cases Postgres.validate ctx owned.key owned.owner owned.token millisecond <;> rfl
  | release owned =>
      simp only [Responses.exec, Responses.release, postgresPlan, Plan.run]
      cases Postgres.validate ctx owned.key owned.owner owned.token millisecond <;> rfl

end Postgres

section Valkey

open Valkey Replies

/-- A method from its Exec on. -/
def decoded (fail : Error → Error) (parse : List Bytes → Reply) : Except Error (List Bytes) → Reply
  | .error err => .ofErr (some (fail err))
  | .ok texts => parse texts

def statusErr : List Bytes → Option Error
  | [status] =>
    if status = Valkey.ok ∨ status = missing then none
    else if status = Valkey.stale then some (wrap .errStaleOwner "valkey release")
    else some (wrap .errBackendUnavailable "valkey response")
  | _ => some (wrap .errBackendUnavailable "valkey response")

/-- What Renew and Validate make of the texts. -/
def confirmed (owned : Record) (mismatch : Error) (texts : List Bytes) : Reply :=
  .ofRecord (confirm owned mismatch (parseRecord owned.key owned.owner texts .errStaleOwner))

variable {σ : Type} (store : Valkey.Store) (executor : Executor σ) (state : σ) (ctx after : Ctx)

def valkeyPlan : Request → Plan σ
  | .tryAcquire key owner ttl =>
    { Answer := List Bytes
      refusal := Valkey.validate ctx key owner 1 ttl
      act := executor .opAcquire (store.keys key) [owner, formatMilliseconds ttl]
      decode := fun _ => decoded (Valkey.classify ctx · true)
        (fun texts => .ofRecord (parseRecord key owner texts .errContended)) }
  | .renew owned ttl =>
    { Answer := List Bytes
      refusal := Valkey.validate ctx owned.key owned.owner owned.token ttl
      act := executor .opRenew (store.keys owned.key)
        [owned.owner, Decimal.format owned.token, formatMilliseconds ttl]
      decode := fun _ => decoded (Valkey.classify ctx · true)
        (confirmed owned (wrap .errAmbiguousOutcome "valkey renew response")) }
  | .validate owned =>
    { Answer := List Bytes
      refusal := Valkey.validate ctx owned.key owned.owner owned.token millisecond
      act := executor .opValidate (store.keys owned.key) [owned.owner, Decimal.format owned.token]
      decode := fun after => decoded (Valkey.classify after · false)
        (confirmed owned (wrap .errBackendUnavailable "valkey validate response")) }
  | .release owned =>
    { Answer := List Bytes
      refusal := Valkey.validate ctx owned.key owned.owner owned.token millisecond
      act := executor .opRelease (store.keys owned.key) [owned.owner, Decimal.format owned.token]
      decode := fun _ => decoded (Valkey.classify ctx · true) (fun texts => .ofErr (statusErr texts)) }

theorem validate_valkeyPlan (owned : Record) :
    ((store.validate executor state ctx after owned).1,
        Reply.ofRecord (store.validate executor state ctx after owned).2) =
      (valkeyPlan store executor ctx (.validate owned)).run after state := by
  simp only [Store.validate, valkeyPlan, Plan.run]
  cases Valkey.validate ctx owned.key owned.owner owned.token millisecond with
  | some err => rfl
  | none =>
      dsimp only
      generalize executor .opValidate _ _ state = result
      obtain ⟨state', err | texts⟩ := result
      · rfl
      · simp only [decoded, confirmed, confirm]
        cases parseRecord owned.key owned.owner texts .errStaleOwner with
        | error err => rfl
        | ok record =>
            dsimp only
            split <;> rfl

theorem exec_valkeyPlan (request : Request) :
    store.exec executor state ctx request = (valkeyPlan store executor ctx request).run ctx state := by
  cases request with
  | tryAcquire key owner ttl =>
      simp only [Store.exec, Store.tryAcquire, valkeyPlan, Plan.run]
      cases Valkey.validate ctx key owner 1 ttl with
      | some err => rfl
      | none =>
          dsimp only
          generalize executor .opAcquire _ _ state = result
          obtain ⟨state', err | texts⟩ := result <;> rfl
  | renew owned ttl =>
      simp only [Store.exec, Store.renew, valkeyPlan, Plan.run]
      cases Valkey.validate ctx owned.key owned.owner owned.token ttl with
      | some err => rfl
      | none =>
          dsimp only
          generalize executor .opRenew _ _ state = result
          obtain ⟨state', err | texts⟩ := result
          · rfl
          · simp only [decoded, confirmed, confirm]
            cases parseRecord owned.key owned.owner texts .errStaleOwner with
            | error err => rfl
            | ok record =>
                dsimp only
                split <;> rfl
  | validate owned => exact validate_valkeyPlan store executor state ctx ctx owned
  | release owned =>
      simp only [Store.exec, Store.release, valkeyPlan, Plan.run]
      cases Valkey.validate ctx owned.key owned.owner owned.token millisecond with
      | some err => rfl
      | none =>
          dsimp only
          generalize executor .opRelease _ _ state = result
          obtain ⟨state', err | texts⟩ := result
          · rfl
          · rcases texts with _ | ⟨status, _ | ⟨other, rest⟩⟩
            · rfl
            · simp only [decoded, statusErr]
              split_ifs <;> rfl
            · rfl

end Valkey

end GoLease.Lossy
