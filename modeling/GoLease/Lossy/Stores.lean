import GoLease.Lossy.Calls
import GoLease.Lossy.History

namespace GoLease.Lossy

open Traces

/-- A call that fails on its way: the error of the client library, which is
neither the one of a Scan that finds no rows nor one of this package about the
owner, and the context as it is found then. -/
structure Outage where
  err : Error
  found : Ctx
  rows : err.is .pgxErrNoRows = false
  owner : err.is .errStaleOwner = false

/-- What becomes of a statement or a script: it is executed and answered, it
never reaches the server, or its answer never comes back. -/
inductive Fault
  | none
  | refused (outage : Outage)
  | lost (outage : Outage)

namespace Fault

def pass {σ α : Type} (fault : Fault) (act : σ → σ × Except Error α) (state : σ) : σ × Except Error α :=
  match fault with
  | .none => act state
  | .refused outage => (state, .error outage.err)
  | .lost outage => ((act state).1, .error outage.err)

/-- The context that a call finds after it has been sent. -/
def after (ctx : Ctx) : Fault → Ctx
  | .none => ctx
  | .refused outage | .lost outage => outage.found

end Fault

section Plans

variable {σ ι : Type}

/-- The method over a connection with this fault. -/
def Plan.faulty (fault : Fault) (plan : Plan σ) : Plan σ := { plan with act := fault.pass plan.act }

/-- Such a call passes if its decoder takes the errors of the way as uncertain. -/
theorem Plan.passes {step : σ → ι → σ × Reply} {Uncertain : ι → Reply → Prop} {state : σ} {i : ι}
    {plan : Plan σ} (ctx : Ctx) (hstep : step state i = plan.run ctx state)
    (hfail : ∀ outage : Outage, Uncertain i (plan.decode outage.found (.error outage.err)))
    (fault : Fault) :
    Passes step Uncertain state i ((plan.faulty fault).run (fault.after ctx) state) := by
  obtain ⟨Answer, refusal, act, decode⟩ := plan
  cases refusal with
  | some err => exact .inl hstep.symm
  | none =>
      cases fault with
      | none => exact .inl hstep.symm
      | refused outage => exact .inr ⟨hfail outage, .inr rfl⟩
      | lost outage =>
          refine .inr ⟨hfail outage, .inl ?_⟩
          rw [hstep]
          rfl

end Plans

/-- The caller cannot tell whether the request was executed. A validation has no
effect, and its failure is no refusal. -/
def Unsure : Request → Reply → Prop
  | .validate _, reply => ∃ err, reply.err = some err ∧
      (err.is .errCanceled = true ∨ err.is .errBackendUnavailable = true) ∧ err.is .errStaleOwner = false
  | .tryAcquire .., reply | .renew .., reply | .release _, reply =>
    ∃ err, reply.err = some err ∧ err.is .errAmbiguousOutcome = true ∧ err.is .errStaleOwner = false

/-- Whether the request can change the store. -/
def mutates : Request → Bool
  | .validate _ => false
  | .tryAcquire .. | .renew .. | .release _ => true

theorem classifyAs_ambiguous (operation : String) (ctx : Ctx) (err : Error) :
    (classifyAs operation ctx err true).is .errAmbiguousOutcome = true := by
  simp [classifyAs, Error.is]

/-- An outage that is classified as the request deserves leaves it in doubt. -/
theorem unsure_classifyAs (request : Request) (operation : String) (ctx : Ctx) (outage : Outage) :
    Unsure request (.ofErr (some (classifyAs operation ctx outage.err (mutates request)))) := by
  cases request with
  | validate owned =>
      refine ⟨_, rfl, ?_⟩
      simp only [classifyAs, mutates, Bool.false_eq_true, if_false]
      split
      next => exact ⟨.inl rfl, rfl⟩
      next => exact ⟨.inr (by simp [Error.is]), by simp [Error.is, outage.owner]⟩
  | tryAcquire | renew | release =>
      exact ⟨_, rfl, classifyAs_ambiguous operation ctx outage.err,
        by simp [classifyAs, mutates, Error.is, outage.owner]⟩

section Postgres

open Postgres Responses

variable {σ : Type}

def faultyDriver (fault : Fault) (driver : Driver σ) : Driver σ where
  acquireSQL digest owner ms := fault.pass (driver.acquireSQL digest owner ms)
  renewSQL digest owner token ms := fault.pass (driver.renewSQL digest owner token ms)
  validateSQL digest owner token := fault.pass (driver.validateSQL digest owner token)
  releaseSQL digest owner token := fault.pass (driver.releaseSQL digest owner token)
  cleanupSQL batch := fault.pass (driver.cleanupSQL batch)

/-- The public operations of the store. -/
inductive Operation
  | backend (request : Request)
  | cleanup (batch : Nat) (doomed : List (Bytes × Int))

inductive Response
  | reply (reply : Reply)
  | deleted (count : Except Error Nat)

structure Statement where
  clock : Clock
  ctx : Ctx
  operation : Operation

/-- The store over a server that answers. -/
def query (store : Postgres.Store) (db : Database) (statement : Statement) : Database × Response :=
  match statement.operation with
  | .backend request =>
    let result := store.exec statement.clock db statement.ctx request
    (result.1, .reply result.2)
  | .cleanup batch doomed =>
    let result := Store.cleanup db statement.ctx batch doomed
    (result.1, .deleted result.2)

def faultyQuery (store : Postgres.Store) (db : Database) (call : Statement × Fault) :
    Database × Response :=
  let after := call.2.after call.1.ctx
  match call.1.operation with
  | .backend request =>
    let driver := faultyDriver call.2 (serving store call.1.clock [])
    let result := Responses.exec store driver db call.1.ctx after request
    (result.1, .reply result.2)
  | .cleanup batch doomed =>
    let driver := faultyDriver call.2 (serving store call.1.clock doomed)
    let result := Responses.cleanup driver db call.1.ctx batch
    (result.1, .deleted result.2)

def UnsureResponse (statement : Statement) (response : Response) : Prop :=
  match statement.operation, response with
  | .backend request, .reply reply => Unsure request reply
  | .cleanup _ _, .deleted (.error err) => err.is .errAmbiguousOutcome = true
  | _, _ => False

theorem postgresPlan_faulty (store : Postgres.Store) (fault : Fault) (driver : Driver σ) (ctx : Ctx)
    (request : Request) : postgresPlan store (faultyDriver fault driver) ctx request =
      (postgresPlan store driver ctx request).faulty fault := by
  cases request <;> rfl

theorem postgresPlan_outage (store : Postgres.Store) (driver : Driver σ) (ctx : Ctx) (request : Request)
    (outage : Outage) :
    Unsure request ((postgresPlan store driver ctx request).decode outage.found (.error outage.err)) := by
  cases request with
  | tryAcquire key owner ttl => exact unsure_classifyAs (.tryAcquire key owner ttl) _ ctx outage
  | renew owned ttl =>
      simp only [postgresPlan, renewed, continued, Responses.scanRecord, outage.rows]
      exact unsure_classifyAs (.renew owned ttl) _ ctx outage
  | validate owned =>
      simp only [postgresPlan, validated, continued, Responses.scanRecord, outage.rows]
      exact unsure_classifyAs (.validate owned) _ outage.found outage
  | release owned => exact unsure_classifyAs (.release owned) _ ctx outage

theorem exec_passes (store : Postgres.Store) (clock : Clock) (ctx : Ctx) (request : Request) (fault : Fault)
    (db : Database) : Passes (fun db request => store.exec clock db ctx request) Unsure db request
      (Responses.exec store (faultyDriver fault (serving store clock [])) db ctx (fault.after ctx)
        request) := by
  rw [exec_postgresPlan, postgresPlan_faulty]
  apply Plan.passes ctx
  · rw [← exec_serving store clock db ctx [] request, exec_postgresPlan]
  · exact postgresPlan_outage store _ ctx request

theorem query_passes (store : Postgres.Store) (db : Database) (call : Statement × Fault) :
    Passes (query store) UnsureResponse db call.1 (faultyQuery store db call) := by
  obtain ⟨⟨clock, ctx, operation⟩, fault⟩ := call
  cases operation with
  | backend request =>
      rcases exec_passes store clock ctx request fault db with hdone | ⟨hunsure, hstate⟩
      · exact .inl (congrArg (fun result : Database × Reply => (result.1, Response.reply result.2)) hdone)
      · exact .inr ⟨hunsure, hstate⟩
  | cleanup batch doomed =>
      have hplain := (cleanup_serving store clock db ctx doomed batch).symm
      simp only [faultyQuery, Responses.cleanup] at hplain ⊢
      simp only [Passes, query, hplain]
      split_ifs with hctx hbatch
      · exact .inl rfl
      · exact .inl rfl
      · cases fault with
        | none => exact .inl rfl
        | refused outage => exact .inr ⟨classifyAs_ambiguous _ ctx outage.err, .inr rfl⟩
        | lost outage => exact .inr ⟨classifyAs_ambiguous _ ctx outage.err, .inl rfl⟩

end Postgres

section Valkey

open Valkey Replies

structure Script where
  us : Nat
  ctx : Ctx
  request : Request

/-- The store over a server that answers. -/
def eval (store : Valkey.Store) (keys : Keyspace) (call : Script) : Keyspace × Reply :=
  store.exec (nativeExecutor call.us) keys call.ctx call.request

def faultyExecutor {σ : Type} (fault : Fault) (executor : Executor σ) : Executor σ :=
  fun operation keys args => fault.pass (executor operation keys args)

def faultyEval (store : Valkey.Store) (keys : Keyspace) (call : Script × Fault) : Keyspace × Reply :=
  let executor := faultyExecutor call.2 (nativeExecutor call.1.us)
  match call.1.request with
  | .validate owned =>
    let result := store.validate executor keys call.1.ctx (call.2.after call.1.ctx) owned
    (result.1, .ofRecord result.2)
  | request => store.exec executor keys call.1.ctx request

theorem faultyEval_run (store : Valkey.Store) (keys : Keyspace) (call : Script × Fault) :
    faultyEval store keys call = ((valkeyPlan store (nativeExecutor call.1.us) call.1.ctx call.1.request).faulty
      call.2).run (call.2.after call.1.ctx) keys := by
  obtain ⟨⟨us, ctx, request⟩, fault⟩ := call
  have hexec := exec_valkeyPlan store (faultyExecutor fault (nativeExecutor us)) keys ctx
  cases request with
  | validate owned => exact validate_valkeyPlan store _ keys ctx (fault.after ctx) owned
  | tryAcquire key owner ttl => exact hexec (.tryAcquire key owner ttl)
  | renew owned ttl => exact hexec (.renew owned ttl)
  | release owned => exact hexec (.release owned)

theorem valkeyPlan_outage {σ : Type} (store : Valkey.Store) (executor : Executor σ) (ctx : Ctx)
    (request : Request) (outage : Outage) :
    Unsure request ((valkeyPlan store executor ctx request).decode outage.found (.error outage.err)) := by
  cases request with
  | tryAcquire key owner ttl => exact unsure_classifyAs (.tryAcquire key owner ttl) _ ctx outage
  | renew owned ttl => exact unsure_classifyAs (.renew owned ttl) _ ctx outage
  | validate owned => exact unsure_classifyAs (.validate owned) _ outage.found outage
  | release owned => exact unsure_classifyAs (.release owned) _ ctx outage

theorem eval_passes (store : Valkey.Store) (keys : Keyspace) (call : Script × Fault) :
    Passes (eval store) (fun script => Unsure script.request) keys call.1 (faultyEval store keys call) := by
  rw [faultyEval_run]
  apply Plan.passes call.1.ctx
  · exact exec_valkeyPlan store _ keys _ _
  · exact valkeyPlan_outage store _ call.1.ctx call.1.request

end Valkey

/-- Behind a connection that may drop a statement or a script before it is
executed, or the answer to it afterwards, every history of the two native
stores is one that the server explains: a call with a definite answer was
executed once and answered so, and one that was perhaps executed says so. -/
theorem lossy_histories_explained (postgres : Postgres.Store) (db : Postgres.Database)
    (statements : List (Statement × Fault)) (valkey : Valkey.Store) (keys : Valkey.Keyspace)
    (scripts : List (Script × Fault)) :
    Explained (query postgres) UnsureResponse db
        ((trace (faultyQuery postgres) db statements).map (fun entry => (entry.1.1, entry.2)))
        (run (faultyQuery postgres) db statements) ∧
      Explained (eval valkey) (fun script => Unsure script.request) keys
        ((trace (faultyEval valkey) keys scripts).map (fun entry => (entry.1.1, entry.2)))
        (run (faultyEval valkey) keys scripts) :=
  ⟨explained_run (query_passes postgres) db statements, explained_run (eval_passes valkey) keys scripts⟩

end GoLease.Lossy
