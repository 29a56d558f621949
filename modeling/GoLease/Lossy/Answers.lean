import GoLease.Client
import GoLease.Lossy.Calls

/-!
What the methods of the two native stores can return, whatever a driver or an
executor answers.
-/

namespace GoLease.Lossy

open Client (Answers)

/-- An error of the package itself, around whatever caused it. -/
inductive Own : Error → Prop
  | wrap (target : Sentinel) (operation : String) : Own (wrap target operation)
  | classified (target : Sentinel) (cause : Error) (operation : String) :
      Own (.classified (.sentinel target) cause operation)

theorem own_classifyAs (operation : String) (ctx : Ctx) (err : Error) (ambiguous : Bool) :
    Own (classifyAs operation ctx err ambiguous) := by
  unfold classifyAs
  split_ifs
  · exact .classified _ _ _
  · exact .wrap _ _
  · exact .classified _ _ _

/-- A record of the same acquisition, but for its times. -/
def Continues (owned record : Record) : Prop :=
  Answers owned.key owned.owner record ∧ record.token = owned.token

def Yields (P : Record → Prop) : Except Error Record → Prop
  | .error err => Own err
  | .ok record => P record

/-- The method fails with an error of the package, or it succeeds with a record
that answers the request. -/
def Returns (request : Request) (reply : Reply) : Prop :=
  match reply.err with
  | some err => Own err
  | none =>
    match request with
    | .tryAcquire key owner _ => Answers key owner reply.record
    | .renew owned _ | .validate owned => Continues owned reply.record
    | .release _ => True

section Shape

variable {request : Request} {result : Except Error Record}

theorem returns_err {err : Error} (h : Own err) : Returns request (.ofErr (some err)) := h

theorem Yields.tryAcquire {key : Key} {owner : Bytes} {ttl : Int} (h : Yields (Answers key owner) result) :
    Returns (.tryAcquire key owner ttl) (.ofRecord result) := by
  cases result <;> exact h

theorem Yields.renew {owned : Record} {ttl : Int} (h : Yields (Continues owned) result) :
    Returns (.renew owned ttl) (.ofRecord result) := by
  cases result <;> exact h

theorem Yields.validate {owned : Record} (h : Yields (Continues owned) result) :
    Returns (.validate owned) (.ofRecord result) := by
  cases result <;> exact h

theorem returns_release {owned : Record} {err : Option Error} (h : ∀ e, err = some e → Own e) :
    Returns (.release owned) (.ofErr err) := by
  cases err with
  | none => trivial
  | some err => exact h err rfl

theorem Plan.returns {σ : Type} {plan : Plan σ} (hrefusal : ∀ err, plan.refusal = some err → Own err)
    (hdecode : ∀ after answer, Returns request (plan.decode after answer)) (after : Ctx) (state : σ) :
    Returns request (plan.run after state).2 := by
  unfold Plan.run
  split
  next err heq => exact returns_err (hrefusal err heq)
  next => exact hdecode after _

end Shape

section Postgres

open Postgres Responses

theorem own_validate {ctx : Ctx} {key : Key} {owner : Bytes} {token : Nat} {ttl : Int} {err : Error}
    (h : Postgres.validate ctx key owner token ttl = some err) : Own err := by
  unfold Postgres.validate at h
  split_ifs at h <;> cases h <;> exact .wrap _ _

theorem yields_recordFromValues (key : Key) (owner : Bytes) (scan : RecordScan) :
    Yields (Answers key owner) (Responses.recordFromValues key owner scan) := by
  unfold Responses.recordFromValues
  split
  next => exact .wrap _ _
  next hvalid =>
    rw [not_or, not_not] at hvalid
    refine ⟨rfl, rfl, ?_, hvalid.2⟩
    have htoken := hvalid.1
    dsimp only
    omega

theorem yields_acquired (ctx : Ctx) (key : Key) (owner : Bytes) (answer : Except Error AcquireScan) :
    Yields (Answers key owner) (acquired ctx key owner answer) := by
  cases answer with
  | error err => exact own_classifyAs _ ctx err true
  | ok scan =>
      have hrecord := yields_recordFromValues key owner scan.toRecordScan
      simp only [acquired]
      split_ifs
      · exact .wrap _ _
      · exact .wrap _ _
      · generalize Responses.recordFromValues key owner scan.toRecordScan = result at hrecord ⊢
        cases result with
        | error err => exact own_classifyAs _ ctx err true
        | ok record => exact hrecord
      · exact own_classifyAs _ ctx _ true

theorem yields_continued (ctx : Ctx) {operation : String} {ambiguous : Bool} {mismatch : Error}
    (hmismatch : Own mismatch) (owned : Record) (answer : Except Error RecordScan) :
    Yields (Continues owned) (continued ctx operation ambiguous mismatch owned answer) := by
  have hrecord : ∀ record, Responses.scanRecord owned.key owned.owner answer = .ok record →
      Answers owned.key owned.owner record := by
    intro record h
    cases answer with
    | error err => cases h
    | ok scan =>
        have hyields := yields_recordFromValues owned.key owned.owner scan
        rwa [show Responses.recordFromValues owned.key owned.owner scan = .ok record from h] at hyields
  unfold continued
  split
  next err _ =>
    split
    next => exact .wrap _ _
    next => exact own_classifyAs _ ctx err ambiguous
  next record hscan =>
    split
    next => exact hmismatch
    next htoken => exact ⟨hrecord record hscan, not_not.mp htoken⟩

theorem own_released {ctx : Ctx} {answer : Except Error Bytes} {err : Error}
    (h : released ctx answer = some err) : Own err := by
  cases answer with
  | error cause =>
      cases h
      exact own_classifyAs _ ctx cause true
  | ok outcome =>
      simp only [released] at h
      split_ifs at h <;> cases h <;> exact .wrap _ _

theorem postgres_returns {σ : Type} (store : Postgres.Store) (driver : Driver σ) (state : σ)
    (ctx after : Ctx) (request : Request) :
    Returns request (Responses.exec store driver state ctx after request).2 := by
  rw [exec_postgresPlan]
  cases request with
  | tryAcquire key owner ttl =>
      exact Plan.returns (fun _ => own_validate)
        (fun _ answer => (yields_acquired ctx key owner answer).tryAcquire) after state
  | renew owned ttl =>
      exact Plan.returns (fun _ => own_validate)
        (fun _ answer => (yields_continued ctx (.wrap _ _) owned answer).renew) after state
  | validate owned =>
      exact Plan.returns (fun _ => own_validate)
        (fun found answer => (yields_continued found (.wrap _ _) owned answer).validate) after state
  | release owned =>
      exact Plan.returns (fun _ => own_validate) (fun _ _ => returns_release (fun _ => own_released)) after
        state

end Postgres

section Valkey

open Valkey Replies

theorem own_validateValkey {ctx : Ctx} {key : Key} {owner : Bytes} {token : Nat} {ttl : Int} {err : Error}
    (h : Valkey.validate ctx key owner token ttl = some err) : Own err := by
  unfold Valkey.validate at h
  split_ifs at h <;> cases h <;> exact .wrap _ _

theorem yields_parseRecord (key : Key) (owner : Bytes) (texts : List Bytes) (expected : Sentinel) :
    Yields (Answers key owner) (parseRecord key owner texts expected) := by
  have hparsed := parseRecord_parsed key owner texts expected
  generalize parseRecord key owner texts expected = result at hparsed ⊢
  cases hparsed with
  | refused => exact .wrap expected _
  | malformed => exact .wrap _ _
  | stated token acquired expires hstates =>
      obtain ⟨_, _, _, _, _, _, _, htoken, hlt⟩ := hstates
      refine ⟨rfl, rfl, htoken, ?_⟩
      simp only [unixMilli, millisecond]
      omega

theorem yields_confirm {owned : Record} {mismatch : Error} {result : Except Error Record}
    (hmismatch : Own mismatch) (h : Yields (Answers owned.key owned.owner) result) :
    Yields (Continues owned) (confirm owned mismatch result) := by
  cases result with
  | error err => exact h
  | ok record =>
      simp only [confirm]
      split
      next => exact hmismatch
      next htoken => exact ⟨h, not_not.mp htoken⟩

theorem own_statusErr {texts : List Bytes} {err : Error} (h : statusErr texts = some err) : Own err := by
  unfold statusErr at h
  split at h
  next => split_ifs at h <;> cases h <;> exact .wrap _ _
  next =>
    cases h
    exact .wrap _ _

theorem returns_decoded {request : Request} (ctx : Ctx) (ambiguous : Bool) {parse : List Bytes → Reply}
    (hparse : ∀ texts, Returns request (parse texts)) (answer : Except Error (List Bytes)) :
    Returns request (decoded (Valkey.classify ctx · ambiguous) parse answer) := by
  cases answer with
  | error err => exact returns_err (own_classifyAs _ ctx err ambiguous)
  | ok texts => exact hparse texts

theorem valkeyPlan_returns {σ : Type} (store : Valkey.Store) (executor : Executor σ) (state : σ)
    (ctx after : Ctx) (request : Request) :
    Returns request ((valkeyPlan store executor ctx request).run after state).2 := by
  cases request with
  | tryAcquire key owner ttl =>
      exact Plan.returns (fun _ => own_validateValkey)
        (fun _ => returns_decoded ctx true (fun texts => (yields_parseRecord key owner texts _).tryAcquire))
        after state
  | renew owned ttl =>
      exact Plan.returns (fun _ => own_validateValkey)
        (fun _ => returns_decoded ctx true
          (fun texts => (yields_confirm (.wrap _ _) (yields_parseRecord _ _ texts _)).renew)) after state
  | validate owned =>
      exact Plan.returns (fun _ => own_validateValkey)
        (fun found => returns_decoded found false
          (fun texts => (yields_confirm (.wrap _ _) (yields_parseRecord _ _ texts _)).validate)) after state
  | release owned =>
      exact Plan.returns (fun _ => own_validateValkey)
        (fun _ => returns_decoded ctx true (fun _ => returns_release (fun _ => own_statusErr))) after state

theorem valkey_returns {σ : Type} (store : Valkey.Store) (executor : Executor σ) (state : σ) (ctx : Ctx)
    (request : Request) : Returns request (store.exec executor state ctx request).2 := by
  rw [exec_valkeyPlan]
  exact valkeyPlan_returns store executor state ctx ctx request

end Valkey

section Checks

/-- What the layers above check in a successful reply. Of a continued
acquisition only its time is left to check. -/
def Fits (request : Request) (reply : Reply) : Prop :=
  reply.err = none →
    match request with
    | .tryAcquire key owner _ => Client.validAcquisition key owner reply.record = true
    | .renew owned _ | .validate owned =>
      sameAcquisition owned reply.record = (owned.acquiredAt == reply.record.acquiredAt)
    | .release _ => True

theorem Continues.same {owned record : Record} (h : Continues owned record) :
    sameAcquisition owned record = (owned.acquiredAt == record.acquiredAt) := by
  obtain ⟨hanswers, htoken⟩ := h
  simp [sameAcquisition, hanswers.key, hanswers.owner, htoken, hanswers.ordered]

theorem Returns.fits {request : Request} {reply : Reply} (h : Returns request reply) : Fits request reply := by
  intro hnone
  simp only [Returns, hnone] at h
  cases request with
  | tryAcquire key owner ttl => exact Client.validAcquisition_iff.mpr h
  | renew owned ttl => exact h.same
  | validate owned => exact h.same
  | release owned => trivial

/-- Whatever a PostgreSQL driver or a Valkey executor answers, the client's own
check of an acquisition never fails, and of the checks that a handle makes on
the reply to a renewal or a validation only the one of the acquisition time can. -/
theorem answers_fit_the_request {σ τ : Type} (postgres : Postgres.Store)
    (driver : Postgres.Responses.Driver σ) (s : σ) (valkey : Valkey.Store) (executor : Valkey.Executor τ)
    (t : τ) (ctx after : Ctx) (request : Request) :
    Fits request (Postgres.Responses.exec postgres driver s ctx after request).2 ∧
      Fits request (valkey.exec executor t ctx request).2 :=
  ⟨(postgres_returns postgres driver s ctx after request).fits,
    (valkey_returns valkey executor t ctx request).fits⟩

end Checks

end GoLease.Lossy
