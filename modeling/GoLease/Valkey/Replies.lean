import GoLease.Valkey.Slots

/-!
What the store makes of the texts that its executor returns: which of them lead
to a definite outcome of a request.
-/

namespace GoLease.Valkey.Replies

open Decimal

section Decoder

variable {key : Key} {owner : Bytes} {texts : List Bytes} {expected : Sentinel}

/-- A reply of four texts that states a record. -/
def States (texts : List Bytes) (token : Nat) (acquired expires : Int) : Prop :=
  ∃ tokenText acquiredText expiresText, texts = [ok, tokenText, acquiredText, expiresText] ∧
    parseUint tokenText = some token ∧ parseInt acquiredText = some acquired ∧
    parseInt expiresText = some expires ∧ token ≠ 0 ∧ acquired < expires

/-- The exits of parseRecord. The first takes any single status but ok. -/
inductive Parsed (key : Key) (owner : Bytes) (texts : List Bytes) (expected : Sentinel) :
    Except Error Record → Prop
  | refused (status : Bytes) (htexts : texts = [status]) (hstatus : status ≠ ok) :
      Parsed key owner texts expected (.error (wrap expected "valkey operation"))
  | stated (token : Nat) (acquired expires : Int) (h : States texts token acquired expires) :
      Parsed key owner texts expected (.ok ⟨key, owner, token, unixMilli acquired, unixMilli expires⟩)
  | malformed (hone : ∀ status, texts = [status] → status = ok) :
      Parsed key owner texts expected (.error (wrap .errBackendUnavailable "valkey response"))

theorem parseRecord_parsed (key : Key) (owner : Bytes) (texts : List Bytes) (expected : Sentinel) :
    Parsed key owner texts expected (parseRecord key owner texts expected) := by
  unfold parseRecord
  split
  next h =>
    obtain ⟨status, rfl⟩ := List.length_eq_one_iff.mp h.1
    exact .refused status rfl (fun hs => h.2 (congrArg some hs))
  next h =>
    have hone : ∀ status, texts = [status] → status = ok := by
      rintro status rfl
      by_contra hs
      exact h ⟨rfl, fun he => hs (Option.some.inj he)⟩
    split
    next status tokenText acquiredText expiresText =>
      split
      next => exact .malformed hone
      next hstatus =>
        rw [not_not] at hstatus
        subst hstatus
        split
        next token acquired expires htoken hacquired hexpires =>
          split
          next => exact .malformed hone
          next hzero =>
            split
            next => exact .malformed hone
            next horder =>
              exact .stated token acquired expires ⟨tokenText, acquiredText, expiresText, rfl, htoken,
                hacquired, hexpires, hzero, Int.not_le.mp horder⟩
        next => exact .malformed hone
    next => exact .malformed hone

theorem States.ne_singleton {token : Nat} {acquired expires : Int}
    (h : States texts token acquired expires) (status : Bytes) : texts ≠ [status] := by
  obtain ⟨_, _, _, rfl, -⟩ := h
  nofun

end Decoder

section Outcomes

/-- The status with which the script of a request refuses it, and the error
that stands for the refusal. -/
def refusal : Request → Bytes × Sentinel
  | .tryAcquire .. => (contended, .errContended)
  | .renew .. | .validate .. | .release .. => (stale, .errStaleOwner)

/-- The replies on which a request succeeds. -/
def Affirms : Request → List Bytes → Prop
  | .tryAcquire .., texts => ∃ token acquired expires, States texts token acquired expires
  | .renew owned _, texts | .validate owned, texts =>
    ∃ acquired expires, States texts owned.token acquired expires
  | .release _, texts => texts = [ok] ∨ texts = [missing]

/-- No definite outcome is invented: a refusal and a success have their own
replies, and every other reply leaves the outcome open. -/
structure Faithful (request : Request) (texts : List Bytes) (reply : Reply) : Prop where
  refused : ∀ err, reply.err = some err → err.is (refusal request).2 = true → texts = [(refusal request).1]
  succeeded : reply.err = none → Affirms request texts
  undecided : texts ≠ [(refusal request).1] → ¬Affirms request texts →
    ∃ err, reply.err = some err ∧
      (err.is .errBackendUnavailable = true ∨ err.is .errAmbiguousOutcome = true)

/-- A single status that neither the script of the request nor a success uses.
Release tells such a status from its own. -/
def Foreign : Request → List Bytes → Prop
  | .release _, _ => False
  | request, texts => ∃ status, texts = [status] ∧ status ≠ ok ∧ status ≠ (refusal request).1

variable {request : Request} {texts : List Bytes} {record : Record} {s : Sentinel} {operation : String}

theorem faithful_undecided (h : s = .errBackendUnavailable ∨ s = .errAmbiguousOutcome) :
    Faithful request texts ⟨record, some (wrap s operation)⟩ := by
  refine ⟨?_, nofun, ?_⟩
  · intro err herr hs
    cases herr
    cases request <;> rcases h with rfl | rfl <;> cases hs
  · intro _ _
    exact ⟨_, rfl, by rcases h with rfl | rfl <;> simp⟩

theorem faithful_success (h : Affirms request texts) : Faithful request texts ⟨record, none⟩ :=
  ⟨nofun, fun _ => h, fun _ hnot => absurd h hnot⟩

theorem faithful_refused : Faithful request texts ⟨record, some (wrap (refusal request).2 operation)⟩ ↔
    texts = [(refusal request).1] := by
  constructor
  · intro h
    exact h.refused _ rfl (by simp)
  · intro h
    exact ⟨fun _ _ _ => h, nofun, fun hne => absurd h hne⟩

end Outcomes

section Parsing

variable {key : Key} {owner : Bytes} {request : Request} {texts : List Bytes}

theorem foreign_iff (hr : ∀ owned, request ≠ .release owned) : Foreign request texts ↔
    ∃ status, texts = [status] ∧ status ≠ ok ∧ status ≠ (refusal request).1 := by
  cases request with
  | release owned => exact absurd rfl (hr owned)
  | tryAcquire | renew | validate => exact Iff.rfl

theorem Parsed.ok {expected : Sentinel} {record : Record}
    (h : Parsed key owner texts expected (.ok record)) :
    ∃ acquired expires, States texts record.token acquired expires := by
  cases h with
  | stated token acquired expires hstates => exact ⟨acquired, expires, hstates⟩

theorem Parsed.not_foreign {expected : Sentinel} {record : Record}
    (h : Parsed key owner texts expected (.ok record)) : ¬Foreign request texts := by
  obtain ⟨acquired, expires, hstates⟩ := h.ok
  cases request with
  | release owned => exact not_false
  | tryAcquire | renew | validate =>
      rintro ⟨status, htexts, -⟩
      exact hstates.ne_singleton status htexts

/-- An error of the decoder is faithful unless it stands for a status that the
decoder has not looked at. -/
theorem Parsed.error {err : Error} (hr : ∀ owned, request ≠ .release owned)
    (h : Parsed key owner texts (refusal request).2 (.error err)) :
    Faithful request texts (.ofRecord (.error err)) ↔ ¬Foreign request texts := by
  rw [foreign_iff hr]
  cases h with
  | refused status htexts hstatus =>
      rw [Reply.ofRecord, faithful_refused]
      subst htexts
      constructor
      · rintro h ⟨status', heq, -, hne⟩
        cases heq
        exact hne (List.cons.inj h).1
      · intro h
        by_contra hne
        exact h ⟨status, rfl, hstatus, fun he => hne (congrArg ([·]) he)⟩
  | malformed hone =>
      refine iff_of_true (faithful_undecided (.inl rfl)) ?_
      rintro ⟨status, htexts, hne, -⟩
      exact hne (hone status htexts)

/-- What Renew and Validate make of the record: it has to carry the token sent. -/
def confirm (owned : Record) (mismatch : Error) : Except Error Record → Except Error Record
  | .error err => .error err
  | .ok record => if record.token ≠ owned.token then .error mismatch else .ok record

theorem Parsed.confirm {owned : Record} {s : Sentinel} {text : String} {result : Except Error Record}
    (hs : s = .errBackendUnavailable ∨ s = .errAmbiguousOutcome)
    (hr : (∃ ttl, request = .renew owned ttl) ∨ request = .validate owned)
    (h : Parsed key owner texts .errStaleOwner result) :
    Faithful request texts (.ofRecord (confirm owned (wrap s text) result)) ↔
      ¬Foreign request texts := by
  have hrelease : ∀ owned, request ≠ .release owned := by
    rcases hr with ⟨ttl, rfl⟩ | rfl <;> nofun
  have hrefusal : (refusal request).2 = .errStaleOwner := by
    rcases hr with ⟨ttl, rfl⟩ | rfl <;> rfl
  cases result with
  | error err =>
      rw [← hrefusal] at h
      exact h.error hrelease
  | ok record =>
      obtain ⟨acquired, expires, hstates⟩ := h.ok
      refine iff_of_true ?_ h.not_foreign
      rw [show Replies.confirm owned (wrap s text) (.ok record) =
        if record.token ≠ owned.token then .error (wrap s text) else .ok record from rfl]
      split
      next => exact faithful_undecided hs
      next htoken =>
        rw [not_not] at htoken
        rw [htoken] at hstates
        apply faithful_success
        rcases hr with ⟨ttl, rfl⟩ | rfl
        · exact ⟨acquired, expires, hstates⟩
        · exact ⟨acquired, expires, hstates⟩

end Parsing

section Calls

variable {σ : Type} {store : Store} {executor : Executor σ} {state state' : σ} {ctx : Ctx}
  {request : Request} {texts : List Bytes}

def operation : Request → Operation
  | .tryAcquire .. => .opAcquire
  | .renew .. => .opRenew
  | .validate _ => .opValidate
  | .release _ => .opRelease

def arguments : Request → List Bytes
  | .tryAcquire _ owner ttl => [owner, formatMilliseconds ttl]
  | .renew owned ttl => [owned.owner, format owned.token, formatMilliseconds ttl]
  | .validate owned | .release owned => [owned.owner, format owned.token]

/-- The check that a request passes before the executor is called. -/
def precheck (ctx : Ctx) : Request → Option Error
  | .tryAcquire key owner ttl => validate ctx key owner 1 ttl
  | .renew owned ttl => validate ctx owned.key owned.owner owned.token ttl
  | .validate owned | .release owned => validate ctx owned.key owned.owner owned.token millisecond

/-- The executor is called for the request, and returns these texts. -/
structure Answered (store : Store) (executor : Executor σ) (state : σ) (ctx : Ctx) (request : Request)
    (state' : σ) (texts : List Bytes) : Prop where
  admitted : precheck ctx request = none
  returned : executor (operation request) (store.keys request.key) (arguments request) state =
    (state', .ok texts)

theorem exec_tryAcquire {key : Key} {owner : Bytes} {ttl : Int}
    (h : Answered store executor state ctx (.tryAcquire key owner ttl) state' texts) :
    store.exec executor state ctx (.tryAcquire key owner ttl) =
      (state', .ofRecord (parseRecord key owner texts .errContended)) := by
  have hv : validate ctx key owner 1 ttl = none := h.admitted
  have he : executor .opAcquire (store.keys key) [owner, formatMilliseconds ttl] state =
      (state', .ok texts) := h.returned
  simp only [Store.exec, Store.tryAcquire, hv, he]

theorem exec_renew {owned : Record} {ttl : Int}
    (h : Answered store executor state ctx (.renew owned ttl) state' texts) :
    store.exec executor state ctx (.renew owned ttl) =
      (state', .ofRecord (confirm owned (wrap .errAmbiguousOutcome "valkey renew response")
        (parseRecord owned.key owned.owner texts .errStaleOwner))) := by
  have hv : validate ctx owned.key owned.owner owned.token ttl = none := h.admitted
  have he : executor .opRenew (store.keys owned.key)
      [owned.owner, format owned.token, formatMilliseconds ttl] state = (state', .ok texts) := h.returned
  simp only [Store.exec, Store.renew, hv, he]
  cases parseRecord owned.key owned.owner texts .errStaleOwner with
  | error err => rfl
  | ok record =>
      dsimp only [confirm]
      split <;> rfl

theorem exec_validate {owned : Record}
    (h : Answered store executor state ctx (.validate owned) state' texts) :
    store.exec executor state ctx (.validate owned) =
      (state', .ofRecord (confirm owned (wrap .errBackendUnavailable "valkey validate response")
        (parseRecord owned.key owned.owner texts .errStaleOwner))) := by
  have hv : validate ctx owned.key owned.owner owned.token millisecond = none := h.admitted
  have he : executor .opValidate (store.keys owned.key) [owned.owner, format owned.token] state =
      (state', .ok texts) := h.returned
  simp only [Store.exec, Store.validate, hv, he]
  cases parseRecord owned.key owned.owner texts .errStaleOwner with
  | error err => rfl
  | ok record =>
      dsimp only [confirm]
      split <;> rfl

theorem exec_release {owned : Record}
    (h : Answered store executor state ctx (.release owned) state' texts) :
    ∃ reply, store.exec executor state ctx (.release owned) = (state', reply) ∧
      Faithful (.release owned) texts reply := by
  have hv : validate ctx owned.key owned.owner owned.token millisecond = none := h.admitted
  have he : executor .opRelease (store.keys owned.key) [owned.owner, format owned.token] state =
      (state', .ok texts) := h.returned
  simp only [Store.exec, Store.release, hv, he]
  split
  next hreply => cases hreply
  next status hreply =>
    cases hreply
    split
    next hok =>
      refine ⟨_, rfl, faithful_success ?_⟩
      exact hok.imp (congrArg ([·])) (congrArg ([·]))
    next =>
      split
      next hstale => exact ⟨_, rfl, faithful_refused.mpr (congrArg ([·]) hstale)⟩
      next => exact ⟨_, rfl, faithful_undecided (.inl rfl)⟩
  next hreply =>
    cases hreply
    exact ⟨_, rfl, faithful_undecided (.inl rfl)⟩

/-- The reply decoding is faithful exactly where the reply is not one single
status that is foreign to the request. -/
theorem reply_decoding (h : Answered store executor state ctx request state' texts) :
    ∃ reply, store.exec executor state ctx request = (state', reply) ∧
      (Faithful request texts reply ↔ ¬Foreign request texts) := by
  cases request with
  | tryAcquire key owner ttl =>
      refine ⟨_, exec_tryAcquire h, ?_⟩
      have hp := parseRecord_parsed key owner texts .errContended
      generalize parseRecord key owner texts .errContended = result at hp
      cases result with
      | error err => exact hp.error nofun
      | ok record =>
          obtain ⟨acquired, expires, hstates⟩ := hp.ok
          exact iff_of_true (faithful_success ⟨_, acquired, expires, hstates⟩) hp.not_foreign
  | renew owned ttl =>
      refine ⟨_, exec_renew h, ?_⟩
      exact (parseRecord_parsed ..).confirm (.inr rfl) (.inl ⟨ttl, rfl⟩)
  | validate owned =>
      refine ⟨_, exec_validate h, ?_⟩
      exact (parseRecord_parsed ..).confirm (.inl rfl) (.inr rfl)
  | release owned =>
      obtain ⟨reply, hexec, hfaithful⟩ := exec_release h
      exact ⟨reply, hexec, iff_of_true hfaithful not_false⟩

end Calls

def rolling : Store := ⟨fun data => (Slots.sums data).toList, ascii ['l', 'e', 'a', 's', 'e']⟩

def future : Bytes := ascii ['f', 'u', 't', 'u', 'r', 'e']

def returning (texts : List Bytes) : Executor Unit := fun _ _ _ state => (state, .ok texts)

/-- A script with another status in front of the same record. -/
theorem reply_decoding_status_changed :
    let texts := [future, format 1, format 1000, format 2000]
    ∃ reply, rolling.exec (returning texts) () none (.tryAcquire Slots.job [97] millisecond) = ((), reply) ∧
      Faithful (.tryAcquire Slots.job [97] millisecond) texts reply := by
  intro texts
  have h : Answered rolling (returning texts) () none (.tryAcquire Slots.job [97] millisecond) () texts :=
    ⟨rfl, rfl⟩
  obtain ⟨reply, hexec, hiff⟩ := reply_decoding h
  refine ⟨reply, hexec, hiff.mpr ?_⟩
  rintro ⟨status, htexts, -⟩
  simp [texts] at htexts

/-- The same status alone is taken for contention by TryAcquire, and for the
loss of the lease by Renew and Validate. -/
theorem future_status_definite :
    let texts := [future]
    let owned : Record := ⟨Slots.job, [97], 1, unixMilli 1000, unixMilli 2000⟩
    (∃ reply, rolling.exec (returning texts) () none (.tryAcquire Slots.job [97] millisecond) = ((), reply) ∧
        reply.err = some (wrap .errContended "valkey operation") ∧
        ¬Faithful (.tryAcquire Slots.job [97] millisecond) texts reply) ∧
      ∀ request ∈ [.renew owned millisecond, .validate owned],
        ∃ reply, rolling.exec (returning texts) () none request = ((), reply) ∧
          reply.err = some (wrap .errStaleOwner "valkey operation") ∧ ¬Faithful request texts reply := by
  intro texts owned
  have hne : texts ≠ [contended] ∧ texts ≠ [stale] := by decide
  constructor
  · refine ⟨_, rfl, rfl, fun h => hne.1 (h.refused _ rfl rfl)⟩
  · intro request hmem
    rw [List.mem_cons, List.mem_singleton] at hmem
    rcases hmem with rfl | rfl
    · exact ⟨_, rfl, rfl, fun h => hne.2 (h.refused _ rfl rfl)⟩
    · exact ⟨_, rfl, rfl, fun h => hne.2 (h.refused _ rfl rfl)⟩

end GoLease.Valkey.Replies
