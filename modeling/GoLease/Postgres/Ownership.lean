import GoLease.Postgres.Outcomes

namespace GoLease.Postgres.Store

open Database

variable (store : Store)

/-- What one call does to the tables of a server. -/
inductive Step (now : Int) (db : Database) : Request → Database × Reply → Prop
  | kept {request : Request} {reply : Reply}
      (hacquire : ∀ key owner ttl, request = .tryAcquire key owner ttl → reply.err ≠ none)
      (hrenew : ∀ owned ttl, request = .renew owned ttl → reply.err ≠ none) :
      Step now db request (db, reply)
  | contended {key : Key} {owner : Bytes} {ttl : Int} {token : Nat} {err : Error}
      (htoken : db.nextFence (store.digest key) = some token) :
      Step now db (.tryAcquire key owner ttl)
        (db.setFence (store.digest key) token, ⟨zeroRecord, some err⟩)
  | acquired {key : Key} {owner : Bytes} {ttl : Int} {token : Nat}
      (hvalid : Postgres.validate none key owner 1 ttl = none)
      (htoken : db.nextFence (store.digest key) = some token)
      (hvacant : ∀ row, db.records (store.digest key) = some row →
        row.active = false ∨ row.expiresAt ≤ now) :
      Step now db (.tryAcquire key owner ttl)
        ((db.setFence (store.digest key) token).setRecord (store.digest key)
            ⟨owner, token, now, now + milliseconds ttl * millisecond, true, now⟩,
          ⟨⟨key, owner, token, now, now + milliseconds ttl * millisecond⟩, none⟩)
  | renewed {owned : Record} {ttl : Int} {row : Row} {reply : Reply}
      (hvalid : Postgres.validate none owned.key owned.owner owned.token ttl = none)
      (hrow : db.records (store.digest owned.key) = some row)
      (hcurrent : Current row owned.owner owned.token now) :
      Step now db (.renew owned ttl)
        (db.setRecord (store.digest owned.key)
          { row with expiresAt := now + milliseconds ttl * millisecond, updatedAt := now }, reply)
  | released {owned : Record} {row : Row}
      (hrow : db.records (store.digest owned.key) = some row) (howner : row.owner = owned.owner)
      (htoken : row.token = owned.token) :
      Step now db (.release owned)
        (db.setRecord (store.digest owned.key) { row with active := false, updatedAt := now }, .ofErr none)

variable {store} {now : Int} {db : Database} {key : Key}

theorem kept_of_err {request : Request} {err : Error} :
    store.Step now db request (db, ⟨zeroRecord, some err⟩) :=
  .kept (fun _ _ _ _ => nofun) (fun _ _ _ => nofun)

theorem query_not_text {α : Type} {owner : Bytes} (h : ¬store.isText owner = true)
    (result : Database × Option α) :
    store.query db owner result = (db, .error (.foreign "invalid byte sequence")) := if_neg h

theorem milliseconds_pos {ttl : Int} (h : millisecond ≤ ttl) : 0 < milliseconds ttl := by
  unfold milliseconds
  simp only [millisecond] at h ⊢
  rw [Int.tdiv_eq_ediv_of_nonneg (by omega)]
  omega

theorem tryAcquire_step (ctx : Ctx) (owner : Bytes) (ttl : Int) :
    store.Step now db (.tryAcquire key owner ttl)
      (store.exec (frozen now) db ctx (.tryAcquire key owner ttl)) := by
  cases hv : Postgres.validate ctx key owner 1 ttl with
  | some err =>
      simp only [exec, tryAcquire, hv]
      exact kept_of_err
  | none =>
      obtain ⟨rfl, hown, _, hmin⟩ := accepted hv
      have hms := milliseconds_pos hmin
      by_cases htext : store.isText owner = true
      · cases ht : db.nextFence (store.digest key) with
        | none =>
            have hrefused : db.acquireSQL (frozen now) (store.digest key) owner (milliseconds ttl) =
                (db, some ⟨0, now, now, db.refusal (store.digest key)⟩) := by
              simp only [acquireSQL, ht, frozen]
            simp only [exec, tryAcquire, hv, query, htext, if_true, hrefused, Option.elim_some]
            cases hr : db.refusal (store.digest key) with
            | ok => exact absurd hr (db.refusal_ne_ok _)
            | contended | exhausted => exact kept_of_err
        | some token =>
            by_cases hvacant : ∀ row, db.records (store.digest key) = some row →
                row.active = false ∨ row.expiresAt ≤ now
            · have hpos : 0 < token := (Fences.nextFence_range ht).1
              have hlt : now < now + milliseconds ttl * millisecond := by
                simp only [millisecond]
                omega
              rw [exec_tryAcquire_ok hv htext hpos hlt (acquireSQL_granted ht hown hms hvacant)]
              exact .acquired hv ht hvacant
            · simp only [not_forall, not_or, Bool.not_eq_false, Int.not_le] at hvacant
              obtain ⟨row, hr, ha, hlt⟩ := hvacant
              rw [exec_tryAcquire_contended hv htext (acquireSQL_contended ht hown hms hr ha hlt)]
              exact .contended ht
      · simp only [exec, tryAcquire, hv, query_not_text htext]
        exact kept_of_err

theorem renew_step (ctx : Ctx) (owned : Record) (ttl : Int) :
    store.Step now db (.renew owned ttl) (store.exec (frozen now) db ctx (.renew owned ttl)) := by
  cases hv : Postgres.validate ctx owned.key owned.owner owned.token ttl with
  | some err =>
      simp only [exec, renew, hv]
      exact kept_of_err
  | none =>
      obtain ⟨rfl, _⟩ := accepted hv
      by_cases htext : store.isText owned.owner = true
      · by_cases hcurrent : ∃ row, db.records (store.digest owned.key) = some row ∧
            Current row owned.owner owned.token now
        · obtain ⟨row, hr, hc⟩ := hcurrent
          have hsql : db.renewSQL (frozen now) (store.digest owned.key) owned.owner owned.token
              (milliseconds ttl) = (db, none) ∨
            ∃ answer, db.renewSQL (frozen now) (store.digest owned.key) owned.owner owned.token
              (milliseconds ttl) = (db.setRecord (store.digest owned.key)
                { row with expiresAt := now + milliseconds ttl * millisecond, updatedAt := now },
                some answer) := by
            have hguard : row.ours owned.owner owned.token ∧ row.active ∧ row.expiresAt > frozen now 2 :=
              current_iff.mpr hc
            unfold renewSQL
            rw [hr]
            dsimp only
            rw [if_pos hguard]
            split
            next => exact .inl rfl
            next => exact .inr ⟨_, rfl⟩
          rcases hsql with hsql | ⟨answer, hsql⟩
          · simp only [exec, renew, hv, query, htext, if_true, hsql, Option.elim_none, scanRecord]
            split
            next => exact kept_of_err
            next => exact kept_of_err
          · simp only [exec, renew, hv, query, htext, if_true, hsql]
            split
            next => split <;> exact .renewed hv hr hc
            next => split <;> exact .renewed hv hr hc
        · simp only [not_exists, not_and] at hcurrent
          rw [exec_renew_stale hv htext (renewSQL_stale hcurrent)]
          exact kept_of_err
      · simp only [exec, renew, hv, query_not_text htext, scanRecord]
        exact kept_of_err

theorem release_step (ctx : Ctx) (owned : Record) :
    store.Step now db (.release owned) (store.exec (frozen now) db ctx (.release owned)) := by
  have hkept (reply : Reply) : store.Step now db (.release owned) (db, reply) := .kept nofun nofun
  cases hv : Postgres.validate ctx owned.key owned.owner owned.token millisecond with
  | some err =>
      simp only [exec, release, hv]
      exact hkept _
  | none =>
      by_cases htext : store.isText owned.owner = true
      · cases hr : db.records (store.digest owned.key) with
        | none =>
            simp only [exec, release, hv, query, htext, if_true, releaseSQL, hr]
            exact hkept _
        | some row =>
            by_cases hours : row.owner = owned.owner ∧ row.token = owned.token
            · obtain ⟨ho, ht⟩ := hours
              cases ha : row.active with
              | true =>
                  rw [exec_release_nil hv htext (releaseSQL_released hr ho ht ha) (by decide)]
                  exact .released hr ho ht
              | false =>
                  rw [exec_release_nil hv htext (releaseSQL_again hr ho ht ha) (by decide)]
                  exact hkept _
            · rw [exec_release_stale hv htext (releaseSQL_stale hr hours)]
              exact hkept _
      · simp only [exec, release, hv, query_not_text htext]
        exact hkept _

theorem serve_step (db : Database) (call : Call) :
    store.Step call.now db call.request (store.serve db call) := by
  obtain ⟨now, ctx, request⟩ := call
  cases request with
  | tryAcquire key owner ttl => exact tryAcquire_step ctx owner ttl
  | renew owned ttl => exact renew_step ctx owned ttl
  | validate owned => exact .kept nofun nofun
  | release owned => exact release_step ctx owned

end GoLease.Postgres.Store
