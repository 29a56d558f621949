import GoLease.Postgres.Contested.System
import GoLease.Postgres.Isolation.Linear
import GoLease.Truncation

namespace GoLease.Postgres.Contested

open Isolation Database Pool

/-- The row keeps the lease of an acquisition up to the deadline. -/
structure Secures (granted : Record) (deadline : Int) (row : Row) : Prop where
  active : row.active = true
  owner : row.owner = granted.owner
  token : row.token = granted.token
  expiry : deadline ≤ row.expiresAt

/-- What a statement has written or locked leaves that lease in place. -/
def Spares (digest : Bytes) (granted : Record) (deadline : Int) (session : Isolation.Session) : Prop :=
  match session.stage with
  | .evaluated _ _ (.write key _ (some row)) _ => key = digest → Secures granted deadline row
  | .evaluated _ _ (.delete digests) _ => digest ∉ digests
  | .collecting _ _ _ taken => digest ∉ taken.map Prod.fst
  | _ => True

/-- The lease stands in the tables as committed, and will stand whichever of the
running statements commit. -/
structure Backs (store : Store) (s : Server) (granted : Record) (deadline : Int) : Prop where
  stands : ∃ row, s.db.records (store.digest granted.key) = some row ∧ Secures granted deadline row
  spared : ∀ session ∈ s.sessions, Spares (store.digest granted.key) granted deadline session

section Steps

variable {store : Store} {s s' : Server} {event : Isolation.Event} {granted : Record} {deadline now : Int}
  {digest : Bytes} {db : Database} {row : Row}

theorem Secures.not_vacant (h : Secures granted deadline row) (hlt : now < deadline) :
    ¬(¬row.active = true ∨ row.expiresAt ≤ now) := by
  rintro (hactive | hexpired)
  · exact hactive h.active
  · have := h.expiry
    omega

/-- A row that is in place is spared, not replaced. -/
theorem install_secured {clock : Clock} {owner : Bytes} {ms : Int} {token : Nat} {written : Option Row}
    (h : Secures granted deadline row) (hlt : now < deadline) (hclock : clock 6 = now)
    (hi : install clock owner ms token (some row) = some written) : written = none := by
  unfold install at hi
  split at hi
  next => cases hi
  next =>
    dsimp only at hi
    rw [hclock, if_neg (h.not_vacant hlt)] at hi
    exact (Option.some.inj hi).symm

theorem renewal_secured {clock : Clock} {owner : Bytes} {ms : Int} {token : Nat} {written : Row}
    (h : Secures granted deadline row) (hclock : clock 0 = now)
    (hnear : owner = granted.owner → token = granted.token → deadline ≤ now + ms * millisecond)
    (hr : renewal clock owner ms token (some row) = some (some written)) :
    Secures granted deadline written := by
  simp only [renewal] at hr
  split at hr
  next hcurrent =>
    split at hr
    next => cases hr
    next =>
      cases hr
      have hours : row.owner = owner ∧ row.token = token := by
        simpa only [Row.ours, Bool.and_eq_true, beq_iff_eq] using hcurrent.1
      refine ⟨h.active, h.owner, h.token, ?_⟩
      rw [hclock]
      exact hnear (hours.1.symm.trans h.owner) (hours.2.symm.trans h.token)
  next => cases hr

theorem releasing_secured {clock : Clock} {owner : Bytes} {token : Nat} {written : Row}
    (h : Secures granted deadline row) (hother : ¬(owner = granted.owner ∧ token = granted.token)) :
    releasing clock owner token (some row) ≠ some written := by
  intro hr
  simp only [releasing] at hr
  split at hr
  next hcurrent =>
    have hours : row.owner = owner ∧ row.token = token := by
      simpa only [Row.ours, Bool.and_eq_true, beq_iff_eq] using hcurrent.1
    exact hother ⟨hours.1.symm.trans h.owner, hours.2.symm.trans h.token⟩
  next => cases hr

/-- The conditions under which a statement may write. The lease of a handle that
has no Release on its way is renewed with its own TTL only. -/
structure Allowed (s : Server) (event : Isolation.Event) (digest : Bytes) (granted : Record)
    (deadline now : Int) : Prop where
  install : ∀ clock, event = .install event.session clock → clock 6 = now
  update : ∀ seen clock, event = .update event.session seen clock → clock 0 = now
  release : ∀ owner token stage, s.sessions[event.session]? = some ⟨.release digest owner token, stage⟩ →
    ¬(owner = granted.owner ∧ token = granted.token)
  renew : ∀ owner token ms stage, s.sessions[event.session]? = some ⟨.renew digest owner token ms, stage⟩ →
    owner = granted.owner → token = granted.token → deadline ≤ now + ms * millisecond

theorem moves_spares {a b : Isolation.Session} (hm : Moves s event a b)
    (ha : s.sessions[event.session]? = some a) (hr : s.db.records digest = some row)
    (hrow : Secures granted deadline row) (hlt : now < deadline)
    (hallowed : Allowed s event digest granted deadline now) (h : Spares digest granted deadline a) :
    Spares digest granted deadline b := by
  cases hm with
  | started | fenced | refused | overlooked | stale | aborted => trivial
  | scanning => exact List.not_mem_nil
  | @installed key owner ms since token snapshot clock written hevent hfree hi =>
      cases written with
      | none => trivial
      | some written =>
          rintro rfl
          rw [hr] at hi
          exact absurd (install_secured hrow hlt (hallowed.install clock hevent) hi) (Option.some_ne_none _)
  | @updated statement since snapshot clock key record seen hevent hfree hcounts hreads he =>
      cases record with
      | none => trivial
      | some written =>
          rintro rfl
          cases statement with
          | acquire key' owner ms => exact absurd rfl (hcounts key')
          | renew key' owner token ms =>
              simp only [effect] at he
              split at he
              next renewed hrenewal =>
                cases he
                rw [hr] at hrenewal
                exact renewal_secured hrow (hallowed.update seen clock hevent)
                  (hallowed.renew owner token ms _ ha) hrenewal
              next => cases he
          | validate key' owner token => cases he
          | release key' owner token =>
              simp only [effect] at he
              split at he
              next released hreleasing =>
                cases he
                rw [hr] at hreleasing
                exact absurd hreleasing (releasing_secured hrow (hallowed.release owner token _ ha))
              next => cases he
          | cleanup batch doomed => cases he
  | @took batch since doomed rest taken snapshot candidate age hfree _ hb he =>
      simp only [Spares, List.map_append, List.mem_append, not_or] at h ⊢
      refine ⟨h, ?_⟩
      simp only [List.map_cons, List.map_nil, List.mem_singleton]
      rintro rfl
      simp [eligible, hr, hrow.active] at he
  | skipped => exact h
  | collected => exact h

theorem stands_publish {statement : Statement} {since : Nat} {input : Option (Clock × Statement)}
    {written : Effect} {answer : Answer} (hr : db.records digest = some row)
    (hrow : Secures granted deadline row)
    (h : Spares digest granted deadline ⟨statement, .evaluated since input written answer⟩) :
    ∃ row, (publish db written).records digest = some row ∧ Secures granted deadline row := by
  cases written with
  | nothing => exact ⟨row, hr, hrow⟩
  | write key fence record =>
      by_cases hk : key = digest
      · subst hk
        cases record with
        | none => cases fence <;> exact ⟨row, hr, hrow⟩
        | some written => exact ⟨written, setRecord_self _ _ _, h rfl⟩
      · refine ⟨row, ?_, hrow⟩
        rw [publish_records (e := .write key fence record) (beq_eq_false_iff_ne.mpr hk), hr]
  | delete digests =>
      refine ⟨row, ?_, hrow⟩
      rw [publish_records, hr]
      simpa [Effect.locks] using (show digest ∉ digests from h)

theorem Backs.step (h : Backs store s granted deadline) (hs : Step s event s') (hlt : now < deadline)
    (hallowed : Allowed s event (store.digest granted.key) granted deadline now) :
    Backs store s' granted deadline := by
  obtain ⟨⟨row, hr, hrow⟩, hspared⟩ := h
  cases hs with
  | kept => exact ⟨⟨row, hr, hrow⟩, hspared⟩
  | moved ha hm hevent =>
      subst hevent
      refine ⟨⟨row, hr, hrow⟩, forall_mem_set hspared ?_⟩
      exact moves_spares hm ha hr hrow hlt hallowed (hspared _ (List.mem_of_getElem? ha))
  | committed ha =>
      exact ⟨stands_publish hr hrow (hspared _ (List.mem_of_getElem? ha)), forall_mem_set hspared trivial⟩
  | cancelled ha => exact ⟨⟨row, hr, hrow⟩, forall_mem_set hspared trivial⟩

end Steps

end GoLease.Postgres.Contested
