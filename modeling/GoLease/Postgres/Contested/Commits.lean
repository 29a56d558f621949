import GoLease.Postgres.Contested.Secured
import GoLease.Postgres.Isolation.Tokens

namespace GoLease.Postgres.Contested

open Isolation Database Pool Truncation

section Rows

variable {clock : Clock} {owner : Bytes} {ms : Int} {token : Nat} {sent : Int} {row written : Row}

theorem install_row {current : Option Row} (htimed : ∀ k, sent ≤ clock k)
    (h : install clock owner ms token current = some (some written)) :
    written.active = true ∧ written.owner = owner ∧ written.token = token ∧
      sent + ms * millisecond ≤ written.expiresAt ∧ written.check = true := by
  unfold install at h
  split at h
  next => cases h
  next hcheck =>
    rw [not_not] at hcheck
    have hproposed := htimed 1
    have hupdated := htimed 4
    cases current with
    | none =>
        cases h
        exact ⟨rfl, rfl, rfl, by simp only [proposed]; omega, hcheck⟩
    | some row =>
        dsimp only at h
        split at h
        next =>
          split at h
          next => cases h
          next hcheck' =>
            cases h
            exact ⟨rfl, rfl, rfl, by dsimp only; omega, not_not.mp hcheck'⟩
        next => cases h

theorem renewal_row (htimed : ∀ k, sent ≤ clock k)
    (h : renewal clock owner ms token (some row) = some (some written)) :
    written.active = true ∧ written.owner = owner ∧ written.token = token ∧
      sent + ms * millisecond ≤ written.expiresAt := by
  simp only [renewal] at h
  split at h
  next hcurrent =>
    have hours : row.owner = owner ∧ row.token = token := by
      simpa only [Row.ours, Bool.and_eq_true, beq_iff_eq] using hcurrent.1
    have hread := htimed 0
    split at h
    next => cases h
    next =>
      cases h
      exact ⟨hcurrent.2.1, hours.1, hours.2, by dsimp only; omega⟩
  next => cases h

end Rows

section Commits

variable {Read : Nat → Clock → Prop} {initial : Database} {s : Server} {i since token : Nat}
  {digest owner : Bytes} {ms sent : Int}
  {written : Effect} {answer : Answer} {clock : Clock}

/-- A session without the lock of a record leaves it alone. -/
theorem spares_of_unlocked {session : Isolation.Session} {granted : Record} {deadline : Int}
    (h : session.locksRecord digest = false) : Spares digest granted deadline session := by
  obtain ⟨statement, stage⟩ := session
  cases stage with
  | waiting | started | fenced | returned => trivial
  | collecting since snapshot rest taken =>
      change digest ∉ taken.map Prod.fst
      simpa [Session.locksRecord] using h
  | evaluated since input effect answer =>
      cases effect with
      | nothing => trivial
      | write key fence record =>
          cases record with
          | none => trivial
          | some row => exact fun hk => absurd hk (beq_eq_false_iff_ne.mp h)
      | delete digests =>
          change digest ∉ digests
          simpa [Session.locksRecord, Effect.locks] using h

/-- The commit of a written row that secures a lease backs the lease: the lock
of the row was held, so nobody else has touched it. -/
theorem backs_commit {store : Store} {statement : Statement} {input : Option (Clock × Statement)}
    {fence : Option Nat} {row : Row} {granted : Record} {deadline : Int} (h : Isolation.Inv Read initial s)
    (hi : s.sessions[i]? = some ⟨statement,
      .evaluated since input (.write (store.digest granted.key) fence (some row)) answer⟩)
    (hrow : Secures granted deadline row) :
    Backs store (s.commit i statement since input (.write (store.digest granted.key) fence (some row)) answer)
      granted deadline := by
  refine ⟨⟨row, setRecord_self _ _ _, hrow⟩, ?_⟩
  intro session hmem
  obtain ⟨j, hj⟩ := List.mem_iff_getElem?.mp hmem
  rcases getElem?_set_cases hj with ⟨rfl, rfl⟩ | ⟨hne, hj⟩
  · trivial
  · exact spares_of_unlocked (h.records _ i j _ _ hi hj hne (beq_self_eq_true _))

/-- What an acquisition has written when it is about to report success. -/
theorem evaluated_acquired {a e : Int} (h : Isolation.Inv Read initial s)
    (hi : s.sessions[i]? = some ⟨.acquire digest owner ms,
      .evaluated since (some (clock, .acquire digest owner ms)) written
        (.acquired ⟨token, a, e, .ok⟩)⟩)
    (htimed : ∀ k, sent ≤ clock k) :
    ∃ row, written = .write digest (some token) (some row) ∧ s.db.nextFence digest = some token ∧
      row.active = true ∧ row.owner = owner ∧ row.token = token ∧
      sent + ms * millisecond ≤ row.expiresAt ∧ a < e ∧ row.acquiredAt = a ∧ row.expiresAt = e := by
  have hs := h.sound i _ hi
  cases hs with
  | evaluated hsince hexecutes hown hwritten hagrees hlocks =>
      generalize hanswer : (s.db.exec (clock, .acquire digest owner ms)).2 = plain at hagrees
      cases hagrees
      simp only [exec] at hanswer
      simp only [effect] at hwritten
      cases ht : s.db.nextFence digest with
      | none =>
          rw [acquireSQL_none ht] at hanswer
          cases hanswer.symm.trans
            (congrArg (fun o => Answer.acquired ⟨0, clock 7, clock 8, o⟩) (refusal_exhausted ht))
      | some next =>
          rw [acquireSQL_some ht] at hanswer
          rw [ht] at hwritten
          dsimp only at hwritten
          cases hinstall : install clock owner ms next (s.db.records digest) with
          | none =>
              rw [hinstall] at hanswer
              cases hanswer
          | some row =>
              rw [hinstall] at hanswer hwritten
              cases row with
              | none =>
                  simp only [Option.elim_some, acquireAnswer, refusal_contended ht] at hanswer
                  cases hanswer
              | some row =>
                  simp only [Option.elim_some, acquireAnswer] at hanswer
                  cases hanswer
                  obtain ⟨hactive, howner, htoken, hexpiry, hcheck⟩ := install_row htimed hinstall
                  exact ⟨row, hwritten.symm, rfl, hactive, howner, htoken, hexpiry,
                    (check_iff.mp hcheck).2.2, rfl, rfl⟩

theorem evaluated_renewed {row : RecordRow} (h : Isolation.Inv Read initial s)
    (hi : s.sessions[i]? = some ⟨.renew digest owner token ms,
      .evaluated since (some (clock, .renew digest owner token ms)) written (.record (some row))⟩)
    (htimed : ∀ k, sent ≤ clock k) :
    ∃ row, written = .write digest none (some row) ∧ row.active = true ∧ row.owner = owner ∧
      row.token = token ∧ sent + ms * millisecond ≤ row.expiresAt := by
  have hs := h.sound i _ hi
  cases hs with
  | evaluated hsince hexecutes hown hwritten hagrees hlocks =>
      generalize hanswer : (s.db.exec (clock, .renew digest owner token ms)).2 = plain at hagrees
      cases hagrees
      simp only [exec, renewSQL_eq] at hanswer
      simp only [effect] at hwritten
      cases hrecord : s.db.records digest with
      | none =>
          rw [hrecord] at hanswer
          cases hanswer
      | some current =>
          rw [hrecord] at hanswer hwritten
          cases hrenewal : renewal clock owner ms token (some current) with
          | none =>
              rw [hrenewal] at hanswer
              cases hanswer
          | some result =>
              rw [hrenewal] at hanswer hwritten
              cases result with
              | none => cases hanswer
              | some row => exact ⟨row, hwritten.symm, renewal_row htimed hrenewal⟩

end Commits

section Sessions

/-- A statement that writes nothing reports no lease. -/
def Unwritten : Statement → Answer → Prop
  | .acquire .., answer => ∀ token a e, answer ≠ .acquired ⟨token, a, e, .ok⟩
  | .renew .., answer => ∀ row, answer ≠ .record (some row)
  | .validate .., _ | .release .., _ | .cleanup .., _ => True

theorem unwritten_of_nothing {db : Database} {clock : Clock} {statement : Statement} {answer : Answer}
    (he : effect db (clock, statement) = .nothing)
    (ha : Agrees (db.exec (clock, statement)).2 answer) : Unwritten statement answer := by
  cases statement with
  | acquire digest owner ms =>
      rintro token a e rfl
      generalize hanswer : (db.exec (clock, .acquire digest owner ms)).2 = plain at ha
      cases ha
      exact effect_of_ok hanswer he
  | renew digest owner token ms =>
      rintro row rfl
      generalize hanswer : (db.exec (clock, .renew digest owner token ms)).2 = plain at ha
      cases ha
      simp only [exec, renewSQL_eq] at hanswer
      simp only [effect] at he
      cases hrenewal : renewal clock owner ms token (db.records digest) with
      | none =>
          rw [hrenewal] at hanswer
          cases hanswer
      | some result =>
          rw [hrenewal] at hanswer he
          cases result with
          | none => cases hanswer
          | some row => cases he
  | validate | release | cleanup => trivial

/-- Rows are written with readings taken after the statement was sent. -/
def Timed (sent : Int) (session : Isolation.Session) : Prop :=
  match session.stage with
  | .evaluated _ none _ answer => Unwritten session.statement answer
  | .evaluated _ (some input) _ _ =>
    (∀ batch doomed, session.statement ≠ .cleanup batch doomed) → ∀ k, sent ≤ input.1 k
  | _ => True

variable {s s' : Server} {event : Isolation.Event} {sent : Int} {a b : Isolation.Session}

theorem moves_statement (hm : Moves s event a b) : b.statement = a.statement := by
  cases hm <;> rfl

theorem moves_timed (hm : Moves s event a b)
    (hinstall : ∀ clock, event = .install event.session clock → ∀ k, sent ≤ clock k)
    (hupdate : ∀ seen clock, event = .update event.session seen clock → ∀ k, sent ≤ clock k) :
    Timed sent b := by
  cases hm with
  | started | scanning | fenced | refused | aborted | took | skipped => trivial
  | installed hevent => exact fun _ => hinstall _ hevent
  | overlooked reading hclock he => exact unwritten_of_nothing he (.same _)
  | stale clock hclock he ha => exact unwritten_of_nothing he ha
  | updated hevent => exact fun _ => hupdate _ _ hevent
  | collected => exact fun hcleanup => absurd rfl (hcleanup _ _)

theorem reached_publish {db : Database} {input : Clock × Statement} (digest : Bytes) :
    reached db digest ≤ reached (publish db (effect db input)) digest := by
  rw [← exec_effect]
  unfold reached
  cases hf : db.fences digest with
  | none => exact Nat.zero_le _
  | some fence =>
      obtain ⟨later, hlater, hle⟩ := Fences.step_fence (db.exec_step input) hf
      rw [hlater]
      exact hle

theorem reached_served {Read : Nat → Clock → Prop} {initial : Database}
    (h : Isolation.Inv Read initial s) (hs : Step s event s') (digest : Bytes) :
    reached s.db digest ≤ reached s'.db digest := by
  cases hs with
  | kept | moved | cancelled => exact Nat.le_refl _
  | committed hi =>
      have hsound := h.sound _ _ hi
      cases hsound with
      | idle => exact Nat.le_refl _
      | evaluated hsince hexecutes hown hwritten =>
          subst hwritten
          exact reached_publish digest

end Sessions

end GoLease.Postgres.Contested
