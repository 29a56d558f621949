import GoLease.Postgres.Isolation.Server

namespace GoLease.Postgres.Isolation

open Database

variable {db db' : Database} {digest owner : Bytes} {token : Nat} {ms : Int} {clock : Clock}
  {statement : Statement} {input : Clock × Statement}

/-- The keys whose records a statement looks at. -/
def reads : Statement → Bytes → Prop
  | .acquire key _ _, digest | .renew key _ _ _, digest | .validate key _ _, digest
  | .release key _ _, digest => digest = key
  | .cleanup _ doomed, digest => digest ∈ doomed.map Prod.fst

/-- The keys whose fences a statement looks at or moves. -/
def counts : Statement → Bytes → Prop
  | .acquire key _ _, digest => digest = key
  | _, _ => False

theorem acquireSQL_none (h : db.nextFence digest = none) :
    db.acquireSQL clock digest owner ms = (db, some ⟨0, clock 7, clock 8, db.refusal digest⟩) := by
  simp only [acquireSQL, h]

/-- The statement in two parts: its fence, and the row it installs. -/
theorem acquireSQL_some (h : db.nextFence digest = some token) :
    db.acquireSQL clock digest owner ms =
      match install clock owner ms token (db.records digest) with
      | none => (db, none)
      | some row => (publish db (.write digest (some token) row),
          some (acquireAnswer clock token db digest row)) := by
  simp only [acquireSQL, h, install, proposed]
  split
  next => rfl
  next =>
    cases db.records digest with
    | none => rfl
    | some row =>
        dsimp only
        split
        next => split <;> rfl
        next => rfl

theorem renewSQL_eq (db : Database) (clock : Clock) (digest owner : Bytes) (token : Nat) (ms : Int) :
    db.renewSQL clock digest owner token ms =
      match renewal clock owner ms token (db.records digest) with
      | none => (db, none)
      | some none => (db, some none)
      | some (some row) =>
        (db.setRecord digest row, some (some ⟨token, row.acquiredAt, row.expiresAt⟩)) := by
  simp only [renewSQL, renewal]
  cases db.records digest with
  | none => rfl
  | some row =>
      dsimp only
      split
      next => split <;> rfl
      next => rfl

theorem releaseSQL_eq (db : Database) (clock : Clock) (digest owner : Bytes) (token : Nat) :
    db.releaseSQL clock digest owner token =
      match releasing clock owner token (db.records digest) with
      | none => (db, releaseOutcome owner token false (db.records digest))
      | some row => (db.setRecord digest row, .ok) := by
  simp only [releaseSQL, releasing]
  cases db.records digest with
  | none => rfl
  | some row =>
      dsimp only
      split <;> rfl

/-- A statement does to the tables what it publishes. -/
theorem exec_effect (db : Database) (input : Clock × Statement) :
    (db.exec input).1 = publish db (effect db input) := by
  obtain ⟨clock, statement⟩ := input
  cases statement with
  | acquire digest owner ms =>
      simp only [exec, effect]
      cases h : db.nextFence digest with
      | none => rw [acquireSQL_none h]; rfl
      | some token =>
          rw [acquireSQL_some h]
          dsimp only
          cases install clock owner ms token (db.records digest) <;> rfl
  | renew digest owner token ms =>
      simp only [exec, effect, renewSQL_eq]
      generalize renewal clock owner ms token (db.records digest) = row
      rcases row with _ | _ | row <;> rfl
  | validate digest owner token => rfl
  | release digest owner token =>
      simp only [exec, effect, releaseSQL_eq]
      cases releasing clock owner token (db.records digest) <;> rfl
  | cleanup batch doomed =>
      simp only [exec, effect, cleanupSQL, publish, List.contains_eq_mem, decide_eq_true_eq]

section Frame

theorem publish_records {e : Effect} (h : e.locks digest = false) :
    (publish db e).records digest = db.records digest := by
  cases e with
  | nothing => rfl
  | write key fence record =>
      have hne : digest ≠ key := by
        rintro rfl
        simp [Effect.locks] at h
      cases record with
      | none => cases fence <;> rfl
      | some row =>
          simp only [publish, Option.elim_some]
          rw [setRecord_of_ne _ hne]
          cases fence <;> rfl
  | delete digests => exact if_neg (by simpa only [Effect.locks, Bool.not_eq_true] using h)

/-- Only an acquisition moves a fence. -/
theorem publish_fences (h : ¬counts input.2 digest) :
    (publish db (effect db input)).fences digest = db.fences digest := by
  obtain ⟨clock, statement⟩ := input
  cases statement with
  | acquire key owner ms =>
      have hne : digest ≠ key := h
      simp only [effect]
      split
      next => rfl
      next token _ =>
        split
        next => rfl
        next row _ =>
          cases row with
          | none => exact setFence_of_ne db hne token
          | some row => exact setFence_of_ne db hne token
  | renew key owner token ms =>
      simp only [effect]
      split
      next => rfl
      next => rfl
  | validate key owner token => rfl
  | release key owner token =>
      simp only [effect]
      split
      next => rfl
      next => rfl
  | cleanup batch doomed => rfl

/-- The tables agree on the rows that a statement looks at. -/
structure Same (statement : Statement) (db db' : Database) : Prop where
  records : ∀ digest, reads statement digest → db'.records digest = db.records digest
  fences : ∀ digest, counts statement digest → db'.fences digest = db.fences digest

theorem nextFence_congr (h : db'.fences digest = db.fences digest) :
    db'.nextFence digest = db.nextFence digest := by
  rw [nextFence, nextFence, h]

theorem refusal_congr (h : db'.fences digest = db.fences digest) :
    db'.refusal digest = db.refusal digest := by
  rw [refusal, refusal, h]

theorem eligible_congr {candidate : Bytes × Int}
    (h : db'.records candidate.1 = db.records candidate.1) :
    db'.eligible candidate = db.eligible candidate := by
  rw [eligible, eligible, h]

/-- What a statement writes and answers depends on those rows only. -/
theorem exec_congr (h : Same statement db db') (clock : Clock) :
    effect db' (clock, statement) = effect db (clock, statement) ∧
      (db'.exec (clock, statement)).2 = (db.exec (clock, statement)).2 := by
  obtain ⟨hrecords, hfences⟩ := h
  cases statement with
  | acquire digest owner ms =>
      have hf := hfences digest rfl
      have hr := hrecords digest rfl
      simp only [effect, exec]
      rw [nextFence_congr hf, hr]
      cases ht : db.nextFence digest with
      | none =>
          rw [acquireSQL_none ht, acquireSQL_none ((nextFence_congr hf).trans ht), refusal_congr hf]
          exact ⟨rfl, rfl⟩
      | some token =>
          rw [acquireSQL_some ht, acquireSQL_some ((nextFence_congr hf).trans ht), hr]
          cases install clock owner ms token (db.records digest) with
          | none => exact ⟨rfl, rfl⟩
          | some row =>
              cases row with
              | none => simp only [acquireAnswer, refusal_congr hf, Option.elim_some, and_self]
              | some row => exact ⟨rfl, rfl⟩
  | renew digest owner token ms =>
      simp only [effect, exec, renewSQL_eq, hrecords digest rfl, true_and]
      generalize renewal clock owner ms token (db.records digest) = row
      rcases row with _ | _ | row <;> rfl
  | validate digest owner token =>
      simp only [effect, exec, validateSQL, hrecords digest rfl, and_self]
  | release digest owner token =>
      simp only [effect, exec, releaseSQL_eq, hrecords digest rfl, true_and]
      cases releasing clock owner token (db.records digest) <;> rfl
  | cleanup batch doomed =>
      have hfilter : doomed.filter db'.eligible = doomed.filter db.eligible := by
        apply List.filter_congr
        intro candidate hmem
        exact eligible_congr (hrecords _ (List.mem_map_of_mem hmem))
      simp only [effect, exec, cleanupSQL, hfilter, and_self]

end Frame

end GoLease.Postgres.Isolation
