import GoLease.Postgres.Outcomes
import GoLease.Traces

namespace GoLease.Postgres

open Traces Database

/-- A database that cleanups have trimmed against the one without them: some
rows are gone, all of them inactive where they remain. -/
structure Trimmed (gone : Bytes → Prop) (db plain : Database) : Prop where
  fences : db.fences = plain.fences
  records : ∀ digest, db.records digest = plain.records digest ∨
    gone digest ∧ db.records digest = none ∧
      ∃ row, plain.records digest = some row ∧ row.active = false

namespace Trimmed

variable {gone gone' : Bytes → Prop} {db plain : Database}

theorem refl (gone : Bytes → Prop) (db : Database) : Trimmed gone db db := ⟨rfl, fun _ => .inl rfl⟩

theorem mono (h : Trimmed gone db plain) (hg : ∀ digest, gone digest → gone' digest) :
    Trimmed gone' db plain :=
  ⟨h.fences, fun digest => (h.records digest).imp_right (fun hx => ⟨hg digest hx.1, hx.2⟩)⟩

theorem setFence (h : Trimmed gone db plain) (digest : Bytes) (token : Nat) :
    Trimmed gone (db.setFence digest token) (plain.setFence digest token) := by
  refine ⟨?_, h.records⟩
  rw [Database.setFence, Database.setFence, h.fences]

theorem setRecord (h : Trimmed gone db plain) (digest : Bytes) (row : Row) :
    Trimmed gone (db.setRecord digest row) (plain.setRecord digest row) := by
  refine ⟨h.fences, ?_⟩
  intro other
  by_cases hd : other = digest
  · rw [hd, setRecord_self, setRecord_self]
    exact .inl rfl
  · rw [setRecord_of_ne _ hd, setRecord_of_ne _ hd]
    exact h.records other

theorem nextFence (h : Trimmed gone db plain) (digest : Bytes) :
    db.nextFence digest = plain.nextFence digest := by
  unfold Database.nextFence
  rw [h.fences]

theorem refusal (h : Trimmed gone db plain) (digest : Bytes) :
    db.refusal digest = plain.refusal digest := by
  unfold Database.refusal
  rw [h.fences]

/-- Where the row is gone the insertion writes what the update of the inactive
row writes. -/
theorem acquireSQL (h : Trimmed gone db plain) (now : Int) (digest owner : Bytes) (ms : Int) :
    Trimmed gone (db.acquireSQL (frozen now) digest owner ms).1
        (plain.acquireSQL (frozen now) digest owner ms).1 ∧
      (db.acquireSQL (frozen now) digest owner ms).2 =
        (plain.acquireSQL (frozen now) digest owner ms).2 := by
  unfold Database.acquireSQL
  rw [h.nextFence digest, h.refusal digest]
  cases plain.nextFence digest with
  | none => exact ⟨h, rfl⟩
  | some token =>
      dsimp only [frozen]
      split
      next => exact ⟨h, rfl⟩
      next =>
        rcases h.records digest with he | ⟨_, hnone, row, hrow, hinactive⟩
        · rw [he]
          cases plain.records digest with
          | none => exact ⟨(h.setFence _ _).setRecord _ _, rfl⟩
          | some row =>
              dsimp only
              split
              next => exact ⟨(h.setFence _ _).setRecord _ _, rfl⟩
              next => exact ⟨h.setFence _ _, rfl⟩
        · rw [hnone, hrow]
          simp only [hinactive, Bool.false_eq_true, not_false_eq_true, true_or, if_true]
          exact ⟨(h.setFence _ _).setRecord _ _, trivial⟩

theorem renewSQL (h : Trimmed gone db plain) (now : Int) (digest owner : Bytes) (token : Nat) (ms : Int) :
    Trimmed gone (db.renewSQL (frozen now) digest owner token ms).1
        (plain.renewSQL (frozen now) digest owner token ms).1 ∧
      (db.renewSQL (frozen now) digest owner token ms).2 =
        (plain.renewSQL (frozen now) digest owner token ms).2 := by
  unfold Database.renewSQL
  rcases h.records digest with he | ⟨_, hnone, row, hrow, hinactive⟩
  · rw [he]
    cases plain.records digest with
    | none => exact ⟨h, rfl⟩
    | some row =>
        dsimp only
        split
        next =>
          split
          next => exact ⟨h, rfl⟩
          next => exact ⟨h.setRecord _ _, rfl⟩
        next => exact ⟨h, rfl⟩
  · rw [hnone, hrow]
    dsimp only
    rw [if_neg (by simp [hinactive])]
    exact ⟨h, rfl⟩

theorem validateSQL (h : Trimmed gone db plain) (clock : Clock) (digest owner : Bytes) (token : Nat) :
    db.validateSQL clock digest owner token = plain.validateSQL clock digest owner token := by
  unfold Database.validateSQL
  rcases h.records digest with he | ⟨_, hnone, row, hrow, hinactive⟩
  · rw [he]
  · rw [hnone, hrow]
    exact (if_neg (by simp [hinactive])).symm

/-- The one difference: the release of a row that is gone is taken for a
repeated one. -/
theorem releaseSQL (h : Trimmed gone db plain) (clock : Clock) (digest owner : Bytes) (token : Nat) :
    Trimmed gone (db.releaseSQL clock digest owner token).1
        (plain.releaseSQL clock digest owner token).1 ∧
      ((db.releaseSQL clock digest owner token).2 = (plain.releaseSQL clock digest owner token).2 ∨
        gone digest ∧ (db.releaseSQL clock digest owner token).2 = .idempotent ∧
          (plain.releaseSQL clock digest owner token).2 = .stale) := by
  unfold Database.releaseSQL
  rcases h.records digest with he | ⟨hg, hnone, row, hrow, hinactive⟩
  · rw [he]
    cases plain.records digest with
    | none => exact ⟨h, .inl rfl⟩
    | some row =>
        dsimp only
        split
        next => exact ⟨h.setRecord _ _, .inl rfl⟩
        next => exact ⟨h, .inl rfl⟩
  · rw [hnone, hrow]
    dsimp only
    rw [if_neg (by simp [hinactive])]
    refine ⟨h, ?_⟩
    simp only [releaseOutcome, hinactive, Bool.false_eq_true, if_false, Bool.not_false, Bool.and_true]
    split
    next => exact .inl rfl
    next => exact .inr ⟨hg, trivial, rfl⟩

end Trimmed

theorem cleanupSQL_records (db : Database) (batch : Nat) (doomed : List (Bytes × Int)) (digest : Bytes) :
    (db.cleanupSQL batch doomed).1.records digest = db.records digest ∨
      (db.cleanupSQL batch doomed).1.records digest = none ∧
        ∃ row, db.records digest = some row ∧ row.active = false := by
  by_cases hd : digest ∈ (((doomed.filter db.eligible).map Prod.fst).dedup).take batch
  · refine .inr ⟨if_pos hd, ?_⟩
    obtain ⟨candidate, hm, rfl⟩ := List.mem_map.mp (List.mem_dedup.mp (List.mem_of_mem_take hd))
    have heligible := (List.mem_filter.mp hm).2
    unfold eligible at heligible
    split at heligible
    next row hrow =>
      rw [Bool.and_eq_true, Bool.not_eq_true'] at heligible
      exact ⟨row, hrow, heligible.1⟩
    next => cases heligible
  · exact .inl (if_neg hd)

theorem cleanup_records (db : Database) (ctx : Ctx) (batch : Nat) (doomed : List (Bytes × Int))
    (digest : Bytes) :
    (Store.cleanup db ctx batch doomed).1.fences = db.fences ∧
      ((Store.cleanup db ctx batch doomed).1.records digest = db.records digest ∨
        (Store.cleanup db ctx batch doomed).1.records digest = none ∧
          ∃ row, db.records digest = some row ∧ row.active = false) := by
  unfold Store.cleanup
  split
  next => exact ⟨rfl, .inl rfl⟩
  next =>
    split
    next => exact ⟨rfl, .inl rfl⟩
    next => dsimp only; split <;> exact ⟨rfl, cleanupSQL_records db batch doomed digest⟩

section Calls

variable {gone : Bytes → Prop} {db plain : Database} (store : Store)

/-- The reply to a release of a key whose row is gone, against that of the
database that has kept it. -/
def Excused (gone : Bytes → Prop) (store : Store) (request : Request) (reply expected : Reply) : Prop :=
  ∃ owned, request = .release owned ∧ gone (store.digest owned.key) ∧ reply = ⟨zeroRecord, none⟩ ∧
    expected = ⟨zeroRecord, some (wrap .errStaleOwner "postgres release")⟩

theorem Trimmed.query {α : Type} (h : Trimmed gone db plain) (owner : Bytes)
    {result expected : Database × Option α} (hdb : Trimmed gone result.1 expected.1)
    (hvalue : result.2 = expected.2) :
    Trimmed gone (store.query db owner result).1 (store.query plain owner expected).1 ∧
      (store.query db owner result).2 = (store.query plain owner expected).2 := by
  unfold Store.query
  split
  next => exact ⟨hdb, by rw [hvalue]⟩
  next => exact ⟨h, rfl⟩

theorem Trimmed.tryAcquire (h : Trimmed gone db plain) (now : Int) (ctx : Ctx) (key : Key) (owner : Bytes)
    (ttl : Int) :
    Trimmed gone (store.tryAcquire (frozen now) db ctx key owner ttl).1
        (store.tryAcquire (frozen now) plain ctx key owner ttl).1 ∧
      (store.tryAcquire (frozen now) db ctx key owner ttl).2 =
        (store.tryAcquire (frozen now) plain ctx key owner ttl).2 := by
  unfold Store.tryAcquire
  cases validate ctx key owner 1 ttl with
  | some err => exact ⟨h, rfl⟩
  | none =>
      obtain ⟨hdb, hvalue⟩ := h.acquireSQL now (store.digest key) owner (milliseconds ttl)
      obtain ⟨hdb, hvalue⟩ := h.query store owner hdb hvalue
      dsimp only
      generalize store.query db owner _ = result at hdb hvalue ⊢
      generalize store.query plain owner _ = expected at hdb hvalue ⊢
      obtain ⟨db', value⟩ := result
      obtain ⟨plain', value'⟩ := expected
      dsimp only at hdb hvalue
      subst hvalue
      cases value with
      | error err => exact ⟨hdb, rfl⟩
      | ok row =>
          dsimp only
          cases row.outcome with
          | contended | exhausted => exact ⟨hdb, rfl⟩
          | ok =>
              dsimp only
              cases recordFromValues key owner row.token row.acquiredAt row.expiresAt <;> exact ⟨hdb, rfl⟩

theorem Trimmed.renew (h : Trimmed gone db plain) (now : Int) (ctx : Ctx) (owned : Record) (ttl : Int) :
    Trimmed gone (store.renew (frozen now) db ctx owned ttl).1
        (store.renew (frozen now) plain ctx owned ttl).1 ∧
      (store.renew (frozen now) db ctx owned ttl).2 =
        (store.renew (frozen now) plain ctx owned ttl).2 := by
  unfold Store.renew
  cases validate ctx owned.key owned.owner owned.token ttl with
  | some err => exact ⟨h, rfl⟩
  | none =>
      obtain ⟨hdb, hvalue⟩ := h.renewSQL now (store.digest owned.key) owned.owner owned.token
        (milliseconds ttl)
      obtain ⟨hdb, hvalue⟩ := h.query store owned.owner hdb hvalue
      dsimp only
      generalize store.query db owned.owner _ = result at hdb hvalue ⊢
      generalize store.query plain owned.owner _ = expected at hdb hvalue ⊢
      obtain ⟨db', value⟩ := result
      obtain ⟨plain', value'⟩ := expected
      dsimp only at hdb hvalue
      subst hvalue
      dsimp only
      cases scanRecord owned.key owned.owner value with
      | error err => dsimp only; split <;> exact ⟨hdb, rfl⟩
      | ok record => dsimp only; split <;> exact ⟨hdb, rfl⟩

theorem Trimmed.validate (h : Trimmed gone db plain) (clock : Clock) (ctx : Ctx) (owned : Record) :
    store.validate clock db ctx owned = store.validate clock plain ctx owned := by
  unfold Store.validate
  rw [h.validateSQL clock]
  generalize plain.validateSQL clock _ _ _ = rows
  have hquery : (store.query db owned.owner (db, some rows)).2 =
      (store.query plain owned.owner (plain, some rows)).2 := by
    apply And.right
    apply h.query store owned.owner
    · exact h
    · rfl
  dsimp only
  rw [hquery]

theorem Trimmed.release (h : Trimmed gone db plain) (clock : Clock) (ctx : Ctx) (owned : Record) :
    Trimmed gone (store.release clock db ctx owned).1 (store.release clock plain ctx owned).1 ∧
      ((store.release clock db ctx owned).2 = (store.release clock plain ctx owned).2 ∨
        gone (store.digest owned.key) ∧ (store.release clock db ctx owned).2 = none ∧
          (store.release clock plain ctx owned).2 = some (wrap .errStaleOwner "postgres release")) := by
  unfold Store.release
  cases Postgres.validate ctx owned.key owned.owner owned.token millisecond with
  | some err => exact ⟨h, .inl rfl⟩
  | none =>
      obtain ⟨hdb, hvalue⟩ := h.releaseSQL clock (store.digest owned.key) owned.owner owned.token
      dsimp only
      generalize db.releaseSQL clock _ _ _ = result at hdb hvalue ⊢
      generalize plain.releaseSQL clock _ _ _ = expected at hdb hvalue ⊢
      obtain ⟨db', outcome⟩ := result
      obtain ⟨plain', outcome'⟩ := expected
      dsimp only at hdb hvalue ⊢
      unfold Store.query
      cases store.isText owned.owner with
      | false => exact ⟨h, .inl rfl⟩
      | true =>
          rcases hvalue with rfl | ⟨hg, rfl, rfl⟩
          · cases outcome <;> exact ⟨hdb, .inl rfl⟩
          · exact ⟨hdb, .inr ⟨hg, rfl, rfl⟩⟩

theorem Trimmed.exec (h : Trimmed gone db plain) (now : Int) (ctx : Ctx) (request : Request) :
    Trimmed gone (store.exec (frozen now) db ctx request).1 (store.exec (frozen now) plain ctx request).1 ∧
      ((store.exec (frozen now) db ctx request).2 = (store.exec (frozen now) plain ctx request).2 ∨
        Excused gone store request (store.exec (frozen now) db ctx request).2
          (store.exec (frozen now) plain ctx request).2) := by
  cases request with
  | tryAcquire key owner ttl =>
      obtain ⟨hdb, hvalue⟩ := h.tryAcquire store now ctx key owner ttl
      exact ⟨hdb, .inl (congrArg Reply.ofRecord hvalue)⟩
  | renew owned ttl =>
      obtain ⟨hdb, hvalue⟩ := h.renew store now ctx owned ttl
      exact ⟨hdb, .inl (congrArg Reply.ofRecord hvalue)⟩
  | validate owned => exact ⟨h, .inl (congrArg Reply.ofRecord (h.validate store (frozen now) ctx owned))⟩
  | release owned =>
      obtain ⟨hdb, hvalue | ⟨hg, hnil, hstale⟩⟩ := h.release store (frozen now) ctx owned
      · exact ⟨hdb, .inl (congrArg Reply.ofErr hvalue)⟩
      · exact ⟨hdb, .inr ⟨owned, rfl, hg, congrArg Reply.ofErr hnil, congrArg Reply.ofErr hstale⟩⟩

end Calls

/-- A call of the Backend interface, whose atomic statement has one reading of
the clock, or a call of Cleanup with the rows that its statement locks. -/
inductive Input
  | call (now : Int) (ctx : Ctx) (request : Request)
  | cleanup (ctx : Ctx) (batch : Nat) (doomed : List (Bytes × Int))

def Input.isCall : Input → Bool
  | .call _ _ _ => true
  | .cleanup _ _ _ => false

def Store.next (store : Store) (db : Database) : Input → Database
  | .call now ctx request => (store.exec (frozen now) db ctx request).1
  | .cleanup ctx batch doomed => (Store.cleanup db ctx batch doomed).1

/-- A cleanup of the history has removed a row under this digest. -/
def Removed (store : Store) (initial : Database) (past : List Input) (digest : Bytes) : Prop :=
  ∃ before ctx batch doomed after row, past = before ++ .cleanup ctx batch doomed :: after ∧
    (before.foldl store.next initial).records digest = some row ∧
    (Store.cleanup (before.foldl store.next initial) ctx batch doomed).1.records digest = none

theorem Removed.later {store : Store} {initial : Database} {past : List Input} {digest : Bytes}
    (h : Removed store initial past digest) (input : Input) :
    Removed store initial (past ++ [input]) digest := by
  obtain ⟨before, ctx, batch, doomed, after, row, rfl, hrow, hnone⟩ := h
  exact ⟨before, ctx, batch, doomed, after ++ [input], row, by simp, hrow, hnone⟩

theorem trimmed_run (store : Store) (initial : Database) (past : List Input) :
    Trimmed (Removed store initial past) (past.foldl store.next initial)
      ((past.filter Input.isCall).foldl store.next initial) := by
  induction past using List.reverseRecOn with
  | nil => exact .refl _ _
  | append_singleton past input ih =>
      have hlater := ih.mono (fun digest hr => hr.later input)
      rw [List.filter_append, List.foldl_append, List.foldl_append]
      cases input with
      | call now ctx request => exact (hlater.exec store now ctx request).1
      | cleanup ctx batch doomed =>
          have hrecords := cleanup_records (past.foldl store.next initial) ctx batch doomed
          refine ⟨(hrecords []).1.trans hlater.fences, ?_⟩
          intro digest
          rcases (hrecords digest).2 with hsame | ⟨hnone, row, hrow, hinactive⟩
          · have hold := hlater.records digest
            rw [← hsame] at hold
            exact hold
          -- A row that goes now is there without the cleanups, and inactive.
          · rcases hlater.records digest with he | ⟨_, habsent, _⟩
            · exact .inr ⟨⟨past, ctx, batch, doomed, [], row, rfl, hrow, hnone⟩, hnone, row,
                he.symm.trans hrow, hinactive⟩
            · cases hrow.symm.trans habsent

/-- Cleanup is transparent: every call gets the reply it would get without the
cleanups, but for a release of a key whose row was removed, and a cleanup
keeps every active row. -/
theorem cleanup_transparent (store : Store) (initial : Database) (past : List Input) :
    let db := past.foldl store.next initial
    let plain := (past.filter Input.isCall).foldl store.next initial
    (∀ now ctx request,
      let reply := (store.exec (frozen now) db ctx request).2
      let expected := (store.exec (frozen now) plain ctx request).2
      reply = expected ∨ Excused (Removed store initial past) store request reply expected) ∧
    ∀ ctx batch doomed digest row, db.records digest = some row → row.active = true →
      (Store.cleanup db ctx batch doomed).1.records digest = some row := by
  intro db plain
  refine ⟨fun now ctx request => ((trimmed_run store initial past).exec store now ctx request).2, ?_⟩
  intro ctx batch doomed digest row hrow hactive
  rcases (cleanup_records db ctx batch doomed digest).2 with hsame | ⟨_, row', hrow', hinactive⟩
  · exact hsame.trans hrow
  · cases hrow.symm.trans hrow'
    rw [hactive] at hinactive
    cases hinactive

end GoLease.Postgres
