import GoLease.Postgres.Concurrent
import GoLease.Postgres.Isolation.Server

/-!
Releases of one record on the server of all statements. The server that runs
nothing but such releases does what this one does.
-/

namespace GoLease.Postgres.Isolation.Releases

open Pool Database
open Concurrent (row matching holds outcome opening waiting_of_mem)

section Definitions

variable (store : Store) (owned : Record)

def statement : Statement := .release (store.digest owned.key) owned.owner owned.token

/-- The same event on the server of all statements. -/
def event : Concurrent.Event → Event
  | .start i => .start i
  | .update i clock => .update i 0 clock
  | .commit i => .commit i

/-- Where the session stands while the release is at a stage. The row that it
has written is the one that the server keeps for it. -/
inductive Stands (written : Option (Nat × Row)) (i : Nat) : Concurrent.Stage → Stage → Prop
  | waiting : Stands written i .waiting .waiting
  | started (since : Nat) (snapshot : Database) :
      Stands written i (.started snapshot) (.started since snapshot)
  | unchanged (since : Nat) (snapshot : Database) (h : ∀ latest, written ≠ some (i, latest)) :
      Stands written i (.evaluated snapshot false)
        (.evaluated since none .nothing (.released (outcome store owned snapshot false)))
  | changed (since : Nat) (snapshot : Database) (clock : Clock) {latest : Row}
      (h : written = some (i, latest)) :
      Stands written i (.evaluated snapshot true)
        (.evaluated since (some (clock, statement store owned))
          (.write (store.digest owned.key) none (some latest)) (.released .ok))
  | returned (since : Nat) (outcome : ReleaseOutcome) :
      Stands written i (.returned outcome) (.returned since (some (.released outcome)))

/-- The two servers side by side. -/
structure Sim (c : Concurrent.Server) (s : Server) : Prop where
  db : s.db = c.db
  length : s.sessions.length = c.statements.length
  stands : ∀ (i : Nat) stage, c.statements[i]? = some stage → ∃ stage',
    s.sessions[i]? = some ⟨statement store owned, stage'⟩ ∧ Stands store owned c.written i stage stage'
  writer : ∀ (i : Nat) latest, c.written = some (i, latest) →
    ∃ snapshot, c.statements[i]? = some (.evaluated snapshot true)

end Definitions

section Steps

variable {store : Store} {owned : Record} {c : Concurrent.Server} {s : Server} {i : Nat}

theorem Stands.congr {written written' : Option (Nat × Row)} {stage : Concurrent.Stage} {stage' : Stage}
    (h : Stands store owned written i stage stage')
    (hsame : ∀ latest, written' = some (i, latest) ↔ written = some (i, latest)) :
    Stands store owned written' i stage stage' := by
  cases h with
  | waiting => exact .waiting
  | started since snapshot => exact .started since snapshot
  | unchanged since snapshot h =>
      exact .unchanged since snapshot (fun latest hw => h latest ((hsame latest).mp hw))
  | changed since snapshot clock h => exact .changed since snapshot clock ((hsame _).mpr h)
  | returned since outcome => exact .returned since outcome

theorem Sim.not_writer (h : Sim store owned c s) {stage : Concurrent.Stage} (hi : c.statements[i]? = some stage)
    (hstage : ∀ snapshot, stage ≠ .evaluated snapshot true) (latest : Row) :
    c.written ≠ some (i, latest) := by
  intro hw
  obtain ⟨snapshot, hsnapshot⟩ := h.writer i latest hw
  exact hstage snapshot (Option.some.inj (hi.symm.trans hsnapshot))

/-- The release goes on in both servers. -/
theorem Sim.set (h : Sim store owned c s) {db db' : Database} {written : Option (Nat × Row)}
    {log : List (Nat × Clock × Statement)} {old stage : Concurrent.Stage} {stage' : Stage}
    (hdb : db' = db) (hi : c.statements[i]? = some old) (hstands : Stands store owned written i stage stage')
    (hothers : ∀ (j : Nat) latest, j ≠ i → (written = some (j, latest) ↔ c.written = some (j, latest)))
    (hwriter : ∀ latest, written = some (i, latest) → ∃ snapshot, stage = .evaluated snapshot true) :
    Sim store owned ⟨db, written, c.statements.set i stage⟩
      ⟨db', log, s.sessions.set i ⟨statement store owned, stage'⟩⟩ where
  db := hdb
  length := by rw [List.length_set, List.length_set, h.length]
  stands := by
    intro j other hj
    obtain ⟨old', hi', -⟩ := h.stands i old hi
    rcases getElem?_set_cases hj with ⟨rfl, rfl⟩ | ⟨hne, hj⟩
    · exact ⟨stage', getElem?_set_of_some hi' _, hstands⟩
    · obtain ⟨other', hj', hother⟩ := h.stands j other hj
      exact ⟨other', (List.getElem?_set_ne hne).trans hj',
        hother.congr (fun latest => hothers j latest hne.symm)⟩
  writer := by
    intro j latest hw
    by_cases hj : j = i
    · subst hj
      obtain ⟨snapshot, rfl⟩ := hwriter latest hw
      exact ⟨snapshot, getElem?_set_of_some hi _⟩
    · obtain ⟨snapshot, hsnapshot⟩ := h.writer j latest ((hothers j latest hj).mp hw)
      exact ⟨snapshot, (List.getElem?_set_ne (Ne.symm hj)).trans hsnapshot⟩

/-- The row is locked while a release has written it. -/
theorem Sim.locked (h : Sim store owned c s) :
    s.sessions.any (Session.locksRecord (store.digest owned.key)) = c.written.isSome := by
  cases hw : c.written with
  | some entry =>
      obtain ⟨j, latest⟩ := entry
      obtain ⟨snapshot, hj⟩ := h.writer j latest hw
      obtain ⟨stage', hj', hstands⟩ := h.stands j _ hj
      refine List.any_eq_true.mpr ⟨_, List.mem_of_getElem? hj', ?_⟩
      cases hstands with
      | changed => simp [Session.locksRecord, Effect.locks]
  | none =>
      refine List.any_eq_false.mpr ?_
      intro session hmem
      obtain ⟨j, hj'⟩ := List.mem_iff_getElem?.mp hmem
      have hlt : j < c.statements.length := h.length ▸ (List.getElem?_eq_some_iff.mp hj').1
      obtain ⟨stage', hsession, hstands⟩ := h.stands j _ (List.getElem?_eq_getElem hlt)
      obtain rfl := Option.some.inj (hj'.symm.trans hsession)
      generalize c.statements[j] = stage at hstands
      cases hstands with
      | waiting | started | unchanged | returned => simp [Session.locksRecord, Effect.locks]
      | changed _ _ _ hwritten =>
          rw [hw] at hwritten
          cases hwritten

theorem releasing_none {db : Database} (clock : Clock) (h : holds store owned db = false) :
    releasing clock owned.owner owned.token (db.records (store.digest owned.key)) = none := by
  unfold holds row at h
  cases hrow : db.records (store.digest owned.key) with
  | none => rfl
  | some latest =>
      rw [hrow, Option.any_some, matching, Bool.and_eq_false_iff] at h
      refine if_neg ?_
      rcases h with h | h <;> simp [h]

theorem releasing_some {latest : Row} (clock : Clock) (h : matching owned latest = true) :
    releasing clock owned.owner owned.token (some latest) =
      some { latest with active := false, updatedAt := clock 0 } :=
  if_pos (by simpa [matching] using h)

/-- The row as last committed is no longer held, and the release writes nothing. -/
theorem write_idle {clock : Clock} {since : Nat} {unchanged : Answer}
    (hfree : s.sessions.any (Session.locksRecord (store.digest owned.key)) = false)
    (h : holds store owned s.db = false) :
    s.write i clock (statement store owned) since (store.digest owned.key) unchanged =
      s.idle i (statement store owned) since unchanged := by
  have heffect : effect s.db (clock, statement store owned) = .nothing := by
    simp only [statement, effect, releasing_none clock h]
  rw [Server.write, hfree, heffect]
  simp [statement, exec]

theorem write_matching {clock : Clock} {since : Nat} {unchanged : Answer} {latest : Row}
    (hfree : s.sessions.any (Session.locksRecord (store.digest owned.key)) = false)
    (hlatest : row store owned s.db = some latest) (h : matching owned latest = true) :
    s.write i clock (statement store owned) since (store.digest owned.key) unchanged =
      s.set i ⟨statement store owned, .evaluated since (some (clock, statement store owned))
        (.write (store.digest owned.key) none (some { latest with active := false, updatedAt := clock 0 }))
        (.released .ok)⟩ := by
  unfold row at hlatest
  have heffect : effect s.db (clock, statement store owned) = .write (store.digest owned.key) none
      (some { latest with active := false, updatedAt := clock 0 }) := by
    simp only [statement, effect, hlatest, releasing_some clock h]
  have hexec : (s.db.exec (clock, statement store owned)).2 = .released .ok := by
    simp only [matching, Bool.and_eq_true] at h
    simp [statement, exec, releaseSQL, hlatest, h, releaseOutcome]
  rw [Server.write, hfree, heffect, hexec]
  simp

/-- Both take the tables as last committed for the snapshot. -/
theorem Sim.start (h : Sim store owned c s) (hi : c.statements[i]? = some .waiting) :
    Sim store owned (c.set i (.started c.db)) (s.start i (statement store owned)) := by
  have hnow : Stands store owned c.written i (.started c.db) (.started s.log.length s.db) := by
    rw [h.db]
    exact .started s.log.length c.db
  exact h.set h.db hi hnow (fun _ _ _ => Iff.rfl)
    (fun latest hw => absurd hw (h.not_writer hi (by simp) latest))

theorem Sim.update (h : Sim store owned c s) {snapshot : Database} {since : Nat} (clock : Clock)
    (hi : c.statements[i]? = some (.started snapshot)) :
    Sim store owned (c.update store owned i clock snapshot)
      (s.update i 0 clock (statement store owned) since snapshot) := by
  -- The release is not the one that has written the row.
  have hother := h.not_writer hi (by simp)
  have hidle : Sim store owned (c.set i (.evaluated snapshot false))
      (s.idle i (statement store owned) since (.released (outcome store owned snapshot false))) :=
    h.set h.db hi (.unchanged since snapshot hother) (fun _ _ _ => Iff.rfl)
      (fun latest hw => absurd hw (hother latest))
  unfold Concurrent.Server.update
  split
  next hsnapshot =>
    obtain ⟨found, hfound, hmatch⟩ := (Option.any_eq_true ..).mp hsnapshot
    have hupdate : s.update i 0 clock (statement store owned) since snapshot =
        s.write i clock (statement store owned) since (store.digest owned.key)
          (.released (outcome store owned snapshot false)) := by
      unfold row at hfound
      simp only [statement, Server.update, hfound, releasing_some clock hmatch, Option.isNone_some,
        outcome, row, Bool.false_eq_true, if_false]
    rw [hupdate]
    split
    next hwritten =>
      rw [Server.write, if_pos (by rw [h.locked, hwritten]; rfl)]
      exact h
    next hfree =>
      have hunlocked := h.locked.trans (congrArg Option.isSome hfree)
      split
      next hnone =>
        rw [write_idle hunlocked (by rw [holds, h.db, hnone]; rfl)]
        exact hidle
      next latest hlatest =>
        split
        next hmatch =>
          rw [write_matching hunlocked (h.db ▸ hlatest) hmatch]
          refine h.set h.db hi (.changed since snapshot clock rfl) ?_ (fun _ _ => ⟨snapshot, rfl⟩)
          intro j other hj
          simp [hfree, Ne.symm hj]
        next hmatch =>
          rw [write_idle hunlocked (by rw [holds, h.db, hlatest]; exact Bool.not_eq_true _ ▸ hmatch)]
          exact hidle
  next hsnapshot =>
    have hnone := releasing_none clock (Bool.not_eq_true _ ▸ hsnapshot : holds store owned snapshot = false)
    have hupdate : s.update i 0 clock (statement store owned) since snapshot =
        s.idle i (statement store owned) since (.released (outcome store owned snapshot false)) := by
      simp only [statement, Server.update, hnone, Option.isNone_none, outcome, row, if_true]
    rw [hupdate]
    exact hidle

/-- The row of a release that has changed one becomes visible in both. -/
theorem Sim.commit (h : Sim store owned c s) {snapshot : Database} {changed : Bool} {stage' : Stage}
    (hi : c.statements[i]? = some (.evaluated snapshot changed))
    (hi' : s.sessions[i]? = some ⟨statement store owned, stage'⟩)
    (hstands : Stands store owned c.written i (.evaluated snapshot changed) stage') :
    Sim store owned
      ((c.publish store owned i).set i (.returned (outcome store owned snapshot changed)))
      (s.step (.commit i)) := by
  cases hstands with
  | unchanged since _ hother =>
      have hpublish : c.publish store owned i = c := by
        unfold Concurrent.Server.publish
        split
        next writer latest hw => exact if_neg (fun (he : writer = i) => hother latest (he ▸ hw))
        next => rfl
      simp only [Server.step, hi']
      rw [hpublish]
      exact h.set h.db hi (.returned since _) (fun _ _ _ => Iff.rfl)
        (fun latest hw => absurd hw (hother latest))
  | @changed since _ clock latest hwritten =>
      have hpublish : c.publish store owned i =
          { c with db := c.db.setRecord (store.digest owned.key) latest, written := none } := by
        simp only [Concurrent.Server.publish, hwritten, if_true]
      simp only [Server.step, hi']
      rw [hpublish]
      refine h.set (by rw [← h.db]; rfl) hi (.returned since .ok) ?_ (fun latest hw => by cases hw)
      intro j other hj
      simp [hwritten, Ne.symm hj]

theorem Sim.none (h : Sim store owned c s) (hi : c.statements[i]? = none) : s.sessions[i]? = none := by
  rw [List.getElem?_eq_none_iff] at hi ⊢
  exact h.length ▸ hi

theorem Sim.step (h : Sim store owned c s) (e : Concurrent.Event) :
    Sim store owned (c.step store owned e) (s.step (event e)) := by
  cases e with
  | start i =>
      cases hi : c.statements[i]? with
      | none => simpa only [Concurrent.Server.step, event, Server.step, hi, h.none hi] using h
      | some stage =>
          obtain ⟨stage', hi', hstands⟩ := h.stands i stage hi
          cases hstands with
          | waiting =>
              simp only [Concurrent.Server.step, event, Server.step, hi, hi']
              exact h.start hi
          | started | unchanged | changed | returned =>
              simpa only [Concurrent.Server.step, event, Server.step, hi, hi'] using h
  | update i clock =>
      cases hi : c.statements[i]? with
      | none => simpa only [Concurrent.Server.step, event, Server.step, hi, h.none hi] using h
      | some stage =>
          obtain ⟨stage', hi', hstands⟩ := h.stands i stage hi
          cases hstands with
          | started since snapshot =>
              simp only [Concurrent.Server.step, event, Server.step, hi, hi']
              exact h.update clock hi
          | waiting | unchanged | changed | returned =>
              simpa only [Concurrent.Server.step, event, Server.step, hi, hi'] using h
  | commit i =>
      cases hi : c.statements[i]? with
      | none => simpa only [Concurrent.Server.step, event, Server.step, hi, h.none hi] using h
      | some stage =>
          obtain ⟨stage', hi', hstands⟩ := h.stands i stage hi
          cases stage with
          | evaluated snapshot changed =>
              simp only [Concurrent.Server.step, event, hi]
              exact h.commit hi hi' hstands
          | waiting | started | returned =>
              cases hstands
              simpa only [Concurrent.Server.step, event, Server.step, hi, hi'] using h

end Steps

section Runs

variable {store : Store} {owned : Record}

theorem sim_opening (store : Store) (owned : Record) (db : Database) (n : Nat) :
    Sim store owned (opening db n) (.initial db (List.replicate n (statement store owned))) where
  db := rfl
  length := by simp [opening, Server.initial]
  stands := by
    intro i stage hi
    have hlt := (List.getElem?_eq_some_iff.mp hi).1
    have hstage : stage = .waiting := waiting_of_mem (List.mem_of_getElem? hi)
    subst hstage
    refine ⟨.waiting, ?_, .waiting⟩
    simp only [opening, List.length_replicate] at hlt
    simp [Server.initial, hlt]
  writer := by
    intro i latest hw
    cases hw

theorem Sim.run {c : Concurrent.Server} {s : Server} (h : Sim store owned c s)
    (events : List Concurrent.Event) :
    Sim store owned (events.foldl (Concurrent.Server.step store owned) c)
      ((events.map event).foldl Server.step s) := by
  induction events generalizing c s with
  | nil => exact h
  | cons e events ih => exact ih (h.step e)

theorem Sim.returned_iff {c : Concurrent.Server} {s : Server} (h : Sim store owned c s) (i : Nat)
    (answer : ReleaseOutcome) :
    c.statements[i]? = some (.returned answer) ↔
      ∃ since, s.sessions[i]? = some ⟨statement store owned, .returned since (some (.released answer))⟩ := by
  constructor
  · intro hi
    obtain ⟨stage', hi', hstands⟩ := h.stands i _ hi
    cases hstands with
    | returned since => exact ⟨since, hi'⟩
  · rintro ⟨since, hi'⟩
    cases hi : c.statements[i]? with
    | none =>
        rw [h.none hi] at hi'
        cases hi'
    | some stage =>
        obtain ⟨stage', hsession, hstands⟩ := h.stands i stage hi
        obtain ⟨-, rfl⟩ := Session.mk.inj (Option.some.inj (hi'.symm.trans hsession))
        cases hstands with
        | returned => rfl

/-- In every interleaving both servers commit the same rows, and every release
returns the same from both. -/
theorem releases_agree (db : Database) (n : Nat) (events : List Concurrent.Event) :
    let c := events.foldl (Concurrent.Server.step store owned) (opening db n)
    let s := (events.map event).foldl Server.step
      (.initial db (List.replicate n (statement store owned)))
    s.db = c.db ∧ ∀ (i : Nat) answer, c.statements[i]? = some (.returned answer) ↔
      ∃ since, s.sessions[i]? = some ⟨statement store owned, .returned since (some (.released answer))⟩ := by
  have h := (sim_opening store owned db n).run events
  exact ⟨h.db, h.returned_iff⟩

end Runs

end GoLease.Postgres.Isolation.Releases
