import GoLease.Pool
import GoLease.Postgres.Outcomes

namespace GoLease.Postgres.Concurrent

open Traces Pool Database

/-- How far one execution of releaseSQL has come. The plain SELECTs read the
snapshot; the update has been evaluated with the row that it found. -/
inductive Stage
  | waiting
  | started (snapshot : Database)
  | evaluated (snapshot : Database) (changed : Bool)
  | returned (outcome : ReleaseOutcome)

/-- The tables as last committed, the new version of the row that one statement
has written and keeps locked until it commits, and the releases of one record. -/
structure Server where
  db : Database
  written : Option (Nat × Row)
  statements : List Stage

inductive Event
  | start (statement : Nat)
  | update (statement : Nat) (clock : Clock)
  | commit (statement : Nat)

section Semantics

variable (store : Store) (owned : Record)

def row (db : Database) : Option Row := db.records (store.digest owned.key)

/-- The WHERE of the update. -/
def matching (row : Row) : Bool := row.ours owned.owner owned.token && row.active

def holds (db : Database) : Bool := (row store owned db).any (matching owned)

def Server.set (s : Server) (i : Nat) (stage : Stage) : Server :=
  { s with statements := s.statements.set i stage }

/-- Under READ COMMITTED an update looks for its rows in the snapshot, waits for
the lock of a row it has found there, and evaluates its WHERE again on the row as
last committed. -/
def Server.update (s : Server) (i : Nat) (clock : Clock) (snapshot : Database) : Server :=
  if holds store owned snapshot then
    match s.written with
    | some _ => s
    | none =>
      match row store owned s.db with
      | none => s.set i (.evaluated snapshot false)
      | some latest =>
        if matching owned latest then
          { s with written := some (i, { latest with active := false, updatedAt := clock 0 }) }.set i
            (.evaluated snapshot true)
        else s.set i (.evaluated snapshot false)
  else s.set i (.evaluated snapshot false)

/-- The row that a statement has written becomes visible. -/
def Server.publish (s : Server) (i : Nat) : Server :=
  match s.written with
  | some (writer, latest) =>
    if writer = i then { s with db := s.db.setRecord (store.digest owned.key) latest, written := none } else s
  | none => s

def outcome (snapshot : Database) (changed : Bool) : ReleaseOutcome :=
  releaseOutcome owned.owner owned.token changed (row store owned snapshot)

def Server.step (s : Server) : Event → Server
  | .start i =>
    match s.statements[i]? with
    | some .waiting => s.set i (.started s.db)
    | _ => s
  | .update i clock =>
    match s.statements[i]? with
    | some (.started snapshot) => s.update store owned i clock snapshot
    | _ => s
  | .commit i =>
    match s.statements[i]? with
    | some (.evaluated snapshot changed) =>
      (s.publish store owned i).set i (.returned (outcome store owned snapshot changed))
    | _ => s

/-- What Release makes of the outcome. -/
def result : ReleaseOutcome → Option Error
  | .ok | .idempotent => none
  | .stale => some (wrap .errStaleOwner "postgres release")

end Semantics

/-- Everything one event can do. -/
inductive Step (store : Store) (owned : Record) (s : Server) : Event → Server → Prop
  | kept (event : Event) : Step store owned s event s
  | started {i : Nat} (h : s.statements[i]? = some .waiting) :
      Step store owned s (.start i) (s.set i (.started s.db))
  | skipped {i : Nat} {clock : Clock} {snapshot : Database}
      (h : s.statements[i]? = some (.started snapshot))
      (hrow : holds store owned snapshot = false ∨ holds store owned s.db = false) :
      Step store owned s (.update i clock) (s.set i (.evaluated snapshot false))
  | wrote {i : Nat} {clock : Clock} {snapshot : Database} {latest : Row}
      (h : s.statements[i]? = some (.started snapshot)) (hsnapshot : holds store owned snapshot = true)
      (hfree : s.written = none) (hlatest : row store owned s.db = some latest)
      (hmatch : matching owned latest = true) :
      Step store owned s (.update i clock)
        ({ s with written := some (i, { latest with active := false, updatedAt := clock 0 }) }.set i
          (.evaluated snapshot true))
  | committed {i : Nat} {snapshot : Database} {changed : Bool}
      (h : s.statements[i]? = some (.evaluated snapshot changed)) :
      Step store owned s (.commit i)
        ((s.publish store owned i).set i (.returned (outcome store owned snapshot changed)))

section Steps

variable {store : Store} {owned : Record} {s : Server}

theorem update_step {i : Nat} (clock : Clock) {snapshot : Database}
    (h : s.statements[i]? = some (.started snapshot)) :
    Step store owned s (.update i clock) (s.update store owned i clock snapshot) := by
  unfold Server.update
  split
  next hsnapshot =>
    split
    next => exact .kept _
    next hfree =>
      split
      next hnone => exact .skipped h (.inr (by rw [holds, hnone]; rfl))
      next latest hlatest =>
        split
        next hmatch => exact .wrote h hsnapshot hfree hlatest hmatch
        next hmatch =>
          refine .skipped h (.inr ?_)
          rw [holds, hlatest]
          exact Bool.not_eq_true _ ▸ hmatch
  next hsnapshot => exact .skipped h (.inl (Bool.not_eq_true _ ▸ hsnapshot))

theorem step_step (store : Store) (owned : Record) (s : Server) (event : Event) :
    Step store owned s event (s.step store owned event) := by
  cases event with
  | start i =>
      simp only [Server.step]
      split
      next h => exact .started h
      next => exact .kept _
  | update i clock =>
      simp only [Server.step]
      split
      next h => exact update_step clock h
      next => exact .kept _
  | commit i =>
      simp only [Server.step]
      split
      next h => exact .committed h
      next => exact .kept _

theorem statements_publish (i : Nat) : (s.publish store owned i).statements = s.statements := by
  unfold Server.publish
  split
  next => split <;> rfl
  next => rfl

theorem publish_none (h : s.written = none) (i : Nat) : s.publish store owned i = s := by
  rw [Server.publish, h]

theorem publish_self {i : Nat} {latest : Row} (h : s.written = some (i, latest)) :
    s.publish store owned i =
      { s with db := s.db.setRecord (store.digest owned.key) latest, written := none } := by
  rw [Server.publish, h]
  exact if_pos rfl

end Steps

section Alone

variable {store : Store} {owned : Record} {s : Server} {clock : Clock} {db : Database}

theorem releaseSQL_matching {latest : Row} (hr : row store owned db = some latest)
    (hmatch : matching owned latest = true) :
    db.releaseSQL clock (store.digest owned.key) owned.owner owned.token =
      (db.setRecord (store.digest owned.key) { latest with active := false, updatedAt := clock 0 },
        outcome store owned db true) := by
  rw [releaseSQL, show db.records (store.digest owned.key) = some latest from hr]
  exact if_pos ((Bool.and_eq_true ..).mp hmatch)

theorem releaseSQL_of_not_holds (h : holds store owned db = false) :
    db.releaseSQL clock (store.digest owned.key) owned.owner owned.token =
      (db, outcome store owned db false) := by
  unfold outcome releaseSQL
  unfold holds at h
  change (match row store owned db with | none => _ | some row => _) = _
  cases hr : row store owned db with
  | none => rfl
  | some latest =>
      rw [hr] at h
      refine if_neg fun hmatch => ?_
      have hmatch : matching owned latest = true := (Bool.and_eq_true ..).mpr hmatch
      cases hmatch.symm.trans h

theorem step_start {i : Nat} (h : s.statements[i]? = some .waiting) :
    s.step store owned (.start i) = s.set i (.started s.db) := by
  simp only [Server.step, h]

theorem step_update {i : Nat} {snapshot : Database} (h : s.statements[i]? = some (.started snapshot)) :
    s.step store owned (.update i clock) = s.update store owned i clock snapshot := by
  simp only [Server.step, h]

theorem step_commit {i : Nat} {snapshot : Database} {changed : Bool}
    (h : s.statements[i]? = some (.evaluated snapshot changed)) :
    s.step store owned (.commit i) =
      (s.publish store owned i).set i (.returned (outcome store owned snapshot changed)) := by
  simp only [Server.step, h]

theorem update_skipped {i : Nat} {snapshot : Database} (h : holds store owned snapshot = false) :
    s.update store owned i clock snapshot = s.set i (.evaluated snapshot false) := by
  rw [Server.update, h]
  rfl

theorem update_matching {i : Nat} {snapshot : Database} {latest : Row}
    (h : holds store owned snapshot = true) (hfree : s.written = none)
    (hlatest : row store owned s.db = some latest) (hmatch : matching owned latest = true) :
    s.update store owned i clock snapshot =
      { s with written := some (i, { latest with active := false, updatedAt := clock 0 }) }.set i
        (.evaluated snapshot true) := by
  rw [Server.update, if_pos h, hfree, hlatest]
  exact if_pos hmatch

/-- A release that runs without another one is the atomic statement. -/
theorem alone (store : Store) (owned : Record) {i : Nat} (hwaiting : s.statements[i]? = some .waiting)
    (hfree : s.written = none) (clock : Clock) :
    let t := [Event.start i, .update i clock, .commit i].foldl (Server.step store owned) s
    t.db = (s.db.releaseSQL clock (store.digest owned.key) owned.owner owned.token).1 ∧
      t.written = none ∧
      t.statements[i]? = some (.returned
        (s.db.releaseSQL clock (store.digest owned.key) owned.owner owned.token).2) := by
  intro t
  have hstarted := getElem?_set_of_some hwaiting (.started s.db)
  have hevaluated (changed : Bool) := getElem?_set_of_some hstarted (.evaluated s.db changed)
  have ht : t = ((s.set i (.started s.db)).update store owned i clock s.db).step store owned (.commit i) := by
    simp only [t, List.foldl_cons, List.foldl_nil]
    rw [step_start hwaiting, step_update hstarted]
  rw [ht]
  cases hholds : holds store owned s.db with
  | false =>
      have hnone : ((s.set i (.started s.db)).set i (.evaluated s.db false)).written = none := hfree
      rw [update_skipped hholds, step_commit (hevaluated false), publish_none hnone,
        releaseSQL_of_not_holds hholds]
      exact ⟨rfl, hfree, getElem?_set_of_some (hevaluated false) _⟩
  | true =>
      obtain ⟨latest, hlatest, hmatch⟩ := (Option.any_eq_true ..).mp hholds
      have hnone : (s.set i (.started s.db)).written = none := hfree
      rw [update_matching hholds hnone hlatest hmatch, step_commit (hevaluated true), publish_self rfl,
        releaseSQL_matching hlatest hmatch]
      exact ⟨rfl, rfl, getElem?_set_of_some (hevaluated true) _⟩

theorem release_eq (htext : store.isText owned.owner = true)
    (hvalid : Postgres.validate none owned.key owned.owner owned.token millisecond = none) :
    store.release clock db none owned =
      ((db.releaseSQL clock (store.digest owned.key) owned.owner owned.token).1,
        result (db.releaseSQL clock (store.digest owned.key) owned.owner owned.token).2) := by
  simp only [Store.release, hvalid, Store.query, htext, if_true]
  cases (db.releaseSQL clock (store.digest owned.key) owned.owner owned.token).2 with
  | ok | idempotent | stale => rfl

theorem release_alone (htext : store.isText owned.owner = true)
    (hvalid : Postgres.validate none owned.key owned.owner owned.token millisecond = none) {i : Nat}
    (hwaiting : s.statements[i]? = some .waiting) (hfree : s.written = none) (clock : Clock) :
    let t := [Event.start i, .update i clock, .commit i].foldl (Server.step store owned) s
    t.db = (store.release clock s.db none owned).1 ∧ t.written = none ∧
      ∃ outcome, t.statements[i]? = some (.returned outcome) ∧
        result outcome = (store.release clock s.db none owned).2 := by
  obtain ⟨hdb, hnone, hreturned⟩ := alone store owned hwaiting hfree clock
  rw [release_eq htext hvalid]
  exact ⟨hdb, hnone, _, hreturned, rfl⟩

end Alone

section Invariant

variable (store : Store) (owned : Record)

/-- The record is the last one of its key and has been released. -/
def released (db : Database) : Bool :=
  (row store owned db).any (fun row => row.ours owned.owner owned.token && !row.active)

/-- Before the release is committed, every statement that has started has seen
the record active, and only the writer of the row is past its update. -/
def OpenStage (s : Server) (i : Nat) : Stage → Prop
  | .waiting => True
  | .started snapshot => holds store owned snapshot = true
  | .evaluated snapshot changed =>
    holds store owned snapshot = true ∧ changed = true ∧ ∃ latest, s.written = some (i, latest)
  | .returned _ => False

structure Open (s : Server) : Prop where
  active : holds store owned s.db = true
  stages : ∀ i stage, s.statements[i]? = some stage → OpenStage store owned s i stage
  written : ∀ i latest, s.written = some (i, latest) →
    latest.ours owned.owner owned.token = true ∧ latest.active = false

/-- Afterwards no update finds the record active. -/
def ClosedStage : Stage → Prop
  | .waiting => True
  | .started snapshot => holds store owned snapshot = true ∨ released store owned snapshot = true
  | .evaluated snapshot changed =>
    changed = false ∧ (holds store owned snapshot = true ∨ released store owned snapshot = true)
  | .returned outcome => outcome ≠ .ok

structure Closed (winner : Nat) (s : Server) : Prop where
  inactive : released store owned s.db = true
  free : s.written = none
  won : s.statements[winner]? = some (.returned .ok)
  others : ∀ i stage, i ≠ winner → s.statements[i]? = some stage → ClosedStage store owned stage

def Inv (s : Server) : Prop := Open store owned s ∨ ∃ winner, Closed store owned winner s

variable {store owned} {s s' : Server} {event : Event}

theorem not_holds_of_released {db : Database} (h : released store owned db = true) :
    holds store owned db = false := by
  unfold released at h
  unfold holds matching
  cases hr : row store owned db with
  | none => rfl
  | some latest =>
      rw [hr] at h
      simp only [Option.any_some, Bool.and_eq_true, Bool.not_eq_true'] at h
      simp [h.2]

theorem outcome_stale {snapshot : Database} (h : holds store owned snapshot = true) :
    outcome store owned snapshot false = .stale := by
  unfold holds matching at h
  unfold outcome releaseOutcome
  cases hr : row store owned snapshot with
  | none =>
      rw [hr] at h
      cases h
  | some latest =>
      rw [hr] at h
      simp only [Option.any_some, Bool.and_eq_true] at h
      simp [h.2]

theorem outcome_idempotent {snapshot : Database} (h : released store owned snapshot = true) :
    outcome store owned snapshot false = .idempotent := by
  unfold released at h
  unfold outcome releaseOutcome
  cases hr : row store owned snapshot with
  | none => rfl
  | some latest =>
      rw [hr] at h
      simp only [Option.any_some] at h
      simp [h]

theorem Open.start (h : Open store owned s) (i : Nat) : Open store owned (s.set i (.started s.db)) := by
  refine ⟨h.active, ?_, h.written⟩
  intro j stage hj
  rcases getElem?_set_cases hj with ⟨rfl, rfl⟩ | ⟨_, hj⟩
  · exact h.active
  · exact h.stages j stage hj

theorem Open.write (h : Open store owned s) {snapshot : Database} {latest : Row} (i : Nat) (updatedAt : Int)
    (hsnapshot : holds store owned snapshot = true) (hfree : s.written = none)
    (hmatch : matching owned latest = true) :
    Open store owned ({ s with written := some (i, { latest with active := false, updatedAt }) }.set i
      (.evaluated snapshot true)) := by
  refine ⟨h.active, ?_, ?_⟩
  · intro j stage hj
    rcases getElem?_set_cases hj with ⟨rfl, rfl⟩ | ⟨_, hj⟩
    · exact ⟨hsnapshot, rfl, _, rfl⟩
    · have hstage := h.stages j stage hj
      cases stage with
      | waiting | started | returned => exact hstage
      | evaluated =>
          obtain ⟨-, -, found, hwritten⟩ := hstage
          rw [hfree] at hwritten
          cases hwritten
  · intro j found hwritten
    cases hwritten
    exact ⟨((Bool.and_eq_true ..).mp hmatch).1, rfl⟩

/-- The first commit closes the record: its statement is the only one that
returns ok. -/
theorem Open.commit (h : Open store owned s) {i : Nat} {snapshot : Database} {changed : Bool}
    (hi : s.statements[i]? = some (.evaluated snapshot changed)) :
    Closed store owned i
      ((s.publish store owned i).set i (.returned (outcome store owned snapshot changed))) := by
  obtain ⟨-, rfl, latest, hwritten⟩ := h.stages i _ hi
  obtain ⟨hours, hinactive⟩ := h.written i latest hwritten
  rw [publish_self hwritten]
  refine ⟨?_, rfl, getElem?_set_of_some hi _, ?_⟩
  · change ((s.db.setRecord (store.digest owned.key) latest).records (store.digest owned.key)).any _ = true
    rw [setRecord_self]
    simp [hours, hinactive]
  · intro j stage hne hj
    rcases getElem?_set_cases hj with ⟨rfl, -⟩ | ⟨_, hj⟩
    · exact absurd rfl hne
    · have hstage := h.stages j stage hj
      cases stage with
      | waiting => trivial
      | started => exact .inl hstage
      | evaluated =>
          obtain ⟨-, -, found, hother⟩ := hstage
          rw [hwritten] at hother
          exact absurd (Prod.mk.inj (Option.some.inj hother)).1.symm hne
      | returned => exact hstage.elim

theorem Open.step (h : Open store owned s) (hs : Step store owned s event s') : Inv store owned s' := by
  cases hs with
  | kept => exact .inl h
  | started => exact .inl (h.start _)
  | skipped hi hrow =>
      have hsnapshot : holds store owned _ = true := h.stages _ _ hi
      rcases hrow with hrow | hrow
      · rw [hrow] at hsnapshot
        cases hsnapshot
      · rw [h.active] at hrow
        cases hrow
  | wrote hi hsnapshot hfree hlatest hmatch => exact .inl (h.write _ _ hsnapshot hfree hmatch)
  | committed hi => exact .inr ⟨_, h.commit hi⟩

theorem Closed.set {winner i : Nat} {stage old : Stage} (h : Closed store owned winner s)
    (hi : s.statements[i]? = some old) (hold : old ≠ .returned .ok) (hstage : ClosedStage store owned stage) :
    Closed store owned winner (s.set i stage) := by
  have hne : i ≠ winner := by
    rintro rfl
    exact hold (Option.some.inj (hi.symm.trans h.won))
  refine ⟨h.inactive, h.free, (List.getElem?_set_ne hne).trans h.won, ?_⟩
  intro j found hj hfound
  rcases getElem?_set_cases hfound with ⟨rfl, rfl⟩ | ⟨_, hfound⟩
  · exact hstage
  · exact h.others j found hj hfound

theorem Closed.stage {winner i : Nat} {stage : Stage} (h : Closed store owned winner s)
    (hi : s.statements[i]? = some stage) (hne : stage ≠ .returned .ok) : ClosedStage store owned stage := by
  refine h.others i stage ?_ hi
  rintro rfl
  exact hne (Option.some.inj (hi.symm.trans h.won))

theorem Closed.step {winner : Nat} (h : Closed store owned winner s) (hs : Step store owned s event s') :
    Closed store owned winner s' := by
  cases hs with
  | kept => exact h
  | started hi => exact h.set hi nofun (.inr h.inactive)
  | skipped hi => exact h.set hi nofun ⟨rfl, h.stage hi nofun⟩
  | wrote hi hsnapshot hfree hlatest hmatch =>
      have hholds : holds store owned s.db = true := by
        rw [holds, hlatest]
        exact hmatch
      rw [not_holds_of_released h.inactive] at hholds
      cases hholds
  | committed hi =>
      rw [publish_none h.free]
      obtain ⟨rfl, hsnapshot⟩ := h.stage hi nofun
      refine h.set hi nofun ?_
      rcases hsnapshot with hsnapshot | hsnapshot
      · rw [outcome_stale hsnapshot]
        exact nofun
      · rw [outcome_idempotent hsnapshot]
        exact nofun

theorem Inv.step (h : Inv store owned s) (event : Event) : Inv store owned (s.step store owned event) := by
  have hs := step_step store owned s event
  rcases h with h | ⟨winner, h⟩
  · exact h.step hs
  · exact .inr ⟨winner, h.step hs⟩

end Invariant

section Exposure

variable (store : Store) (owned : Record)

/-- The statement's snapshot shows the record active. -/
def exposed : Stage → Bool
  | .waiting => false
  | .started snapshot | .evaluated snapshot _ => holds store owned snapshot
  | .returned outcome => outcome != .idempotent

def Exposed (s : Server) (i : Nat) : Prop :=
  ∃ stage, s.statements[i]? = some stage ∧ exposed store owned stage = true

/-- A statement that takes its snapshot while the record is active is the first
one to start. -/
def Orderly (s : Server) : Event → Prop
  | .start i => s.statements[i]? = some .waiting → holds store owned s.db = true →
    ∀ stage ∈ s.statements, stage = .waiting
  | .update _ _ | .commit _ => True

variable {store owned} {s s' : Server} {event : Event} {i : Nat}

theorem exposed_outcome {snapshot : Database} (h : holds store owned snapshot = true) (changed : Bool) :
    exposed store owned (.returned (outcome store owned snapshot changed)) = true := by
  cases changed with
  | true => rfl
  | false =>
      rw [outcome_stale h]
      rfl

theorem exposed_set {old : Stage} (stage : Stage) (hi : s.statements[i]? = some old)
    (hstage : exposed store owned old = true → exposed store owned stage = true) {j : Nat}
    (h : Exposed store owned s j) : Exposed store owned (s.set i stage) j := by
  obtain ⟨found, hj, hfound⟩ := h
  by_cases hij : i = j
  · subst hij
    cases hi.symm.trans hj
    exact ⟨stage, getElem?_set_of_some hi stage, hstage hfound⟩
  · exact ⟨found, (List.getElem?_set_ne hij).trans hj, hfound⟩

/-- What a statement has seen it cannot forget. -/
theorem Exposed.step {j : Nat} (h : Exposed store owned s j) (hs : Step store owned s event s') :
    Exposed store owned s' j := by
  cases hs with
  | kept => exact h
  | started hi => exact exposed_set _ hi nofun h
  | @skipped i clock snapshot hi => exact exposed_set (.evaluated snapshot false) hi id h
  | @wrote i clock snapshot latest hi =>
      exact exposed_set (.evaluated snapshot true) hi id h
  | @committed i snapshot changed hi =>
      have hset : Exposed store owned (s.set i (.returned (outcome store owned snapshot changed))) j :=
        exposed_set _ hi (fun hsnapshot => exposed_outcome hsnapshot changed) h
      unfold Exposed Server.set at hset ⊢
      rw [statements_publish]
      exact hset

theorem exposed_of_set {stage : Stage} {j : Nat} (h : Exposed store owned (s.set i stage) j) :
    Exposed store owned s j ∨ i = j ∧ exposed store owned stage = true := by
  obtain ⟨found, hj, hfound⟩ := h
  rcases getElem?_set_cases hj with ⟨rfl, rfl⟩ | ⟨-, hj⟩
  · exact .inr ⟨rfl, hfound⟩
  · exact .inl ⟨found, hj, hfound⟩

theorem Inv.exposed_evaluated (h : Inv store owned s) {snapshot : Database} {changed : Bool}
    (hi : s.statements[i]? = some (.evaluated snapshot changed))
    (hx : exposed store owned (.returned (outcome store owned snapshot changed)) = true) :
    holds store owned snapshot = true := by
  rcases h with h | ⟨winner, h⟩
  · exact (h.stages i _ hi).1
  · obtain ⟨rfl, hsnapshot | hsnapshot⟩ := h.stage hi nofun
    · exact hsnapshot
    · rw [outcome_idempotent hsnapshot] at hx
      cases hx

/-- Only the start of a statement can expose it. -/
theorem Exposed.before {j : Nat} (hinv : Inv store owned s) (hs : Step store owned s event s')
    (h : Exposed store owned s' j) :
    Exposed store owned s j ∨ event = .start j ∧ s.statements[j]? = some .waiting ∧
      holds store owned s.db = true := by
  cases hs with
  | kept => exact .inl h
  | started hi =>
      rcases exposed_of_set h with h | ⟨rfl, hx⟩
      · exact .inl h
      · exact .inr ⟨rfl, hi, hx⟩
  | skipped hi =>
      rcases exposed_of_set h with h | ⟨rfl, hx⟩
      · exact .inl h
      · exact .inl ⟨_, hi, hx⟩
  | @wrote i clock snapshot latest hi =>
      have h : Exposed store owned (s.set i (.evaluated snapshot true)) j := h
      rcases exposed_of_set h with h | ⟨rfl, hx⟩
      · exact .inl h
      · exact .inl ⟨_, hi, hx⟩
  | @committed i snapshot changed hi =>
      have h : Exposed store owned (s.set i (.returned (outcome store owned snapshot changed))) j := by
        unfold Exposed Server.set at h ⊢
        rw [statements_publish] at h
        exact h
      rcases exposed_of_set h with h | ⟨rfl, hx⟩
      · exact .inl h
      · exact .inl ⟨_, hi, hinv.exposed_evaluated hi hx⟩

/-- At most one statement has seen the record active. -/
def Single (store : Store) (owned : Record) (s : Server) : Prop :=
  ∀ i j, Exposed store owned s i → Exposed store owned s j → i = j

theorem Single.step (h : Single store owned s) (hinv : Inv store owned s)
    (hs : Step store owned s event s') (horderly : Orderly store owned s event) :
    Single store owned s' := by
  have hfirst {i j : Nat} (hj : Exposed store owned s j)
      (hi : event = .start i ∧ s.statements[i]? = some .waiting ∧ holds store owned s.db = true) : False := by
    obtain ⟨rfl, hwaiting, hholds⟩ := hi
    obtain ⟨stage, hstage, hx⟩ := hj
    rw [horderly hwaiting hholds stage (List.mem_of_getElem? hstage)] at hx
    cases hx
  intro i j hi hj
  rcases hi.before hinv hs with hi | hi
  · rcases hj.before hinv hs with hj | hj
    · exact h i j hi hj
    · exact (hfirst hi hj).elim
  · rcases hj.before hinv hs with hj | hj
    · exact (hfirst hj hi).elim
    · exact Event.start.inj (hi.1.symm.trans hj.1)

theorem Exposed.run {j : Nat} (h : Exposed store owned s j) (events : List Event) :
    Exposed store owned (events.foldl (Server.step store owned) s) j :=
  invariant_rule (P := fun s => Exposed store owned s j) h
    (fun s event h => h.step (step_step store owned s event)) events

theorem Inv.open_of_holds (h : Inv store owned s) (hholds : holds store owned s.db = true) :
    Open store owned s := by
  rcases h with h | ⟨winner, h⟩
  · exact h
  · rw [not_holds_of_released h.inactive] at hholds
    cases hholds

/-- While the record is active, whoever has started has seen it. -/
theorem Open.exposed (h : Open store owned s) {stage : Stage} (hi : s.statements[i]? = some stage)
    (hstage : stage ≠ .waiting) : Exposed store owned s i := by
  have hopen := h.stages i stage hi
  cases stage with
  | waiting => exact absurd rfl hstage
  | started snapshot => exact ⟨_, hi, hopen⟩
  | evaluated snapshot changed => exact ⟨_, hi, hopen.1⟩
  | returned outcome => exact hopen.elim

/-- A start out of order exposes a second statement. -/
theorem exposed_pair (hinv : Inv store owned s) (h : ¬Orderly store owned s event) :
    ∃ i j, i ≠ j ∧ Exposed store owned (s.step store owned event) i ∧
      Exposed store owned (s.step store owned event) j := by
  cases event with
  | start i =>
      simp only [Orderly, not_forall] at h
      obtain ⟨hwaiting, hholds, stage, hmem, hstage⟩ := h
      obtain ⟨j, hj⟩ := List.mem_iff_getElem?.mp hmem
      have hx : Exposed store owned s j := (hinv.open_of_holds hholds).exposed hj hstage
      refine ⟨i, j, ?_, ?_, hx.step (step_step store owned s _)⟩
      · rintro rfl
        exact hstage (Option.some.inj (hj.symm.trans hwaiting))
      · simp only [Server.step, hwaiting]
        exact ⟨_, getElem?_set_of_some hwaiting _, hholds⟩
  | update i clock => exact absurd trivial h
  | commit i => exact absurd trivial h

/-- No statement can return ok beside another one. -/
theorem Inv.ok_unique (h : Inv store owned s) {j : Nat} (hi : s.statements[i]? = some (.returned .ok))
    (hj : s.statements[j]? = some (.returned .ok)) : i = j := by
  rcases h with h | ⟨winner, h⟩
  · exact (h.stages i _ hi).elim
  · have hwinner {k : Nat} (hk : s.statements[k]? = some (.returned .ok)) : k = winner := by
      apply by_contra
      intro hne
      exact h.others k _ hne hk rfl
    exact (hwinner hi).trans (hwinner hj).symm

/-- The releases of one record that are about to be sent to a server. -/
def opening (db : Database) (n : Nat) : Server := ⟨db, none, List.replicate n .waiting⟩

theorem waiting_of_mem {db : Database} {n : Nat} {stage : Stage} (h : stage ∈ (opening db n).statements) :
    stage = .waiting := List.eq_of_mem_replicate h

theorem open_opening {db : Database} (h : holds store owned db = true) (n : Nat) :
    Open store owned (opening db n) := by
  refine ⟨h, ?_, nofun⟩
  intro i stage hi
  rw [waiting_of_mem (List.mem_of_getElem? hi)]
  trivial

theorem single_opening (db : Database) (n : Nat) : Single store owned (opening db n) := by
  rintro i j ⟨stage, hi, hx⟩ -
  rw [waiting_of_mem (List.mem_of_getElem? hi)] at hx
  cases hx

/-- Two statements that have both seen the record active cannot both succeed. -/
theorem not_both {j : Nat} (hinv : Inv store owned s) (hne : i ≠ j) (hi : Exposed store owned s i)
    (hj : Exposed store owned s j) (hdone : ∀ stage ∈ s.statements, ∃ outcome, stage = .returned outcome) :
    .returned .stale ∈ s.statements := by
  have hcases {k : Nat} (hk : Exposed store owned s k) :
      s.statements[k]? = some (.returned .ok) ∨ .returned .stale ∈ s.statements := by
    obtain ⟨stage, hstage, hx⟩ := hk
    obtain ⟨outcome, rfl⟩ := hdone stage (List.mem_of_getElem? hstage)
    cases outcome with
    | ok => exact .inl hstage
    | idempotent => cases hx
    | stale => exact .inr (List.mem_of_getElem? hstage)
  rcases hcases hi with hi | hi
  · rcases hcases hj with hj | hj
    · exact absurd (hinv.ok_unique hi hj) hne
    · exact hj
  · exact hi

/-- The releases of an active record all succeed if and only if no two of them
take their snapshots before the release is committed. -/
theorem concurrent_release {db : Database} (hactive : holds store owned db = true) {n : Nat}
    {events : List Event}
    (hdone : ∀ stage ∈ (events.foldl (Server.step store owned) (opening db n)).statements,
      ∃ outcome, stage = .returned outcome) :
    (∀ outcome, .returned outcome ∈ (events.foldl (Server.step store owned) (opening db n)).statements →
        result outcome = none) ↔
      Along (Server.step store owned) (Orderly store owned) (opening db n) events := by
  have hopening : Inv store owned (opening db n) := .inl (open_opening hactive n)
  have hinv (events : List Event) :
      Inv store owned (events.foldl (Server.step store owned) (opening db n)) :=
    invariant_rule hopening (fun s event h => h.step event) events
  constructor
  · intro hnil
    apply by_contra
    intro hnot
    obtain ⟨before, event, after, rfl, hevent⟩ := exists_of_not_along hnot
    obtain ⟨i, j, hne, hi, hj⟩ := exposed_pair (hinv before) hevent
    have hrun : (before ++ event :: after).foldl (Server.step store owned) (opening db n) =
        after.foldl (Server.step store owned)
          ((before.foldl (Server.step store owned) (opening db n)).step store owned event) :=
      List.foldl_append
    have hstale : Stage.returned .stale ∈ _ := not_both (hinv _) hne (hrun ▸ hi.run after)
      (hrun ▸ hj.run after) hdone
    cases hnil .stale hstale
  · intro halong outcome hmem
    obtain ⟨-, hsingle⟩ := along_rule (P := fun s => Inv store owned s ∧ Single store owned s)
      ⟨hopening, single_opening db n⟩
      (fun s event h horderly => ⟨h.1.step event, h.2.step h.1 (step_step store owned s event) horderly⟩)
      halong
    obtain ⟨i, hi⟩ := List.mem_iff_getElem?.mp hmem
    rcases hinv events with h | ⟨winner, h⟩
    · exact (h.stages i _ hi).elim
    · cases outcome with
      | ok => rfl
      | idempotent => rfl
      | stale =>
          have hsame : i = winner := hsingle i winner ⟨_, hi, rfl⟩ ⟨_, h.won, rfl⟩
          rw [hsame, h.won] at hi
          cases hi

/-- A table with one active lease, and its record. -/
def leased : Database :=
  (Database.empty.setFence [107] 1).setRecord [107] ⟨[97], 1, 0, millisecond, true, 0⟩

def lease : Record := ⟨⟨[107]⟩, [97], 1, 0, millisecond⟩

theorem concurrent_release_serial :
    let events := [Event.start 0, .update 0 (frozen 5), .commit 0, .start 1, .update 1 (frozen 6), .commit 1]
    let s := events.foldl (Server.step ⟨id, fun _ => true⟩ lease) (opening leased 2)
    s.statements = [.returned .ok, .returned .idempotent] ∧
      ∀ outcome, .returned outcome ∈ s.statements → result outcome = none := by
  intro events s
  have hstatements : s.statements = [.returned .ok, .returned .idempotent] := rfl
  have hdone : ∀ stage ∈ s.statements, ∃ outcome, stage = .returned outcome := by
    rw [hstatements]
    simp
  have hfirst : Orderly ⟨id, fun _ => true⟩ lease (opening leased 2) (.start 0) :=
    fun _ _ _ hmem => waiting_of_mem hmem
  refine ⟨hstatements, (concurrent_release rfl hdone).mpr ?_⟩
  exact ⟨hfirst, trivial, trivial, fun _ hholds => (nomatch hholds), trivial, trivial, trivial⟩

/-- Two releases of the same record that overlap: the second one is told that it
is stale, though nobody has succeeded the owner. -/
theorem overlapping_release :
    let events := [Event.start 0, .start 1, .update 0 (frozen 5), .commit 0, .update 1 (frozen 6), .commit 1]
    let s := events.foldl (Server.step ⟨id, fun _ => true⟩ lease) (opening leased 2)
    holds ⟨id, fun _ => true⟩ lease leased = true ∧ released ⟨id, fun _ => true⟩ lease s.db = true ∧
      s.statements = [.returned .ok, .returned .stale] ∧
      result .stale = some (wrap .errStaleOwner "postgres release") :=
  ⟨rfl, rfl, rfl, rfl⟩

end Exposure

end GoLease.Postgres.Concurrent
