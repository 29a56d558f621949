import GoLease.Pool
import GoLease.Postgres.Isolation.Effects

namespace GoLease.Postgres.Isolation

open Traces Pool Database

/-- The answer of a statement by itself, and the one it gives among others. They
differ where a plain SELECT has read the snapshot and the rest of the statement
the latest rows. -/
inductive Agrees : Answer → Answer → Prop
  | same (answer : Answer) : Agrees answer answer
  | unexhausted (token : Nat) (acquiredAt expiresAt : Int) :
      Agrees (.acquired ⟨token, acquiredAt, expiresAt, .exhausted⟩)
        (.acquired ⟨token, acquiredAt, expiresAt, .contended⟩)
  | overtaken : Agrees (.released .idempotent) (.released .stale)

/-- A cleanup takes effect on those of its rows that it could lock. -/
inductive Executes : Statement → Statement → Prop
  | same (statement : Statement) : Executes statement statement
  | cleanup {batch : Nat} {doomed taken : List (Bytes × Int)}
      (h : taken.map Prod.fst ⊆ doomed.map Prod.fst) :
      Executes (.cleanup batch doomed) (.cleanup batch taken)

/-- The tables after the first commits. -/
def tables (initial : Database) (log : List (Nat × Clock × Statement)) (k : Nat) : Database :=
  version exec initial (log.map Prod.snd) k

section Replay

variable {initial : Database} {log : List (Nat × Clock × Statement)} {k : Nat}

theorem tables_append (h : k ≤ log.length) (more : List (Nat × Clock × Statement)) :
    tables initial (log ++ more) k = tables initial log k := by
  rw [tables, List.map_append, version_append _ (by rwa [List.length_map])]
  rfl

theorem tables_concat (entry : Nat × Clock × Statement) :
    tables initial (log ++ [entry]) (log.length + 1) =
      ((tables initial log log.length).exec entry.2).1 := by
  have hget : ((log ++ [entry]).map Prod.snd)[log.length]? = some entry.2 := by simp
  rw [tables, version_succ _ hget]
  exact congrArg (fun db : Database => (db.exec entry.2).1) (tables_append (Nat.le_refl _) [entry])

theorem fence_mono {digest : Bytes} {m n fence : Nat}
    (hf : (tables initial log m).fences digest = some fence) (hle : m ≤ n) :
    ∃ later, (tables initial log n).fences digest = some later ∧ fence ≤ later := by
  refine version_rule (P := fun db : Database => ∃ later, db.fences digest = some later ∧ fence ≤ later)
    ⟨fence, hf, Nat.le_refl _⟩ ?_ hle
  rintro db input ⟨later, hl, hfl⟩
  obtain ⟨last, hlast, hle⟩ := Fences.step_fence (db.exec_step input) hl
  exact ⟨last, hlast, Nat.le_trans hfl hle⟩

/-- The snapshot shows the first commits and no others. -/
def Seen (initial : Database) (log : List (Nat × Clock × Statement)) (since : Nat) (snapshot : Database) :
    Prop :=
  since ≤ log.length ∧ snapshot = tables initial log since

/-- The execution is made with readings of the statement itself. A cleanup has
one for each row that it takes. -/
def Own (Read : Clock → Prop) : Clock × Statement → Prop
  | (clock, .cleanup _ taken) => Read clock ∧ ∀ candidate ∈ taken, Read (frozen candidate.2)
  | (clock, _) => Read clock

/-- Since its snapshot the statement took effect at one point of the commit
order, its own commit there, or was answered at one without an effect. The
clock showed it what it has read itself. -/
def Took (Read : Nat → Clock → Prop) (initial : Database) (log : List (Nat × Clock × Statement)) (i : Nat)
    (statement : Statement) (since : Nat) (answer : Answer) : Prop :=
  ∃ k input, since ≤ k ∧ k ≤ log.length ∧ Executes statement input.2 ∧ Own (Read i) input ∧
    Agrees ((tables initial log k).exec input).2 answer ∧
    (log[k]? = some (i, input) ∨ effect (tables initial log k) input = .nothing)

theorem Seen.append {since : Nat} {snapshot : Database} (h : Seen initial log since snapshot)
    (more : List (Nat × Clock × Statement)) : Seen initial (log ++ more) since snapshot := by
  obtain ⟨hle, rfl⟩ := h
  refine ⟨?_, (tables_append hle more).symm⟩
  rw [List.length_append]
  omega

theorem Own.mono {Read Read' : Clock → Prop} {input : Clock × Statement}
    (hread : ∀ clock, Read clock → Read' clock) (h : Own Read input) : Own Read' input := by
  obtain ⟨clock, statement⟩ := input
  cases statement with
  | cleanup => exact ⟨hread _ h.1, fun candidate hc => hread _ (h.2 candidate hc)⟩
  | acquire | renew | validate | release => exact hread _ h

theorem own_of_read {Read : Clock → Prop} {clock : Clock} {statement : Statement}
    (h : Read clock) (hstatement : ∀ batch doomed, statement ≠ .cleanup batch doomed) :
    Own Read (clock, statement) := by
  cases statement with
  | cleanup batch doomed => exact absurd rfl (hstatement batch doomed)
  | acquire | renew | validate | release => exact h

variable {Read Read' : Nat → Clock → Prop}

theorem Took.mono {i since : Nat} {statement : Statement} {answer : Answer}
    (hread : ∀ i clock, Read i clock → Read' i clock)
    (h : Took Read initial log i statement since answer) :
    Took Read' initial log i statement since answer := by
  obtain ⟨k, input, hsince, hle, hexecutes, hown, h⟩ := h
  exact ⟨k, input, hsince, hle, hexecutes, hown.mono (hread i), h⟩

theorem Took.append {i since : Nat} {statement : Statement} {answer : Answer}
    (h : Took Read initial log i statement since answer) (more : List (Nat × Clock × Statement)) :
    Took Read initial (log ++ more) i statement since answer := by
  obtain ⟨k, input, hsince, hle, hexecutes, hown, hagrees, heffect⟩ := h
  refine ⟨k, input, hsince, ?_, hexecutes, hown, ?_, ?_⟩
  · rw [List.length_append]
    omega
  · rw [tables_append hle]
    exact hagrees
  · rw [tables_append hle]
    exact heffect.imp_left (fun hget => getElem?_append_of_some hget more)

theorem Seen.took {i since : Nat} {snapshot : Database} {clock : Clock} {statement : Statement}
    (h : Seen initial log since snapshot) (hown : Own (Read i) (clock, statement))
    (he : effect snapshot (clock, statement) = .nothing) :
    Took Read initial log i statement since (snapshot.exec (clock, statement)).2 := by
  obtain ⟨hle, rfl⟩ := h
  exact ⟨since, _, Nat.le_refl _, hle, .same _, hown, .same _, .inr he⟩

end Replay

/-- The number of commits that a stage remembers, the present one before the
snapshot is taken. -/
def Stage.Since (s : Server) (since : Nat) : Stage → Prop
  | .waiting => since = s.log.length
  | .started n _ | .fenced n _ _ | .collecting n _ _ _ | .evaluated n _ _ _ | .returned n _ => since = n

/-- The readings of the clock that a step brings. Only renewSQL tests the row of
its snapshot against one. -/
def Event.readings : Event → Statement → List Clock
  | .fence _ clock, _ | .install _ clock, _ => [clock]
  | .update _ seen clock, .renew _ _ _ _ => [frozen seen, clock]
  | .update _ _ clock, _ => [clock]
  | .take _ age, _ => [frozen age]
  | .start _, _ | .commit _, _ | .cancel _, _ => []

theorem mem_readings_update (i : Nat) (seen : Int) (clock : Clock) (statement : Statement) :
    clock ∈ (Event.update i seen clock).readings statement := by
  cases statement with
  | renew => exact List.mem_cons_of_mem _ List.mem_cons_self
  | acquire | validate | release | cleanup => exact List.mem_singleton_self _

/-- What one statement can do without committing. Rows are written with the
readings of the event. -/
inductive Moves (s : Server) (event : Event) : Session → Session → Prop
  | started {statement : Statement} (h : ∀ batch doomed, statement ≠ .cleanup batch doomed) :
      Moves s event ⟨statement, .waiting⟩ ⟨statement, .started s.log.length s.db⟩
  | scanning {batch : Nat} {doomed : List (Bytes × Int)} :
      Moves s event ⟨.cleanup batch doomed, .waiting⟩
        ⟨.cleanup batch doomed, .collecting s.log.length s.db doomed []⟩
  | fenced {digest owner : Bytes} {ms : Int} {since token : Nat} {snapshot : Database}
      (hfree : ∀ session ∈ s.sessions, session.locksFence digest = false)
      (ht : s.db.nextFence digest = some token) :
      Moves s event ⟨.acquire digest owner ms, .started since snapshot⟩
        ⟨.acquire digest owner ms, .fenced since snapshot token⟩
  | refused {digest owner : Bytes} {ms : Int} {since token : Nat} {snapshot : Database}
      (clock : Clock) (hclock : clock ∈ event.readings (.acquire digest owner ms))
      (hi : install clock owner ms token (s.db.records digest) = none) :
      Moves s event ⟨.acquire digest owner ms, .fenced since snapshot token⟩
        ⟨.acquire digest owner ms, .returned since (some .aborted)⟩
  | installed {digest owner : Bytes} {ms : Int} {since token : Nat} {snapshot : Database} {clock : Clock}
      {row : Option Row} (hevent : event = .install event.session clock)
      (hfree : ∀ session ∈ s.sessions, session.locksRecord digest = false)
      (hi : install clock owner ms token (s.db.records digest) = some row) :
      Moves s event ⟨.acquire digest owner ms, .fenced since snapshot token⟩
        ⟨.acquire digest owner ms,
          .evaluated since (some (clock, .acquire digest owner ms)) (.write digest (some token) row)
            (.acquired (acquireAnswer clock token snapshot digest row))⟩
  | overlooked {statement : Statement} {since : Nat} {snapshot : Database} (clock : Clock)
      (hclock : clock ∈ event.readings statement)
      (he : effect snapshot (clock, statement) = .nothing) :
      Moves s event ⟨statement, .started since snapshot⟩
        ⟨statement, .evaluated since none .nothing (snapshot.exec (clock, statement)).2⟩
  | stale {statement : Statement} {since : Nat} {snapshot : Database} {answer : Answer}
      (clock : Clock) (hclock : clock ∈ event.readings statement)
      (he : effect s.db (clock, statement) = .nothing)
      (ha : Agrees (s.db.exec (clock, statement)).2 answer) :
      Moves s event ⟨statement, .started since snapshot⟩
        ⟨statement, .evaluated since none .nothing answer⟩
  | aborted {statement : Statement} {since : Nat} {snapshot : Database} {clock : Clock}
      (hclock : clock ∈ event.readings statement)
      (he : effect s.db (clock, statement) = .nothing)
      (ha : (s.db.exec (clock, statement)).2 = .aborted) :
      Moves s event ⟨statement, .started since snapshot⟩ ⟨statement, .returned since (some .aborted)⟩
  | updated {statement : Statement} {since : Nat} {snapshot : Database} {clock : Clock}
      {digest : Bytes} {record : Option Row} {seen : Int}
      (hevent : event = .update event.session seen clock)
      (hfree : ∀ session ∈ s.sessions, session.locksRecord digest = false)
      (hcounts : ∀ key, ¬counts statement key) (hreads : ∀ key, reads statement key → key = digest)
      (he : effect s.db (clock, statement) = .write digest none record) :
      Moves s event ⟨statement, .started since snapshot⟩
        ⟨statement, .evaluated since (some (clock, statement)) (.write digest none record)
          (s.db.exec (clock, statement)).2⟩
  | took {batch since : Nat} {doomed rest taken : List (Bytes × Int)} {snapshot : Database}
      {candidate : Bytes × Int} {age : Int}
      (hfree : ∀ session ∈ s.sessions, session.locksRecord candidate.1 = false)
      (hage : frozen age ∈ event.readings (.cleanup batch doomed))
      (hb : taken.length < batch) (he : s.db.eligible (candidate.1, age) = true) :
      Moves s event ⟨.cleanup batch doomed, .collecting since snapshot (candidate :: rest) taken⟩
        ⟨.cleanup batch doomed, .collecting since snapshot rest (taken ++ [(candidate.1, age)])⟩
  | skipped {batch since : Nat} {doomed rest taken : List (Bytes × Int)} {snapshot : Database}
      {candidate : Bytes × Int} :
      Moves s event ⟨.cleanup batch doomed, .collecting since snapshot (candidate :: rest) taken⟩
        ⟨.cleanup batch doomed, .collecting since snapshot rest taken⟩
  | collected {batch since : Nat} {doomed taken : List (Bytes × Int)} {snapshot : Database}
      {clock : Clock} (hclock : clock ∈ event.readings (.cleanup batch doomed)) :
      Moves s event ⟨.cleanup batch doomed, .collecting since snapshot [] taken⟩
        ⟨.cleanup batch doomed, .evaluated since (some (clock, .cleanup batch taken))
          (.delete (taken.map Prod.fst)) (.deleted taken.length)⟩

theorem Moves.ne {s : Server} {event : Event} {a b : Session} (h : Moves s event a b) : a ≠ b := by
  intro he
  cases h with
  | took | skipped =>
      have hrest := congrArg Session.stage he
      simp only [Stage.collecting.injEq, List.cons_ne_self, false_and, and_false] at hrest
  | started | scanning | fenced | refused | installed | overlooked | stale | aborted | updated | collected =>
      cases congrArg Session.stage he

/-- Everything one event can do. -/
inductive Step (s : Server) : Event → Server → Prop
  | kept (event : Event) : Step s event s
  | moved {event : Event} {i : Nat} {session session' : Session} (h : s.sessions[i]? = some session)
      (hm : Moves s event session session') (hevent : event.session = i) :
      Step s event (s.set i session')
  | committed {i since : Nat} {statement : Statement}
      {input : Option (Clock × Statement)} {written : Effect} {answer : Answer}
      (h : s.sessions[i]? = some ⟨statement, .evaluated since input written answer⟩) :
      Step s (.commit i) (s.commit i statement since input written answer)
  | cancelled {i since : Nat} {statement : Statement} {stage : Stage}
      (h : s.sessions[i]? = some ⟨statement, stage⟩)
      (hstage : ∀ since answer, stage ≠ .returned since answer) (hsince : stage.Since s since) :
      Step s (.cancel i) (s.set i ⟨statement, .returned since none⟩)

section Steps

variable {s : Server} {i since : Nat} {clock : Clock} {digest owner : Bytes} {ms : Int} {token : Nat}
  {snapshot : Database} {statement : Statement}

theorem any_locks {p : Session → Bool} (h : ¬s.sessions.any p = true) :
    ∀ session ∈ s.sessions, p session = false := by
  rw [Bool.not_eq_true, List.any_eq_false] at h
  intro session hm
  exact Bool.not_eq_true _ ▸ h session hm

theorem refusal_cases (db : Database) (digest : Bytes) :
    db.refusal digest = .exhausted ∨ db.refusal digest = .contended := by
  unfold refusal
  split
  next => split <;> simp
  next => simp

theorem fence_step (h : s.sessions[i]? = some ⟨.acquire digest owner ms, .started since snapshot⟩) :
    Step s (.fence i clock) (s.fence i clock digest owner ms since snapshot) := by
  unfold Server.fence
  split
  next => exact .kept _
  next hfree =>
    split
    next ht =>
      refine .moved h (.stale clock (List.mem_singleton_self _) (by simp only [effect, ht]) ?_) rfl
      simp only [exec, acquireSQL_none ht, refusal_exhausted ht, acquireAnswer, Option.elim_some]
      rcases refusal_cases snapshot digest with hs | hs
      · rw [hs]
        exact .same _
      · rw [hs]
        exact .unexhausted _ _ _
    next token ht => exact .moved h (.fenced (any_locks hfree) ht) rfl

theorem install_step
    (h : s.sessions[i]? = some ⟨.acquire digest owner ms, .fenced since snapshot token⟩) :
    Step s (.install i clock) (s.install i clock digest owner ms since snapshot token) := by
  unfold Server.install
  split
  next hcheck => exact .moved h (.refused clock (List.mem_singleton_self _) (if_pos hcheck)) rfl
  next =>
    split
    next => exact .kept _
    next hfree =>
      split
      next hi => exact .moved h (.refused clock (List.mem_singleton_self _) hi) rfl
      next row hi => exact .moved h (.installed rfl (any_locks hfree) hi) rfl

/-- A row that is found is locked, and the statement runs on its latest version. -/
theorem write_step {seen : Int} {unchanged : Answer}
    (h : s.sessions[i]? = some ⟨statement, .started since snapshot⟩)
    (hclock : clock ∈ (Event.update i seen clock).readings statement)
    (hcounts : ∀ key, ¬counts statement key) (hreads : ∀ key, reads statement key → key = digest)
    (hwrites : ∀ db : Database, effect db (clock, statement) = .nothing ∨
      ∃ record, effect db (clock, statement) = .write digest none record)
    (habort : (s.db.exec (clock, statement)).2 = .aborted → effect s.db (clock, statement) = .nothing)
    (ha : effect s.db (clock, statement) = .nothing → (s.db.exec (clock, statement)).2 ≠ .aborted →
      Agrees (s.db.exec (clock, statement)).2 unchanged) :
    Step s (.update i seen clock) (s.write i clock statement since digest unchanged) := by
  unfold Server.write
  split
  next => exact .kept _
  next hfree =>
    split
    next haborted => exact .moved h (.aborted hclock (habort haborted) haborted) rfl
    next haborted =>
      rcases hwrites s.db with he | ⟨record, he⟩
      · rw [he]
        exact .moved h (.stale clock hclock he (ha he haborted)) rfl
      · rw [he]
        exact .moved h (.updated rfl (any_locks hfree) hcounts hreads he) rfl

theorem renewal_of_invisible {seen : Int} (ms : Int)
    (h : (snapshot.validateSQL (frozen seen) digest owner token).isNone = true) :
    renewal (frozen seen) owner ms token (snapshot.records digest) = some none := by
  unfold validateSQL at h
  unfold renewal
  cases hr : snapshot.records digest with
  | none => rfl
  | some row =>
      rw [hr] at h
      refine if_neg fun hcurrent => ?_
      have hseen : row.ours owner token ∧ row.active ∧ row.expiresAt > frozen seen 0 := hcurrent
      simp only [hseen, and_self, if_true] at h
      cases h

theorem renew_step {seen : Int}
    (h : s.sessions[i]? = some ⟨.renew digest owner token ms, .started since snapshot⟩) :
    Step s (.update i seen clock)
      (s.update i seen clock (.renew digest owner token ms) since snapshot) := by
  simp only [Server.update]
  split
  next hnone =>
    have hr := renewal_of_invisible ms hnone
    have hm : Moves s (.update i seen clock) ⟨.renew digest owner token ms, .started since snapshot⟩ _ :=
      .overlooked (frozen seen) List.mem_cons_self (by simp only [effect, hr])
    simp only [exec, renewSQL_eq, hr, Option.elim_some] at hm
    exact .moved h hm rfl
  next =>
    refine write_step h (List.mem_cons_of_mem _ List.mem_cons_self) (fun _ => id) (fun _ => id) ?_ ?_ ?_
    · intro db
      simp only [effect]
      split
      next row _ => exact .inr ⟨some row, rfl⟩
      next => exact .inl rfl
    · simp only [exec, effect, renewSQL_eq]
      generalize renewal clock owner ms token (s.db.records digest) = result
      rcases result with _ | _ | row <;> simp
    · simp only [exec, effect, renewSQL_eq]
      generalize renewal clock owner ms token (s.db.records digest) = result
      rcases result with _ | _ | row
      · simp
      · intro _ _
        exact .same _
      · simp

theorem releaseOutcome_cases (owner : Bytes) (token : Nat) (row : Option Row) :
    releaseOutcome owner token false row = .idempotent ∨ releaseOutcome owner token false row = .stale := by
  simp only [releaseOutcome, Bool.false_eq_true, if_false]
  split
  next => split <;> simp
  next => simp

theorem releaseOutcome_of_releasing {row : Option Row}
    (h : ¬(releasing clock owner token row).isNone = true) :
    releaseOutcome owner token false row = .stale := by
  cases row with
  | none => exact absurd rfl h
  | some row =>
      simp only [releasing] at h
      split at h
      next hmatch => simp [releaseOutcome, hmatch]
      next => exact absurd rfl h

theorem release_step {seen : Int}
    (h : s.sessions[i]? = some ⟨.release digest owner token, .started since snapshot⟩) :
    Step s (.update i seen clock)
      (s.update i seen clock (.release digest owner token) since snapshot) := by
  simp only [Server.update]
  split
  next hnone =>
    have hr := Option.isNone_iff_eq_none.mp hnone
    have hm : Moves s (.update i seen clock) ⟨.release digest owner token, .started since snapshot⟩ _ :=
      .overlooked clock (List.mem_singleton_self _) (by simp only [effect, hr])
    simp only [exec, releaseSQL_eq, hr] at hm
    exact .moved h hm rfl
  next hsome =>
    refine write_step h (List.mem_singleton_self _) (fun _ => id) (fun _ => id) ?_ ?_ ?_
    · intro db
      simp only [effect]
      split
      next row _ => exact .inr ⟨some row, rfl⟩
      next => exact .inl rfl
    · simp only [exec]
      intro habort
      cases habort
    · simp only [exec, effect, releaseSQL_eq, releaseOutcome_of_releasing hsome]
      cases releasing clock owner token (s.db.records digest) with
      | none =>
          intro _ _
          dsimp only
          rcases releaseOutcome_cases owner token (s.db.records digest) with ho | ho
          · rw [ho]
            exact .overtaken
          · rw [ho]
            exact .same _
      | some row => simp

theorem take_step {batch : Nat} {doomed rest taken : List (Bytes × Int)} {age : Int}
    (h : s.sessions[i]? = some ⟨.cleanup batch doomed, .collecting since snapshot rest taken⟩) :
    Step s (.take i age) (s.take i age batch doomed since snapshot rest taken) := by
  unfold Server.take
  split
  next => exact .moved h (.collected (List.mem_singleton_self _)) rfl
  next candidate rest =>
    split
    next hcandidate =>
      obtain ⟨hb, _, hfree, he⟩ := hcandidate
      exact .moved h (.took (any_locks hfree) (List.mem_singleton_self _) hb he) rfl
    next => exact .moved h .skipped rfl

theorem step_step (s : Server) (event : Event) : Step s event (s.step event) := by
  cases event with
  | start i =>
      simp only [Server.step]
      split
      next statement h =>
        cases statement with
        | cleanup batch doomed => exact .moved h .scanning rfl
        | acquire | renew | validate | release => exact .moved h (.started nofun) rfl
      next => exact .kept _
  | fence i clock =>
      simp only [Server.step]
      split
      next h => exact fence_step h
      next => exact .kept _
  | install i clock =>
      simp only [Server.step]
      split
      next h => exact install_step h
      next => exact .kept _
  | update i seen clock =>
      simp only [Server.step]
      split
      next statement since snapshot h =>
        cases statement with
        | renew => exact renew_step h
        | validate => exact .moved h (.overlooked clock (List.mem_singleton_self _) rfl) rfl
        | release => exact release_step h
        | acquire | cleanup => exact .kept _
      next => exact .kept _
  | take i age =>
      simp only [Server.step]
      split
      next h => exact take_step h
      next => exact .kept _
  | commit i =>
      simp only [Server.step]
      split
      next h => exact .committed h
      next => exact .kept _
  | cancel i =>
      simp only [Server.step]
      split
      next statement stage h =>
        cases stage with
        | returned => exact .kept _
        | waiting | started | fenced | collecting | evaluated => exact .cancelled h nofun rfl
      next => exact .kept _

end Steps

end GoLease.Postgres.Isolation
