import GoLease.Postgres.Isolation.Linear

namespace GoLease.Postgres.Isolation

open Traces Pool Database

/-- The steps that a session has before it at most. -/
def Session.work (session : Session) : Nat :=
  match session.stage with
  | .waiting =>
    match session.statement with
    | .cleanup _ doomed => doomed.length + 4
    | _ => 4
  | .started _ _ => 3
  | .fenced _ _ _ => 2
  | .collecting _ _ rest _ => rest.length + 2
  | .evaluated _ _ _ _ => 1
  | .returned _ _ => 0

def Server.work (s : Server) : Nat := (s.sessions.map Session.work).sum

def Server.Done (s : Server) : Prop :=
  ∀ session ∈ s.sessions, ∃ since answer, session.stage = .returned since answer

section Work

variable {s s' : Server} {a b : Session} {i : Nat} {event : Event}

theorem Moves.work (h : Moves s event a b) : b.work < a.work := by
  cases h with
  | @started statement hstatement => cases statement <;> simp [Session.work]
  | scanning | fenced | refused | installed | overlooked | stale | aborted | updated | took | skipped
    | collected => simp [Session.work]

theorem work_set (ha : s.sessions[i]? = some a) (h : b.work < a.work) : (s.set i b).work < s.work := by
  have hsum := sum_map_set_add (f := Session.work) (b := b) ha
  simp only [Server.work, Server.set]
  omega

/-- No event undoes a step that was made. -/
theorem Step.work (h : Step s event s') : s' = s ∨ s'.work < s.work := by
  cases h with
  | kept => exact .inl rfl
  | moved ha hm => exact .inr (work_set ha hm.work)
  | committed ha => exact .inr (work_set ha (by simp [Session.work]))
  | @cancelled i since statement stage ha hstage hsince =>
      refine .inr (work_set ha ?_)
      cases stage with
      | returned => exact absurd rfl (hstage _ _)
      | waiting => cases statement <;> simp [Session.work]
      | started | fenced | collecting | evaluated => simp [Session.work]

/-- Only a statement that is given up returns without an answer. -/
def Unanswered (session : Session) : Prop := ∃ since, session.stage = .returned since none

theorem Step.unanswered (h : Step s event s') (hevent : event.isCancel = false)
    (hi : s'.sessions[i]? = some a) (ha : Unanswered a) : s.sessions[i]? = some a := by
  obtain ⟨since, ha⟩ := ha
  cases h with
  | kept => exact hi
  | moved hj hm =>
      rcases getElem?_set_cases hi with ⟨rfl, rfl⟩ | ⟨_, hi⟩
      · cases hm <;> cases ha
      · exact hi
  | committed hj =>
      rcases getElem?_set_cases hi with ⟨rfl, rfl⟩ | ⟨_, hi⟩
      · cases ha
      · exact hi
  | cancelled => cases hevent

end Work

section Enabled

variable {Read : Nat → Clock → Prop} {initial : Database} {s : Server} {i : Nat} {session : Session}

/-- An event of this session that brings it forward. -/
def Advances (s : Server) : Prop := ∃ event, event.isCancel = false ∧ (s.step event).work < s.work

theorem advances_of_evaluated {statement : Statement} {since : Nat} {input : Option (Clock × Statement)}
    {written : Effect} {answer : Answer}
    (hi : s.sessions[i]? = some ⟨statement, .evaluated since input written answer⟩) : Advances s := by
  refine ⟨.commit i, rfl, ?_⟩
  simp only [Server.step, hi]
  exact work_set hi (by simp [Session.work])

/-- A cleanup skips what it cannot lock. -/
theorem advances_of_collecting {batch since : Nat} {doomed rest taken : List (Bytes × Int)}
    {snapshot : Database}
    (hi : s.sessions[i]? = some ⟨.cleanup batch doomed, .collecting since snapshot rest taken⟩) :
    Advances s := by
  refine ⟨.take i 0, rfl, ?_⟩
  simp only [Server.step, hi, Server.take]
  cases rest with
  | nil => exact work_set hi (by simp [Session.work])
  | cons candidate rest =>
      dsimp only
      split
      next => exact work_set hi (by simp [Session.work])
      next => exact work_set hi (by simp [Session.work])

/-- Whoever holds a record lock waits for nothing. -/
theorem Inv.advances_or_free (h : Inv Read initial s) :
    Advances s ∨ ∀ session ∈ s.sessions, ∀ digest, session.locksRecord digest = false := by
  by_cases hlocked : ∃ session ∈ s.sessions, ∃ digest, session.locksRecord digest = true
  · obtain ⟨⟨statement, stage⟩, hmem, digest, hlock⟩ := hlocked
    obtain ⟨i, hi⟩ := List.mem_iff_getElem?.mp hmem
    cases stage with
    | evaluated => exact .inl (advances_of_evaluated hi)
    | collecting =>
        have hs := h.sound i _ hi
        cases hs with
        | collecting => exact .inl (advances_of_collecting hi)
    | waiting | started | fenced | returned => cases hlock
  · refine .inr fun session hmem digest => ?_
    rw [← Bool.not_eq_true]
    exact fun hlock => hlocked ⟨session, hmem, digest, hlock⟩

theorem any_of_free {p : Session → Bool} (h : ∀ session ∈ s.sessions, p session = false) :
    s.sessions.any p = false := by
  rw [List.any_eq_false]
  intro session hmem hp
  rw [h session hmem] at hp
  cases hp

theorem advances_of_fenced {digest owner : Bytes} {ms : Int} {since token : Nat} {snapshot : Database}
    (hi : s.sessions[i]? = some ⟨.acquire digest owner ms, .fenced since snapshot token⟩)
    (hfree : ∀ session ∈ s.sessions, session.locksRecord digest = false) : Advances s := by
  refine ⟨.install i (frozen 0), rfl, ?_⟩
  simp only [Server.step, hi, Server.install, any_of_free hfree]
  split
  next => exact work_set hi (by simp [Session.work])
  next =>
    rw [if_neg Bool.false_ne_true]
    split
    next => exact work_set hi (by simp [Session.work])
    next => exact work_set hi (by simp [Session.work])

theorem work_write {clock : Clock} {statement : Statement} {since : Nat} {digest : Bytes} {unchanged : Answer}
    {snapshot : Database} (hi : s.sessions[i]? = some ⟨statement, .started since snapshot⟩)
    (hfree : ∀ session ∈ s.sessions, session.locksRecord digest = false) :
    (s.write i clock statement since digest unchanged).work < s.work := by
  simp only [Server.write, any_of_free hfree]
  rw [if_neg Bool.false_ne_true]
  split
  next => exact work_set hi (by simp [Session.work])
  next =>
    split
    next => exact work_set hi (by simp [Session.work])
    next => exact work_set hi (by simp [Session.work])

theorem advances_of_updating {statement : Statement} {since : Nat} {snapshot : Database}
    (hi : s.sessions[i]? = some ⟨statement, .started since snapshot⟩)
    (hacquire : ∀ digest owner ms, statement ≠ .acquire digest owner ms)
    (hcleanup : ∀ batch doomed, statement ≠ .cleanup batch doomed)
    (hfree : ∀ session ∈ s.sessions, ∀ digest, session.locksRecord digest = false) : Advances s := by
  refine ⟨.update i 0 (frozen 0), rfl, ?_⟩
  have hfree' (digest : Bytes) := fun session hmem => hfree session hmem digest
  simp only [Server.step, hi, Server.update, Server.idle]
  cases statement with
  | acquire digest owner ms => exact absurd rfl (hacquire digest owner ms)
  | cleanup batch doomed => exact absurd rfl (hcleanup batch doomed)
  | validate => exact work_set hi (by simp [Session.work])
  | renew digest owner token ms | release digest owner token =>
      dsimp only
      split
      next => exact work_set hi (by simp [Session.work])
      next => exact work_write hi (hfree' digest)

/-- Without record locks only sessions that have their fence can hold one. -/
theorem advances_of_started {digest owner : Bytes} {ms : Int} {since : Nat} {snapshot : Database}
    (h : Inv Read initial s)
    (hi : s.sessions[i]? = some ⟨.acquire digest owner ms, .started since snapshot⟩)
    (hfree : ∀ session ∈ s.sessions, ∀ digest, session.locksRecord digest = false) : Advances s := by
  by_cases hlocked : ∃ session ∈ s.sessions, session.locksFence digest = true
  · obtain ⟨⟨statement, stage⟩, hmem, hlock⟩ := hlocked
    obtain ⟨j, hj⟩ := List.mem_iff_getElem?.mp hmem
    cases stage with
    | evaluated => exact advances_of_evaluated hj
    | fenced =>
        have hs := h.sound j _ hj
        cases hs with
        | fenced => exact advances_of_fenced hj (fun session hmem => hfree session hmem _)
    | waiting | started | collecting | returned => cases statement <;> cases hlock
  · have hnone : s.sessions.any (Session.locksFence digest) = false := by
      rw [List.any_eq_false]
      exact fun session hmem hlock => hlocked ⟨session, hmem, hlock⟩
    refine ⟨.fence i (frozen 0), rfl, ?_⟩
    simp only [Server.step, hi, Server.fence, hnone]
    rw [if_neg Bool.false_ne_true]
    split
    next => exact work_set hi (by simp [Session.work])
    next => exact work_set hi (by simp [Session.work])

theorem advances_of_waiting {statement : Statement} (hi : s.sessions[i]? = some ⟨statement, .waiting⟩) :
    Advances s := by
  refine ⟨.start i, rfl, ?_⟩
  simp only [Server.step, hi]
  cases statement with
  | cleanup => exact work_set hi (by simp [Session.work])
  | acquire | renew | validate | release => exact work_set hi (by simp [Session.work])

/-- Fences are locked before records, and a session that has all its locks
waits for none: no circle of sessions can wait for one another. -/
theorem Inv.advances (h : Inv Read initial s) (hdone : ¬s.Done) : Advances s := by
  simp only [Server.Done, not_forall] at hdone
  obtain ⟨⟨statement, stage⟩, hmem, hopen⟩ := hdone
  obtain ⟨i, hi⟩ := List.mem_iff_getElem?.mp hmem
  rcases h.advances_or_free with hadvances | hfree
  · exact hadvances
  · have hs := h.sound i _ hi
    cases hs with
    | waiting => exact advances_of_waiting hi
    | started hcleanup hseen =>
        cases statement with
        | acquire => exact advances_of_started h hi hfree
        | cleanup batch doomed => exact absurd rfl (hcleanup batch doomed)
        | renew | validate | release => exact advances_of_updating hi nofun hcleanup hfree
    | fenced => exact advances_of_fenced hi (fun session hmem => hfree session hmem _)
    | collecting => exact advances_of_collecting hi
    | idle | evaluated => exact advances_of_evaluated hi
    | returned => exact absurd ⟨_, _, rfl⟩ hopen

end Enabled

/-- The lock order admits no deadlock. In every state that overlapping
statements can reach, an event either changes nothing or brings them nearer to
their ends, and all of them can return, each that was not given up before with
an answer. -/
theorem statements_return (db : Database) (statements : List Statement) (events : List Event) :
    let s := events.foldl Server.step (Server.initial db statements)
    (∀ event, s.step event = s ∨ (s.step event).work < s.work) ∧
      ∃ later : List Event, later.length ≤ s.work ∧ (later.foldl Server.step s).Done ∧
        ∀ (i : Nat) session, (later.foldl Server.step s).sessions[i]? = some session →
          Unanswered session → s.sessions[i]? = some session := by
  intro s
  refine ⟨fun event => (step_step s event).work, ?_⟩
  have hreaches := @reaches_rule _ _ Server.step (fun t => Inv (fun _ _ => True) db t ∧ ∀ (i : Nat) session,
    t.sessions[i]? = some session → Unanswered session → s.sessions[i]? = some session)
    Server.Done (fun _ => True) Server.work ?_ s
    ⟨(inv_run db statements events).mono (fun _ _ _ => trivial), fun _ _ hi _ => hi⟩
  · obtain ⟨later, _, hle, ⟨_, hold⟩, hdone⟩ := hreaches
    exact ⟨later, hle, hdone, hold⟩
  · rintro t ⟨ht, hold⟩ hopen
    obtain ⟨event, hevent, hlt⟩ := ht.advances hopen
    refine ⟨event, trivial, ⟨ht.step (fun _ _ _ => trivial), ?_⟩, hlt⟩
    intro i session hi ha
    exact hold i session ((step_step t event).unanswered hevent hi ha) ha

end GoLease.Postgres.Isolation
