import GoLease.Postgres.Isolation.Linear

namespace GoLease.Postgres.Isolation

open Traces Pool Database

/-- The session has acquired the key and been told its token. -/
def Granted (digest : Bytes) (token : Nat) (session : Session) : Prop :=
  ∃ owner ms since acquiredAt expiresAt, session = ⟨.acquire digest owner ms,
    .returned since (some (.acquired ⟨token, acquiredAt, expiresAt, .ok⟩))⟩

/-- The commit of this position acquired the key. -/
def GrantedAt (initial : Database) (log : List (Nat × Clock × Statement)) (digest : Bytes) (token k : Nat) :
    Prop :=
  ∃ i input, log[k]? = some (i, input) ∧
    Fences.okToken digest (input, ((tables initial log k).exec input).2) = some token

section Order

variable {initial : Database} {log : List (Nat × Clock × Statement)} {digest : Bytes} {token k : Nat}

theorem tables_succ {entry : Nat × Clock × Statement} (h : log[k]? = some entry) :
    tables initial log (k + 1) = ((tables initial log k).exec entry.2).1 := by
  apply version_succ
  rw [List.getElem?_map, h]
  rfl

/-- The fence moves to the token of a grant, and past it before the next. -/
theorem GrantedAt.lt {token' k' : Nat} (h : GrantedAt initial log digest token k)
    (h' : GrantedAt initial log digest token' k') (hlt : k < k') : token < token' := by
  obtain ⟨i, input, hget, hok⟩ := h
  obtain ⟨i', input', hget', hok'⟩ := h'
  obtain ⟨hfence, _⟩ := Fences.step_okToken ((tables initial log k).exec_step input) hok
  rw [← tables_succ hget] at hfence
  obtain ⟨later, hl, hle⟩ := fence_mono hfence hlt
  obtain ⟨_, hbefore⟩ := Fences.step_okToken ((tables initial log k').exec_step input') hok'
  exact Nat.lt_of_le_of_lt hle (hbefore later hl)

theorem GrantedAt.covered (h : GrantedAt initial log digest token k) (hle : k < log.length) :
    ∃ fence, (tables initial log log.length).fences digest = some fence ∧ token ≤ fence := by
  obtain ⟨i, input, hget, hok⟩ := h
  obtain ⟨hfence, _⟩ := Fences.step_okToken ((tables initial log k).exec_step input) hok
  rw [← tables_succ hget] at hfence
  exact fence_mono hfence hle

theorem GrantedAt.append (h : GrantedAt initial log digest token k)
    (more : List (Nat × Clock × Statement)) : GrantedAt initial (log ++ more) digest token k := by
  obtain ⟨i, input, hget, hok⟩ := h
  refine ⟨i, input, getElem?_append_of_some hget more, ?_⟩
  rw [tables_append (Nat.le_of_lt (List.getElem?_eq_some_iff.mp hget).1)]
  exact hok

theorem effect_of_ok {db : Database} {clock : Clock} {owner : Bytes} {ms acquiredAt expiresAt : Int}
    (h : (db.exec (clock, .acquire digest owner ms)).2 = .acquired ⟨token, acquiredAt, expiresAt, .ok⟩) :
    effect db (clock, .acquire digest owner ms) ≠ .nothing := by
  simp only [exec] at h
  simp only [effect]
  cases ht : db.nextFence digest with
  | none =>
      rw [acquireSQL_none ht] at h
      cases h.symm.trans (congrArg (fun o => Answer.acquired ⟨0, clock 7, clock 8, o⟩) (refusal_exhausted ht))
  | some next =>
      rw [acquireSQL_some ht] at h
      dsimp only
      cases hi : install clock owner ms next (db.records digest) with
      | none =>
          rw [hi] at h
          cases h
      | some row => exact Effect.noConfusion

/-- An acquisition that was granted has a commit of its own, not before the
snapshot that it began with. -/
theorem Took.granted {Read : Nat → Clock → Prop} {i since : Nat} {owner : Bytes}
    {ms acquiredAt expiresAt : Int} (h : Took Read initial log i (.acquire digest owner ms) since
      (.acquired ⟨token, acquiredAt, expiresAt, .ok⟩)) :
    ∃ k, since ≤ k ∧ (∃ input, log[k]? = some (i, input)) ∧ GrantedAt initial log digest token k := by
  obtain ⟨k, ⟨clock, statement⟩, hsince, _, hexecutes, _, hagrees, heffect⟩ := h
  cases hexecutes
  generalize hanswer : ((tables initial log k).exec (clock, .acquire digest owner ms)).2 = answer at hagrees
  cases hagrees
  rcases heffect with hget | hnothing
  · refine ⟨k, hsince, ⟨_, hget⟩, i, _, hget, ?_⟩
    rw [hanswer]
    simp [Fences.okToken]
  · exact absurd hnothing (effect_of_ok hanswer)

end Order

section Time

variable {s s' : Server} {j : Nat} {event : Event}

theorem Step.log (h : Step s event s') : ∃ more, s'.log = s.log ++ more := by
  cases h with
  | kept | moved | cancelled => exact ⟨[], (List.append_nil _).symm⟩
  | committed => exact ⟨_, rfl⟩

/-- The session has taken no snapshot of fewer commits. -/
def Stage.Recent (n : Nat) : Stage → Prop
  | .waiting => True
  | .started since _ | .fenced since _ _ | .collecting since _ _ _ | .evaluated since _ _ _
  | .returned since _ => n ≤ since

theorem Moves.recent {a b : Session} {n : Nat} (hm : Moves s event a b) (hn : n ≤ s.log.length)
    (h : a.stage.Recent n) : b.stage.Recent n := by
  cases hm with
  | started | scanning => exact hn
  | fenced | refused | installed | overlooked | stale | aborted | updated | took | skipped | collected =>
      exact h

theorem Stage.Since.recent {stage : Stage} {n since : Nat} (h : stage.Since s since)
    (hn : n ≤ s.log.length) (hstage : stage.Recent n) : n ≤ since := by
  cases stage with
  | waiting =>
      cases h
      exact hn
  | started | fenced | collecting | evaluated | returned =>
      cases h
      exact hstage

theorem Step.recent {n : Nat} (hs : Step s event s')
    (h : n ≤ s.log.length ∧ ∀ session, s.sessions[j]? = some session → session.stage.Recent n) :
    n ≤ s'.log.length ∧ ∀ session, s'.sessions[j]? = some session → session.stage.Recent n := by
  obtain ⟨hn, hj⟩ := h
  refine ⟨?_, ?_⟩
  · obtain ⟨more, hmore⟩ := hs.log
    rw [hmore, List.length_append]
    omega
  · intro session hsession
    cases hs with
    | kept => exact hj session hsession
    | moved hi hm =>
        rcases getElem?_set_cases hsession with ⟨rfl, rfl⟩ | ⟨_, hsession⟩
        · exact hm.recent hn (hj _ hi)
        · exact hj session hsession
    | committed hi =>
        rcases getElem?_set_cases hsession with ⟨rfl, rfl⟩ | ⟨_, hsession⟩
        · have hold := hj _ hi
          exact hold
        · exact hj session hsession
    | cancelled hi hstage hsince =>
        rcases getElem?_set_cases hsession with ⟨rfl, rfl⟩ | ⟨_, hsession⟩
        · exact hsince.recent hn (hj _ hi)
        · exact hj session hsession

theorem run_log (s : Server) (events : List Event) :
    ∃ more, (events.foldl Server.step s).log = s.log ++ more := by
  refine invariant_rule (P := fun t : Server => ∃ more, t.log = s.log ++ more) ?_ ?_ events
  · exact ⟨[], (List.append_nil _).symm⟩
  · rintro t event ⟨more, ht⟩
    obtain ⟨last, hlast⟩ := (step_step t event).log
    exact ⟨more ++ last, by rw [hlast, ht, List.append_assoc]⟩

/-- A statement that begins later has a later snapshot. -/
theorem run_recent {statement : Statement} (h : s.sessions[j]? = some ⟨statement, .waiting⟩)
    (events : List Event) {session : Session}
    (hj : (events.foldl Server.step s).sessions[j]? = some session) :
    session.stage.Recent s.log.length := by
  have hrun : s.log.length ≤ (events.foldl Server.step s).log.length ∧
      ∀ session, (events.foldl Server.step s).sessions[j]? = some session →
        session.stage.Recent s.log.length := by
    refine invariant_rule (P := fun t : Server => s.log.length ≤ t.log.length ∧
      ∀ session, t.sessions[j]? = some session → session.stage.Recent s.log.length) ?_ ?_ events
    · refine ⟨Nat.le_refl _, ?_⟩
      intro session hsession
      rw [h] at hsession
      cases hsession
      trivial
    · exact fun t event ht => (step_step t event).recent ht
  exact hrun.2 session hj

end Time

section Runs

variable {Read : Nat → Clock → Prop} {db : Database} {s : Server} {digest : Bytes} {token i : Nat}
  {session : Session}

theorem Inv.granted (h : Inv Read db s) (hi : s.sessions[i]? = some session)
    (hg : Granted digest token session) :
    ∃ k since answer, session.stage = .returned since answer ∧ since ≤ k ∧
      (∃ input, s.log[k]? = some (i, input)) ∧ GrantedAt db s.log digest token k := by
  obtain ⟨owner, ms, since, acquiredAt, expiresAt, rfl⟩ := hg
  have hs := h.sound i _ hi
  cases hs with
  | returned htook =>
      obtain ⟨k, hsince, hget, hgranted⟩ := (htook _ rfl).granted
      exact ⟨k, since, _, rfl, hsince, hget, hgranted⟩

/-- Tokens follow real time although statements overlap: no two acquisitions of
a key are told the same token, and one that is sent after another has returned
is told a greater one. A fence row stays, covers every token that was told and
every record, and never decreases. -/
theorem tokens_follow_time (statements : List Statement) (before after : List Event) :
    let s := before.foldl Server.step (Server.initial empty statements)
    let t := after.foldl Server.step s
    (∀ (i j : Nat) a b digest token token', i ≠ j → t.sessions[i]? = some a → t.sessions[j]? = some b →
      Granted digest token a → Granted digest token' b → token ≠ token') ∧
    (∀ (i j : Nat) a b statement digest token token', s.sessions[i]? = some a →
      Granted digest token a → s.sessions[j]? = some ⟨statement, .waiting⟩ →
      t.sessions[j]? = some b → Granted digest token' b → token < token') ∧
    (∀ (i : Nat) a digest token, t.sessions[i]? = some a → Granted digest token a →
      ∃ fence, t.db.fences digest = some fence ∧ token ≤ fence) ∧
    (∀ digest row, t.db.records digest = some row →
      ∃ fence, t.db.fences digest = some fence ∧ row.token ≤ fence) ∧
    (∀ digest fence, s.db.fences digest = some fence →
      ∃ later, t.db.fences digest = some later ∧ fence ≤ later ∧ later ≤ 2 ^ 63 - 1) := by
  intro s t
  have hs : Inv (fun _ _ => True) empty s := (inv_run empty statements before).mono (fun _ _ _ => trivial)
  have ht : Inv (fun _ _ => True) empty t := by
    have hrun := (inv_run empty statements (before ++ after)).mono (fun _ _ _ => trivial)
    rwa [List.foldl_append] at hrun
  obtain ⟨more, hmore⟩ := run_log s after
  have hinv : Fences.Inv t.db := by
    rw [ht.replayed]
    exact run_rule (C := fun _ => True) Fences.inv_empty
      (fun db input hi _ => hi.step (db.exec_step input)) (fun _ _ => trivial)
  refine ⟨?_, ?_, ?_, hinv.covered, ?_⟩
  · intro i j a b digest token token' hne hi hj ha hb
    obtain ⟨k, _, _, _, _, ⟨input, hget⟩, hgranted⟩ := ht.granted hi ha
    obtain ⟨l, _, _, _, _, ⟨input', hget'⟩, hgranted'⟩ := ht.granted hj hb
    rcases Nat.lt_trichotomy k l with hlt | rfl | hlt
    · exact Nat.ne_of_lt (hgranted.lt hgranted' hlt)
    · rw [hget] at hget'
      cases hget'
      exact absurd rfl hne
    · exact Nat.ne_of_gt (hgranted'.lt hgranted hlt)
  · intro i j a b statement digest token token' hi ha hwaiting hj hb
    obtain ⟨k, _, _, _, _, ⟨input, hget⟩, hgranted⟩ := hs.granted hi ha
    obtain ⟨l, since, answer, hstage, hsince, _, hgranted'⟩ := ht.granted hj hb
    have hlater := run_recent hwaiting after hj
    rw [hstage] at hlater
    have hk := (List.getElem?_eq_some_iff.mp hget).1
    have hkept := hgranted.append more
    rw [← hmore] at hkept
    exact hkept.lt hgranted' (Nat.lt_of_lt_of_le hk (Nat.le_trans hlater hsince))
  · intro i a digest token hi ha
    obtain ⟨k, _, _, _, _, ⟨input, hget⟩, hgranted⟩ := ht.granted hi ha
    rw [ht.replayed]
    exact hgranted.covered (List.getElem?_eq_some_iff.mp hget).1
  · intro digest fence hf
    rw [hs.replayed, ← tables_append (Nat.le_refl _) more, ← hmore] at hf
    obtain ⟨later, hl, hle⟩ := fence_mono hf (n := t.log.length) (by rw [hmore, List.length_append]; omega)
    rw [← ht.replayed] at hl
    exact ⟨later, hl, hle, (hinv.range digest later hl).2⟩

end Runs

end GoLease.Postgres.Isolation
