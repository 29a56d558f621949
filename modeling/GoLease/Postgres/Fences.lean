import GoLease.Postgres.Database
import GoLease.Traces

namespace GoLease.Postgres

open Traces

namespace Database

variable (db : Database)

/-- Everything one statement can do to the tables. Renewals, releases and
cleanups never touch lease_fences, and none of them changes a token. -/
inductive Step : Statement → Database → Answer → Prop
  | unchanged (statement : Statement) (answer : Answer)
      (hanswer : ∀ row, answer = .acquired row → row.outcome ≠ .ok) : Step statement db answer
  | contended {digest owner : Bytes} {ms : Int} {token : Nat} {row : AcquireRow}
      (htoken : db.nextFence digest = some token) (hrow : row.outcome ≠ .ok) :
      Step (.acquire digest owner ms) (db.setFence digest token) (.acquired row)
  | installed {digest owner : Bytes} {ms : Int} {token : Nat} {row : Row} {answer : AcquireRow}
      (htoken : db.nextFence digest = some token) (hrow : row.token = token)
      (hanswer : answer.token = token) (hok : answer.outcome = .ok) :
      Step (.acquire digest owner ms) ((db.setFence digest token).setRecord digest row)
        (.acquired answer)
  | updated (statement : Statement) {digest : Bytes} {row row' : Row} (answer : Answer)
      (hrow : db.records digest = some row) (htoken : row'.token = row.token)
      (hanswer : ∀ row, answer ≠ .acquired row) : Step statement (db.setRecord digest row') answer
  | cleaned {batch count : Nat} {doomed : List (Bytes × Int)} {records : Bytes → Option Row}
      (hrecords : ∀ digest, records digest = db.records digest ∨ records digest = none) :
      Step (.cleanup batch doomed) { db with records } (.deleted count)

theorem refusal_ne_ok (digest : Bytes) : db.refusal digest ≠ .ok := by
  unfold refusal
  split
  next => split <;> decide
  next => decide

theorem acquireSQL_step (clock : Clock) (digest owner : Bytes) (ms : Int) :
    db.Step (.acquire digest owner ms) (db.acquireSQL clock digest owner ms).1
      ((db.acquireSQL clock digest owner ms).2.elim .aborted .acquired) := by
  have hrefused : ∀ row, Answer.acquired ⟨0, clock 7, clock 8, db.refusal digest⟩ = .acquired row →
      row.outcome ≠ .ok := by
    rintro row ⟨⟩
    exact db.refusal_ne_ok digest
  unfold acquireSQL
  split
  next => exact .unchanged _ _ hrefused
  next token htoken =>
    dsimp only
    split
    next => exact .unchanged _ _ nofun
    next =>
      split
      next => exact .installed htoken rfl rfl rfl
      next =>
        split
        next =>
          split
          next => exact .unchanged _ _ nofun
          next => exact .installed htoken rfl rfl rfl
        next => exact .contended htoken (db.refusal_ne_ok digest)

theorem renewSQL_step (clock : Clock) (digest owner : Bytes) (token : Nat) (ms : Int) :
    db.Step (.renew digest owner token ms) (db.renewSQL clock digest owner token ms).1
      ((db.renewSQL clock digest owner token ms).2.elim .aborted .record) := by
  unfold renewSQL
  split
  next => exact .unchanged _ _ nofun
  next row hrow =>
    split
    next =>
      dsimp only
      split
      next => exact .unchanged _ _ nofun
      next => exact .updated _ _ hrow rfl nofun
    next => exact .unchanged _ _ nofun

theorem releaseSQL_step (clock : Clock) (digest owner : Bytes) (token : Nat) :
    db.Step (.release digest owner token) (db.releaseSQL clock digest owner token).1
      (.released (db.releaseSQL clock digest owner token).2) := by
  unfold releaseSQL
  split
  next => exact .unchanged _ _ nofun
  next row hrow =>
    split
    next => exact .updated _ _ hrow rfl nofun
    next => exact .unchanged _ _ nofun

theorem exec_step (input : Clock × Statement) :
    db.Step input.2 (db.exec input).1 (db.exec input).2 := by
  obtain ⟨clock, statement⟩ := input
  cases statement with
  | acquire digest owner ms => exact db.acquireSQL_step clock digest owner ms
  | renew digest owner token ms => exact db.renewSQL_step clock digest owner token ms
  | validate digest owner token => exact .unchanged _ _ nofun
  | release digest owner token => exact db.releaseSQL_step clock digest owner token
  | cleanup batch doomed =>
      refine .cleaned (fun digest => ?_)
      by_cases h : digest ∈ (((doomed.filter db.eligible).map Prod.fst).dedup).take batch
      · exact .inr (if_pos h)
      · exact .inl (if_neg h)

end Database

namespace Fences

open Database

variable {db db' : Database} {statement : Statement} {answer : Answer}

/-- Fences are positive bigints and no record is ahead of the fence of its key. -/
structure Inv (db : Database) : Prop where
  range : ∀ digest fence, db.fences digest = some fence → 1 ≤ fence ∧ fence ≤ maxInt64
  covered : ∀ digest row, db.records digest = some row →
    ∃ fence, db.fences digest = some fence ∧ row.token ≤ fence

theorem inv_empty : Inv Database.empty := ⟨nofun, nofun⟩

theorem nextFence_lt {digest : Bytes} {token fence : Nat} (h : db.nextFence digest = some token)
    (hf : db.fences digest = some fence) : fence < token := by
  unfold nextFence at h
  rw [hf] at h
  dsimp only at h
  split at h
  next => rw [← Option.some.inj h]; exact Nat.lt_succ_self fence
  next => cases h

theorem nextFence_range {digest : Bytes} {token : Nat}
    (ht : db.nextFence digest = some token) : 1 ≤ token ∧ token ≤ maxInt64 := by
  unfold nextFence at ht
  split at ht
  next =>
    cases ht
    decide
  next fence hf =>
    split at ht
    next hlt =>
      cases ht
      exact ⟨Nat.le_add_left 1 fence, hlt⟩
    next => cases ht

theorem step_fence (h : db.Step statement db' answer) {digest : Bytes} {fence : Nat}
    (hf : db.fences digest = some fence) : ∃ later, db'.fences digest = some later ∧ fence ≤ later := by
  have hset {key : Bytes} {token : Nat} (ht : db.nextFence key = some token) :
      ∃ later, (db.setFence key token).fences digest = some later ∧ fence ≤ later := by
    by_cases hk : digest = key
    · subst hk
      exact ⟨token, setFence_self _ _ _, Nat.le_of_lt (nextFence_lt ht hf)⟩
    · exact ⟨fence, (setFence_of_ne db hk token).trans hf, Nat.le_refl fence⟩
  cases h with
  | unchanged | updated | cleaned => exact ⟨fence, hf, Nat.le_refl fence⟩
  | contended ht => exact hset ht
  | installed ht => exact hset ht

theorem Inv.setFence (h : Inv db) {digest : Bytes} {token : Nat}
    (ht : db.nextFence digest = some token) : Inv (db.setFence digest token) := by
  refine ⟨?_, ?_⟩
  · intro key fence hf
    by_cases hk : key = digest
    · subst hk
      rw [setFence_self] at hf
      cases hf
      exact nextFence_range ht
    · rw [setFence_of_ne db hk] at hf
      exact h.range key fence hf
  · intro key row hr
    obtain ⟨fence, hf, hle⟩ := h.covered key row hr
    by_cases hk : key = digest
    · subst hk
      exact ⟨token, setFence_self _ _ _, Nat.le_trans hle (Nat.le_of_lt (nextFence_lt ht hf))⟩
    · exact ⟨fence, (setFence_of_ne db hk token).trans hf, hle⟩

theorem Inv.setRecord (h : Inv db) {digest : Bytes} {row : Row} {fence : Nat}
    (hf : db.fences digest = some fence) (hle : row.token ≤ fence) : Inv (db.setRecord digest row) := by
  refine ⟨h.range, ?_⟩
  intro key other hr
  by_cases hk : key = digest
  · subst hk
    rw [setRecord_self] at hr
    cases hr
    exact ⟨fence, hf, hle⟩
  · rw [setRecord_of_ne db hk] at hr
    exact h.covered key other hr

theorem Inv.step (h : Inv db) (hs : db.Step statement db' answer) : Inv db' := by
  cases hs with
  | unchanged => exact h
  | contended ht => exact h.setFence ht
  | installed ht hrow => exact (h.setFence ht).setRecord (setFence_self _ _ _) (Nat.le_of_eq hrow)
  | updated statement answer hrow htoken =>
      obtain ⟨fence, hf, hle⟩ := h.covered _ _ hrow
      exact h.setRecord hf (htoken ▸ hle)
  | cleaned hrecords =>
      refine ⟨h.range, ?_⟩
      intro digest row hr
      rcases hrecords digest with he | he
      · exact h.covered digest row (he.symm.trans hr)
      · cases he.symm.trans hr

/-- The token of an acquisition of this digest that was reported ok. -/
def okToken (digest : Bytes) (event : (Clock × Statement) × Answer) : Option Nat :=
  match event.1.2, event.2 with
  | .acquire requested _ _, .acquired row =>
    if requested = digest ∧ row.outcome = .ok then some row.token else none
  | _, _ => none

def okTokens (digest : Bytes) (events : List ((Clock × Statement) × Answer)) : List Nat :=
  events.filterMap (okToken digest)

/-- An acquisition reported ok carries a token above the fence it found, and
leaves it as the fence. -/
theorem step_okToken (h : db.Step statement db' answer) {clock : Clock} {digest : Bytes} {token : Nat}
    (hok : okToken digest ((clock, statement), answer) = some token) :
    db'.fences digest = some token ∧ ∀ fence, db.fences digest = some fence → fence < token := by
  cases h with
  | unchanged statement answer hanswer =>
      unfold okToken at hok
      split at hok
      next _ ha =>
        split at hok
        next hr => exact absurd hr.2 (hanswer _ ha)
        next => cases hok
      next => cases hok
  | contended ht hrow => simp [okToken, hrow] at hok
  | @installed requested owner ms next row r ht hrow hanswer hr =>
      simp only [okToken, hr, and_true] at hok
      split at hok
      next hd =>
        subst hd
        cases hok
        rw [hanswer]
        exact ⟨setFence_self _ _ _, fun fence hf => nextFence_lt ht hf⟩
      next => cases hok
  | updated statement answer hrow htoken hanswer =>
      unfold okToken at hok
      split at hok
      next _ ha => exact absurd ha (hanswer _)
      next => cases hok
  | cleaned => cases hok

theorem okTokens_append (digest : Bytes) (past : List ((Clock × Statement) × Answer))
    (event : (Clock × Statement) × Answer) :
    okTokens digest (past ++ [event]) = okTokens digest past ++ (okToken digest event).toList := by
  unfold okTokens
  rw [List.filterMap_append]
  cases h : okToken digest event <;> simp [h]

theorem okTokens_increase (digest : Bytes) (statements : List (Clock × Statement)) :
    (okTokens digest (trace exec empty statements)).Pairwise (· < ·) ∧
      ∀ token ∈ okTokens digest (trace exec empty statements),
        ∃ fence, (run exec empty statements).fences digest = some fence ∧ token ≤ fence := by
  refine history_rule (P := fun past (db : Database) => (okTokens digest past).Pairwise (· < ·) ∧
    ∀ token ∈ okTokens digest past, ∃ fence, db.fences digest = some fence ∧ token ≤ fence) ?_ ?_ statements
  · exact ⟨List.Pairwise.nil, nofun⟩
  · rintro past db input ⟨hpair, hle⟩
    have hs := db.exec_step input
    have hold : ∀ token ∈ okTokens digest past,
        ∃ fence, (db.exec input).1.fences digest = some fence ∧ token ≤ fence := by
      intro token hm
      obtain ⟨fence, hf, hle⟩ := hle token hm
      obtain ⟨later, hl, hfl⟩ := step_fence hs hf
      exact ⟨later, hl, Nat.le_trans hle hfl⟩
    rw [okTokens_append]
    cases hok : okToken digest (input, (db.exec input).2) with
    | none =>
        rw [Option.toList_none, List.append_nil]
        exact ⟨hpair, hold⟩
    | some token =>
        obtain ⟨hnew, hlt⟩ := step_okToken hs hok
        rw [Option.toList_some]
        constructor
        · rw [List.pairwise_append]
          refine ⟨hpair, List.pairwise_singleton _ _, ?_⟩
          intro earlier hm later hl
          obtain ⟨fence, hf, hle⟩ := hle earlier hm
          rw [List.mem_singleton.mp hl]
          exact Nat.lt_of_le_of_lt hle (hlt fence hf)
        · intro t hm
          rcases List.mem_append.mp hm with hm | hm
          · exact hold t hm
          · rw [List.mem_singleton.mp hm]
            exact ⟨token, hnew, Nat.le_refl token⟩

/-- Fence and ownership invariant of the schema, over any statements with any
readings of the clock. -/
theorem fences_and_ownership (statements : List (Clock × Statement)) :
    let db := run exec empty statements
    (∀ digest fence, db.fences digest = some fence → 1 ≤ fence ∧ fence ≤ 2 ^ 63 - 1) ∧
    (∀ input digest fence, db.fences digest = some fence →
      ∃ later, (db.exec input).1.fences digest = some later ∧ fence ≤ later) ∧
    (∀ digest row, db.records digest = some row →
      ∃ fence, db.fences digest = some fence ∧ row.token ≤ fence) ∧
    (∀ digest, (okTokens digest (trace exec empty statements)).Pairwise (· < ·)) ∧
    (∀ input row, (db.exec input).2 = .acquired row → row.outcome ≠ .ok →
      (db.exec input).1.records = db.records) := by
  intro db
  have h : Inv (statements.foldl (fun db input => (exec db input).1) empty) :=
    invariant_rule inv_empty (fun db input hi => hi.step (db.exec_step input)) statements
  refine ⟨h.range, fun input digest fence => step_fence (db.exec_step input), h.covered,
    fun digest => (okTokens_increase digest statements).1, ?_⟩
  intro input row hrow hne
  have hs := db.exec_step input
  rw [hrow] at hs
  generalize (db.exec input).1 = db', input.2 = statement at hs ⊢
  cases hs with
  | unchanged | contended => rfl
  | installed ht ha hb hok => exact absurd hok hne
  | updated _ _ _ _ hanswer => exact absurd rfl (hanswer row)

end Fences

end GoLease.Postgres
