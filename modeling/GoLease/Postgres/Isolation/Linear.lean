import GoLease.Postgres.Isolation.Steps

namespace GoLease.Postgres.Isolation

open Traces Pool Database

/-- What is true of a session at each stage. While rows are locked the latest
tables still give what was computed from them. -/
inductive Sound (Read : Nat → Clock → Prop) (initial : Database) (s : Server) (i : Nat) : Session → Prop
  | waiting (statement : Statement) : Sound Read initial s i ⟨statement, .waiting⟩
  | started {statement : Statement} {since : Nat} {snapshot : Database}
      (hstatement : ∀ batch doomed, statement ≠ .cleanup batch doomed)
      (hseen : Seen initial s.log since snapshot) :
      Sound Read initial s i ⟨statement, .started since snapshot⟩
  | fenced {digest owner : Bytes} {ms : Int} {since token : Nat} {snapshot : Database}
      (hseen : Seen initial s.log since snapshot) (ht : s.db.nextFence digest = some token) :
      Sound Read initial s i ⟨.acquire digest owner ms, .fenced since snapshot token⟩
  | collecting {batch since : Nat} {doomed rest taken : List (Bytes × Int)} {snapshot : Database}
      (hseen : Seen initial s.log since snapshot)
      (hown : ∀ candidate ∈ taken, Read i (frozen candidate.2))
      (heligible : ∀ candidate ∈ taken, s.db.eligible candidate = true)
      (hnodup : (taken.map Prod.fst).Nodup) (hbatch : taken.length ≤ batch)
      (hsubset : ∀ candidate ∈ taken ++ rest, candidate.1 ∈ doomed.map Prod.fst) :
      Sound Read initial s i ⟨.cleanup batch doomed, .collecting since snapshot rest taken⟩
  | idle {statement : Statement} {since : Nat} {answer : Answer}
      (htook : Took Read initial s.log i statement since answer) :
      Sound Read initial s i ⟨statement, .evaluated since none .nothing answer⟩
  | evaluated {statement : Statement} {since : Nat} {input : Clock × Statement} {written : Effect}
      {answer : Answer} (hsince : since ≤ s.log.length) (hexecutes : Executes statement input.2)
      (hown : Own (Read i) input) (hwritten : effect s.db input = written)
      (hagrees : Agrees (s.db.exec input).2 answer)
      (hlocks : ∀ digest, reads input.2 digest → written.locks digest = true) :
      Sound Read initial s i ⟨statement, .evaluated since (some input) written answer⟩
  | returned {statement : Statement} {since : Nat} {answer : Option Answer}
      (htook : ∀ a, answer = some a → Took Read initial s.log i statement since a) :
      Sound Read initial s i ⟨statement, .returned since answer⟩

/-- At most one session holds the lock. -/
def Exclusive (s : Server) (lock : Session → Bool) : Prop :=
  ∀ (i j : Nat) (a b : Session), s.sessions[i]? = some a → s.sessions[j]? = some b → i ≠ j →
    lock a = true → lock b = false

structure Inv (Read : Nat → Clock → Prop) (initial : Database) (s : Server) : Prop where
  replayed : s.db = tables initial s.log s.log.length
  sound : ∀ i session, s.sessions[i]? = some session → Sound Read initial s i session
  fences : ∀ digest, Exclusive s (Session.locksFence digest)
  records : ∀ digest, Exclusive s (Session.locksRecord digest)

section Locks

variable {s : Server} {a b : Session} {digest : Bytes} {event : Event}

/-- A lock is taken only where no session holds it. -/
theorem Moves.locksFence (h : Moves s event a b) (hb : b.locksFence digest = true) :
    a.locksFence digest = true ∨ ∀ session ∈ s.sessions, session.locksFence digest = false := by
  cases h with
  | fenced hfree ht =>
      obtain rfl := beq_iff_eq.mp hb
      exact .inr hfree
  | installed hevent hfree hi => exact .inl hb
  | @updated statement since snapshot clock key record seen hevent hfree hcounts hreads he =>
      cases statement with
      | acquire key owner ms => exact absurd rfl (hcounts key)
      | renew | validate | release | cleanup => cases hb
  | @started statement | @overlooked statement | @stale statement | @aborted statement =>
      cases statement <;> cases hb
  | scanning | refused | took | skipped | collected => cases hb

theorem Moves.locksRecord (h : Moves s event a b) (hb : b.locksRecord digest = true) :
    a.locksRecord digest = true ∨ ∀ session ∈ s.sessions, session.locksRecord digest = false := by
  cases h with
  | installed hevent hfree hi =>
      obtain rfl := beq_iff_eq.mp hb
      exact .inr hfree
  | updated hevent hfree hcounts hreads he =>
      obtain rfl := beq_iff_eq.mp hb
      exact .inr hfree
  | @took batch since doomed rest taken snapshot candidate age hfree hage hbatch he =>
      simp only [Session.locksRecord, List.map_append, List.contains_eq_mem, List.mem_append,
        decide_eq_true_eq, List.map_cons, List.map_nil, List.mem_singleton] at hb
      rcases hb with hb | rfl
      · exact .inl ((List.contains_eq_mem ..).trans (decide_eq_true hb))
      · exact .inr hfree
  | skipped | collected => exact .inl hb
  | started | scanning | fenced | refused | overlooked | stale | aborted => cases hb

/-- A lock stays exclusive when a session takes it only if it is free. -/
theorem Exclusive.set {lock : Session → Bool} {i : Nat} (h : Exclusive s lock)
    (ha : s.sessions[i]? = some a)
    (hnew : lock b = true → lock a = true ∨ ∀ session ∈ s.sessions, lock session = false) :
    Exclusive (s.set i b) lock := by
  intro k j c d hc hd hne hp
  rcases getElem?_set_cases hc with ⟨rfl, rfl⟩ | ⟨hik, hkc⟩
  · rcases getElem?_set_cases hd with ⟨rfl, rfl⟩ | ⟨hij, hjd⟩
    · exact absurd rfl hne
    · rcases hnew hp with hpa | hfree
      · exact h i j a d ha hjd hij hpa
      · exact hfree d (List.mem_of_getElem? hjd)
  · rcases getElem?_set_cases hd with ⟨rfl, rfl⟩ | ⟨hij, hjd⟩
    · cases hpd : lock d with
      | false => rfl
      | true =>
          rcases hnew hpd with hpa | hfree
          · rw [h i k a c ha hkc hik hpa] at hp
            cases hp
          · rw [hfree c (List.mem_of_getElem? hkc)] at hp
            cases hp
    · exact h k j c d hkc hjd hne hp

end Locks

section Moving

variable {Read : Nat → Clock → Prop} {initial : Database} {s : Server} {i : Nat} {a b : Session}
  {event : Event}

theorem took_now (clock : Clock) {statement : Statement} {since : Nat} {answer : Answer}
    (hreplayed : s.db = tables initial s.log s.log.length) (hsince : since ≤ s.log.length)
    (hown : Own (Read i) (clock, statement)) (he : effect s.db (clock, statement) = .nothing)
    (ha : Agrees (s.db.exec (clock, statement)).2 answer) :
    Took Read initial s.log i statement since answer := by
  rw [hreplayed] at he ha
  exact ⟨s.log.length, (clock, statement), hsince, Nat.le_refl _, .same _, hown, ha, .inr he⟩

/-- A fence only grows, so a snapshot that precedes a grantable fence was not
exhausted either. -/
theorem refusal_of_later {since : Nat} {snapshot : Database} {digest : Bytes} {token : Nat}
    (hreplayed : s.db = tables initial s.log s.log.length) (hseen : Seen initial s.log since snapshot)
    (ht : s.db.nextFence digest = some token) : snapshot.refusal digest = .contended := by
  obtain ⟨hle, rfl⟩ := hseen
  rcases refusal_cases (tables initial s.log since) digest with h | h
  · exfalso
    unfold refusal at h
    split at h
    next fence hf =>
      obtain ⟨later, hl, hfl⟩ := fence_mono hf hle
      rw [← hreplayed] at hl
      have hlt := Fences.nextFence_lt ht hl
      have hmax := (Fences.nextFence_range ht).2
      split at h
      next hge => omega
      next => cases h
    next => cases h
  · exact h

theorem cleanup_taken {db : Database} {batch : Nat} {taken : List (Bytes × Int)}
    (heligible : ∀ candidate ∈ taken, db.eligible candidate = true)
    (hnodup : (taken.map Prod.fst).Nodup) (hbatch : taken.length ≤ batch) :
    (((taken.filter db.eligible).map Prod.fst).dedup).take batch = taken.map Prod.fst := by
  rw [List.filter_eq_self.mpr heligible, hnodup.dedup, List.take_of_length_le (by rwa [List.length_map])]

theorem Sound.move (hreplayed : s.db = tables initial s.log s.log.length) (h : Sound Read initial s i a)
    (hmem : a ∈ s.sessions) (hread : ∀ clock ∈ event.readings a.statement, Read i clock)
    (hm : Moves s event a b) : Sound Read initial s i b := by
  cases hm with
  | started hstatement => exact .started hstatement ⟨Nat.le_refl _, hreplayed⟩
  | @scanning batch doomed =>
      exact .collecting ⟨Nat.le_refl _, hreplayed⟩ nofun nofun List.nodup_nil (Nat.zero_le _)
        (fun candidate hc => List.mem_map_of_mem hc)
  | fenced hfree ht =>
      cases h with
      | started _ hseen => exact .fenced hseen ht
  | @refused digest owner ms since token snapshot clock hclock hi =>
      cases h with
      | fenced hseen ht =>
          have he : effect s.db (clock, .acquire digest owner ms) = .nothing := by
            simp only [effect, ht, hi]
          refine .returned ?_
          rintro _ ⟨⟩
          refine took_now clock hreplayed hseen.1 (hread clock hclock) he ?_
          simp only [exec, acquireSQL_some ht, hi, Option.elim_none]
          exact .same _
  | @installed digest owner ms since token snapshot clock row hevent hfree hi =>
      cases h with
      | fenced hseen ht =>
          have hclock : Read i clock := hread clock (by rw [hevent]; exact List.mem_singleton_self _)
          refine .evaluated hseen.1 (.same _) hclock (by simp only [effect, ht, hi]) ?_ ?_
          · simp only [exec, acquireSQL_some ht, hi, Option.elim_some]
            cases row with
            | none =>
                simp only [acquireAnswer, refusal_contended ht, refusal_of_later hreplayed hseen ht]
                exact .same _
            | some row => exact .same _
          · rintro key rfl
            exact beq_self_eq_true _
  | overlooked clock hclock he =>
      cases h with
      | started hstatement hseen =>
          exact .idle (hseen.took (own_of_read (hread clock hclock) hstatement) he)
  | stale clock hclock he ha =>
      cases h with
      | started hstatement hseen =>
          exact .idle (took_now clock hreplayed hseen.1 (own_of_read (hread clock hclock) hstatement) he ha)
  | @aborted statement since snapshot clock hclock he ha =>
      cases h with
      | started hstatement hseen =>
          refine .returned ?_
          rintro _ ⟨⟩
          refine took_now clock hreplayed hseen.1 (own_of_read (hread clock hclock) hstatement) he ?_
          rw [ha]
          exact .same _
  | @updated statement since snapshot clock digest record seen hevent hfree hcounts hreads he =>
      have hclock : clock ∈ event.readings statement := by
        rw [hevent]
        exact mem_readings_update _ seen clock statement
      cases h with
      | started hstatement hseen =>
          refine .evaluated hseen.1 (.same _) (own_of_read (hread clock hclock) hstatement) he (.same _) ?_
          intro key hkey
          rw [hreads key hkey]
          exact beq_self_eq_true _
  | @took batch since doomed rest taken snapshot candidate age hfree hage hb he =>
      have hlocked := hfree _ hmem
      simp only [Session.locksRecord, List.contains_eq_mem, decide_eq_false_iff_not] at hlocked
      cases h with
      | collecting hseen hown heligible hnodup hbatch hsubset =>
          have hown' := forall_mem_append hown (b := (candidate.1, age)) (hread _ hage)
          refine .collecting hseen hown' (forall_mem_append heligible he) ?_ ?_ ?_
          · rw [List.map_append]
            exact hnodup.append (List.nodup_singleton _) (by simpa using hlocked)
          · rw [List.length_append]
            exact hb
          · intro c hc
            have hcandidate := hsubset candidate (by simp)
            simp only [List.append_assoc, List.mem_append, List.mem_singleton] at hc
            rcases hc with hc | rfl | hc
            · exact hsubset c (List.mem_append_left _ hc)
            · exact hcandidate
            · exact hsubset c (List.mem_append_right _ (List.mem_cons_of_mem _ hc))
  | @skipped batch since doomed rest taken snapshot candidate =>
      cases h with
      | collecting hseen hown heligible hnodup hbatch hsubset =>
          refine .collecting hseen hown heligible hnodup hbatch ?_
          intro c hc
          rcases List.mem_append.mp hc with hc | hc
          · exact hsubset c (List.mem_append_left _ hc)
          · exact hsubset c (List.mem_append_right _ (List.mem_cons_of_mem _ hc))
  | @collected batch since doomed taken snapshot clock hclock =>
      cases h with
      | collecting hseen hown heligible hnodup hbatch hsubset =>
          have hdeleted := cleanup_taken heligible hnodup hbatch
          refine .evaluated hseen.1 (.cleanup ?_) ⟨hread clock hclock, hown⟩
            (by simp only [effect, hdeleted]) ?_ ?_
          · intro key hkey
            obtain ⟨candidate, hc, rfl⟩ := List.mem_map.mp hkey
            exact hsubset candidate (List.mem_append_left _ hc)
          · simp only [exec, cleanupSQL, hdeleted, List.length_map]
            exact .same _
          · intro key hkey
            exact (List.contains_eq_mem ..).trans (decide_eq_true hkey)

/-- A step of one session that keeps the tables and takes only free locks. -/
theorem Inv.set (h : Inv Read initial s) (ha : s.sessions[i]? = some a) (hb : Sound Read initial s i b)
    (hfences : ∀ digest, b.locksFence digest = true →
      a.locksFence digest = true ∨ ∀ session ∈ s.sessions, session.locksFence digest = false)
    (hrecords : ∀ digest, b.locksRecord digest = true →
      a.locksRecord digest = true ∨ ∀ session ∈ s.sessions, session.locksRecord digest = false) :
    Inv Read initial (s.set i b) := by
  refine ⟨h.replayed, ?_, fun digest => (h.fences digest).set ha (hfences digest),
    fun digest => (h.records digest).set ha (hrecords digest)⟩
  intro j session hj
  have hold {session : Session} (hs : Sound Read initial s j session) :
      Sound Read initial (s.set i b) j session := by
    cases hs with
    | waiting => exact .waiting _
    | started hstatement hseen => exact .started hstatement hseen
    | fenced hseen ht => exact .fenced hseen ht
    | collecting hseen ho he hn hb hs => exact .collecting hseen ho he hn hb hs
    | idle htook => exact .idle htook
    | evaluated hsince hx ho hw hg hl => exact .evaluated hsince hx ho hw hg hl
    | returned htook => exact .returned htook
  rcases getElem?_set_cases hj with ⟨rfl, rfl⟩ | ⟨_, hj⟩
  · exact hold hb
  · exact hold (h.sound j session hj)

theorem Inv.move (h : Inv Read initial s) (ha : s.sessions[i]? = some a)
    (hread : ∀ clock ∈ event.readings a.statement, Read i clock) (hm : Moves s event a b) :
    Inv Read initial (s.set i b) :=
  h.set ha ((h.sound i a ha).move h.replayed (List.mem_of_getElem? ha) hread hm)
    (fun _ => hm.locksFence) (fun _ => hm.locksRecord)

theorem Inv.cancel {statement : Statement} {since : Nat} (h : Inv Read initial s)
    (ha : s.sessions[i]? = some a) : Inv Read initial (s.set i ⟨statement, .returned since none⟩) := by
  refine h.set ha (.returned nofun) ?_ nofun
  cases statement <;> exact nofun

end Moving

section Committing

variable {Read : Nat → Clock → Prop} {initial : Database} {s : Server} {i j since : Nat}
  {statement : Statement} {answer : Answer} {written : Effect} {input : Option (Clock × Statement)}
  {session : Session}

/-- The rows that another session has read under its locks are not among those
that a commit publishes. -/
theorem Inv.same (h : Inv Read initial s)
    (hi : s.sessions[i]? = some ⟨statement, .evaluated since input written answer⟩)
    (hj : s.sessions[j]? = some session) (hne : i ≠ j) :
    (∀ digest, session.locksRecord digest = true →
      (publish s.db written).records digest = s.db.records digest) ∧
    (∀ digest, session.locksFence digest = true →
      (publish s.db written).fences digest = s.db.fences digest) := by
  refine ⟨?_, ?_⟩
  · intro digest hlock
    exact publish_records (h.records digest j i _ _ hj hi hne.symm hlock)
  · intro digest hlock
    have hother := h.fences digest j i _ _ hj hi hne.symm hlock
    have hs := h.sound i _ hi
    cases hs with
    | idle => rfl
    | @evaluated _ _ input _ _ hsince hexecutes hown hwritten hagrees hlocks =>
        subst hwritten
        apply publish_fences
        intro hcounts
        obtain ⟨clock, executed⟩ := input
        cases hexecutes with
        | same =>
            cases executed with
            | acquire key owner ms =>
                obtain rfl : digest = key := hcounts
                simp [Session.locksFence] at hother
            | renew | validate | release | cleanup => exact hcounts
        | cleanup => exact hcounts

theorem Sound.commit (h : Inv Read initial s)
    (hi : s.sessions[i]? = some ⟨statement, .evaluated since input written answer⟩)
    (hj : s.sessions[j]? = some session) (hne : i ≠ j) :
    Sound Read initial (s.commit i statement since input written answer) j session := by
  obtain ⟨hrecords, hfences⟩ := h.same hi hj hne
  have hs := h.sound j session hj
  cases hs with
  | waiting => exact .waiting _
  | started hstatement hseen => exact .started hstatement (hseen.append _)
  | @fenced digest owner ms since token snapshot hseen ht =>
      refine .fenced (hseen.append _) ?_
      rw [← ht]
      exact nextFence_congr (hfences digest (beq_self_eq_true _))
  | @collecting batch since doomed rest taken snapshot hseen hown heligible hnodup hbatch hsubset =>
      refine .collecting (hseen.append _) hown ?_ hnodup hbatch hsubset
      intro candidate hc
      rw [← heligible candidate hc]
      apply eligible_congr
      apply hrecords
      simp only [Session.locksRecord, List.contains_eq_mem, decide_eq_true_eq]
      exact List.mem_map_of_mem hc
  | idle htook => exact .idle (htook.append _)
  | @evaluated statement' since' input' written' answer' hsince hexecutes hown hwritten hagrees hlocks =>
      obtain ⟨clock, executed⟩ := input'
      have hsame : Same executed s.db (publish s.db written) := by
        refine ⟨fun digest hread => hrecords digest (hlocks digest hread), ?_⟩
        intro digest hcount
        apply hfences
        cases executed with
        | acquire key owner ms =>
            obtain rfl : digest = key := hcount
            cases hexecutes
            exact beq_self_eq_true _
        | renew | validate | release | cleanup => cases hcount
      obtain ⟨heffect, hanswer⟩ := exec_congr hsame clock
      refine .evaluated ?_ hexecutes hown (heffect.trans hwritten) ?_ hlocks
      · simp only [Server.commit, List.length_append]
        omega
      · rw [show (s.commit i statement since input written answer).db = publish s.db written from rfl, hanswer]
        exact hagrees
  | returned htook => exact .returned (fun a ha => (htook a ha).append _)

/-- The commit is the point at which the statement takes effect. -/
theorem Inv.committed (h : Inv Read initial s)
    (hi : s.sessions[i]? = some ⟨statement, .evaluated since input written answer⟩) :
    (publish s.db written = tables initial (s.log ++ (input.map (fun input => (i, input))).toList)
        (s.log ++ (input.map (fun input => (i, input))).toList).length) ∧
      Took Read initial (s.log ++ (input.map (fun input => (i, input))).toList) i statement since answer := by
  have hs := h.sound i _ hi
  cases hs with
  | idle htook =>
      simp only [Option.map_none, Option.toList_none, List.append_nil]
      exact ⟨h.replayed, htook⟩
  | @evaluated _ _ input _ _ hsince hexecutes hown hwritten hagrees hlocks =>
      simp only [Option.map_some, Option.toList_some, List.length_append, List.length_singleton]
      refine ⟨?_, s.log.length, input, hsince, ?_, hexecutes, hown, ?_, .inl ?_⟩
      · rw [tables_concat, ← h.replayed, exec_effect, hwritten]
      · simp
      · rw [tables_append (Nat.le_refl _), ← h.replayed]
        exact hagrees
      · simp

theorem Inv.commit (h : Inv Read initial s)
    (hi : s.sessions[i]? = some ⟨statement, .evaluated since input written answer⟩) :
    Inv Read initial (s.commit i statement since input written answer) := by
  obtain ⟨hreplayed, htook⟩ := h.committed hi
  refine ⟨hreplayed, ?_, ?_, ?_⟩
  · intro j session hj
    rcases getElem?_set_cases hj with ⟨rfl, rfl⟩ | ⟨hne, hj⟩
    · refine .returned ?_
      rintro _ ⟨⟩
      exact htook
    · exact Sound.commit h hi hj hne
  · intro digest
    refine (h.fences digest).set hi ?_
    cases statement <;> exact nofun
  · exact fun digest => (h.records digest).set hi nofun

end Committing

section Run

variable {Read Read' : Nat → Clock → Prop} {initial : Database} {s : Server}

theorem Inv.mono (hread : ∀ i clock, Read i clock → Read' i clock) (h : Inv Read initial s) :
    Inv Read' initial s := by
  refine ⟨h.replayed, ?_, h.fences, h.records⟩
  intro i session hi
  have hs := h.sound i session hi
  cases hs with
  | waiting => exact .waiting _
  | started hstatement hseen => exact .started hstatement hseen
  | fenced hseen ht => exact .fenced hseen ht
  | collecting hseen ho he hn hb hs =>
      exact .collecting hseen (fun candidate hc => hread i _ (ho candidate hc)) he hn hb hs
  | idle htook => exact .idle (htook.mono hread)
  | evaluated hsince hx ho hw hg hl => exact .evaluated hsince hx (ho.mono (hread i)) hw hg hl
  | returned htook => exact .returned (fun a ha => (htook a ha).mono hread)

/-- The step of a session that was not held up reads the clock. -/
def Reads (s : Server) (event : Event) (i : Nat) (clock : Clock) : Prop :=
  ∃ session, s.sessions[i]? = some session ∧ event.session = i ∧ s.step event ≠ s ∧
    clock ∈ event.readings session.statement

theorem Inv.step {event : Event} (h : Inv Read initial s)
    (hread : ∀ i clock, Reads s event i clock → Read i clock) : Inv Read initial (s.step event) := by
  have hs := step_step s event
  have hreads (i : Nat) (session : Session) (hi : s.sessions[i]? = some session) (he : event.session = i)
      (hne : s.step event ≠ s) : ∀ clock ∈ event.readings session.statement, Read i clock :=
    fun clock hclock => hread i clock ⟨session, hi, he, hne, hclock⟩
  generalize s.step event = s' at hs hreads ⊢
  cases hs with
  | kept => exact h
  | @moved _ i session session' hi hm hevent =>
      refine h.move hi (hreads i session hi hevent ?_) hm
      intro hsame
      have hget : (s.set i session').sessions[i]? = some session' := getElem?_set_of_some hi session'
      rw [hsame, hi] at hget
      exact hm.ne (Option.some.inj hget)
  | committed hi => exact h.commit hi
  | cancelled hi => exact h.cancel hi

theorem inv_initial (db : Database) (statements : List Statement) :
    Inv Read db (Server.initial db statements) := by
  have hwaiting {i : Nat} {session : Session}
      (h : (Server.initial db statements).sessions[i]? = some session) :
      ∃ statement, session = ⟨statement, .waiting⟩ := by
    simp only [Server.initial, List.getElem?_map, Option.map_eq_some_iff] at h
    obtain ⟨statement, _, rfl⟩ := h
    exact ⟨statement, rfl⟩
  refine ⟨rfl, ?_, ?_, ?_⟩
  · intro i session hi
    obtain ⟨statement, rfl⟩ := hwaiting hi
    exact .waiting statement
  · intro digest i j a b ha hb hne hlock
    obtain ⟨statement, rfl⟩ := hwaiting ha
    cases statement <;> cases hlock
  · intro digest i j a b ha hb hne hlock
    obtain ⟨statement, rfl⟩ := hwaiting ha
    cases hlock

/-- The readings of the clock that a session has taken along a run. -/
def ReadBy (start : Server) (events : List Event) (i : Nat) (clock : Clock) : Prop :=
  ∃ before event after, events = before ++ event :: after ∧
    Reads (before.foldl Server.step start) event i clock

theorem inv_run (db : Database) (statements : List Statement) (events : List Event) :
    Inv (ReadBy (Server.initial db statements) events) db
      (events.foldl Server.step (Server.initial db statements)) := by
  induction events using List.reverseRecOn with
  | nil => exact inv_initial db statements
  | append_singleton events event ih =>
      rw [List.foldl_append]
      refine (ih.mono ?_).step ?_
      · rintro i clock ⟨before, earlier, after, rfl, hreads⟩
        exact ⟨before, earlier, after ++ [event], by simp, hreads⟩
      · intro i clock hreads
        exact ⟨events, event, [], rfl, hreads⟩

end Run

/-- Any number of overlapping statements under READ COMMITTED: the tables are
those of the committed statements run one after another in the order of their
commits, and every statement is answered as at one point of that order after
its snapshot and by the clock readings of its own steps, where it either commits
itself or has no effect. Only a fence that ran out meanwhile may be reported as
contention, and a record that was released or removed meanwhile as stale. -/
theorem statements_linearize (db : Database) (statements : List Statement) (events : List Event) :
    let s := events.foldl Server.step (Server.initial db statements)
    s.db = run exec db (s.log.map Prod.snd) ∧
      ∀ i statement since answer, s.sessions[i]? = some ⟨statement, .returned since (some answer)⟩ →
        Took (ReadBy (Server.initial db statements) events) db s.log i statement since answer := by
  intro s
  have h := inv_run db statements events
  refine ⟨?_, ?_⟩
  · rw [h.replayed, tables, ← List.length_map (f := Prod.snd), version_length]
  · intro i statement since answer hi
    have hs := h.sound i _ hi
    cases hs with
    | returned htook => exact htook answer rfl

end GoLease.Postgres.Isolation
