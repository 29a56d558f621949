import GoLease.Memory.Superseded
import GoLease.Postgres.Cleanup
import GoLease.Valkey.Ownership

namespace GoLease.Exhaustion

open Traces

section MemoryStore

variable {store store' : Memory.Store} {key : Key} {now : Int} {ctx : Ctx} {owner : Bytes} {ttl : Int}
  {request : Request} {reply : Reply}

theorem memory_refuses (hfence : store.fence key = maxUint64) (hfree : store.Vacant key now)
    (hv : Memory.validate ctx key owner ttl = none) :
    store.exec ⟨now, ctx, .tryAcquire key owner ttl⟩ =
      (store, ⟨zeroRecord, some (wrap .errBackendUnavailable "token exhausted")⟩) := by
  cases hl : store.lookup key with
  | none =>
      rw [Memory.Store.fence, hl] at hfence
      cases hfence
  | some entry =>
      rw [Memory.Store.fence_of_lookup store hl] at hfence
      have hlive : ¬(entry.active = true ∧ now < entry.record.expiresAt) := by
        rintro ⟨ha, hlt⟩
        rcases hfree entry hl with hf | hle
        · rw [ha] at hf
          cases hf
        · omega
      simp [Memory.Store.exec, Memory.Store.tryAcquire, hv, hl, hlive, hfence, Reply.ofRecord]

theorem vacant_put {other : Key} {entry : Memory.Entry} (hfree : store.Vacant key now)
    (h : key = other → entry.active = false ∨ entry.record.expiresAt ≤ now) :
    (store.put other entry).Vacant key now := by
  intro found hl
  by_cases hk : key = other
  · subst hk
    rw [Memory.Store.lookup_put_self] at hl
    cases hl
    exact h rfl
  · rw [Memory.Store.lookup_put_of_ne _ hk] at hl
    exact hfree found hl

/-- A key whose token is the last one stays free: there is nothing to renew. -/
theorem memory_free {instant : Int} (hs : store.Step instant request store' reply)
    (hfence : store.fence key = maxUint64) (hfree : store.Vacant key now) (hle : now ≤ instant) :
    store'.Vacant key now := by
  cases hs with
  | rejected | validated | releasedAgain => exact hfree
  | acquired other owner ttl hvalid hvacant hcapacity htoken =>
      refine vacant_put hfree fun hk => ?_
      rw [← hk] at htoken
      exact absurd hfence htoken
  | renewed owned ttl current hvalid hheld =>
      refine vacant_put hfree fun hk => ?_
      obtain ⟨hl, ha, -, -, hlt⟩ := hheld
      rw [← hk] at hl
      rcases hfree current hl with hf | hexpired
      · rw [ha] at hf
        cases hf
      · omega
  | released owned current => exact vacant_put hfree fun _ => .inl rfl

end MemoryStore

section PostgresStore

open Postgres Postgres.Database

variable {store : Postgres.Store} {db : Database} {clock : Clock} {digest : Bytes} {key : Key} {now : Int}
  {ctx : Ctx} {owner : Bytes} {ttl : Int}

/-- No unexpired active row stands in the way. -/
def Unowned (db : Database) (digest : Bytes) (now : Int) : Prop :=
  ∀ row, db.records digest = some row → row.active = false ∨ row.expiresAt ≤ now

theorem nextFence_exhausted (h : db.fences digest = some maxInt64) : db.nextFence digest = none := by
  simp [nextFence, h]

theorem acquireSQL_exhausted (h : db.fences digest = some maxInt64) (clock : Clock) (owner : Bytes)
    (ms : Int) :
    db.acquireSQL clock digest owner ms = (db, some ⟨0, clock 7, clock 8, .exhausted⟩) := by
  have hrefusal : db.refusal digest = .exhausted := by simp [refusal, h]
  rw [acquireSQL, nextFence_exhausted h]
  dsimp only
  rw [hrefusal]

theorem unowned_setRecord {other : Bytes} {row : Row} (hfree : Unowned db digest now)
    (h : digest = other → row.active = false ∨ row.expiresAt ≤ now) :
    Unowned (db.setRecord other row) digest now := by
  intro found hr
  by_cases hd : digest = other
  · subst hd
    rw [setRecord_self] at hr
    cases hr
    exact h rfl
  · rw [setRecord_of_ne _ hd] at hr
    exact hfree found hr

theorem acquireSQL_unowned (hfence : db.fences digest = some maxInt64) (hfree : Unowned db digest now)
    (clock : Clock) (other owner : Bytes) (ms : Int) :
    Unowned (db.acquireSQL clock other owner ms).1 digest now := by
  by_cases hd : digest = other
  · rw [← hd, acquireSQL_exhausted hfence]
    exact hfree
  · unfold acquireSQL
    split
    next => exact hfree
    next token ht =>
      have hset : Unowned (db.setFence other token) digest now := hfree
      dsimp only
      split
      next => exact hfree
      next =>
        split
        next => exact unowned_setRecord hset (fun he => absurd he hd)
        next =>
          split
          next =>
            split
            next => exact hfree
            next => exact unowned_setRecord hset (fun he => absurd he hd)
          next => exact hset

theorem renewSQL_unowned (hfree : Unowned db digest now) (hclock : ∀ i, now ≤ clock i)
    (other owner : Bytes) (token : Nat) (ms : Int) :
    Unowned (db.renewSQL clock other owner token ms).1 digest now := by
  unfold renewSQL
  split
  next => exact hfree
  next row hr =>
    split
    next hcurrent =>
      dsimp only
      split
      next => exact hfree
      next =>
        refine unowned_setRecord hfree fun hd => ?_
        rw [← hd] at hr
        have hlt := hclock 2
        rcases hfree row hr with hf | hle
        · exact .inl hf
        · omega
    next => exact hfree

theorem releaseSQL_unowned (hfree : Unowned db digest now) (other owner : Bytes) (token : Nat) :
    Unowned (db.releaseSQL clock other owner token).1 digest now := by
  unfold releaseSQL
  split
  next => exact hfree
  next =>
    split
    next => exact unowned_setRecord hfree (fun _ => .inl rfl)
    next => exact hfree

theorem exec_unowned (hfence : db.fences digest = some maxInt64) (hfree : Unowned db digest now)
    (hclock : ∀ i, now ≤ clock i) (statement : Statement) :
    Unowned (db.exec (clock, statement)).1 digest now := by
  cases statement with
  | acquire other owner ms => exact acquireSQL_unowned hfence hfree clock other owner ms
  | renew other owner token ms => exact renewSQL_unowned hfree hclock other owner token ms
  | validate => exact hfree
  | release other owner token => exact releaseSQL_unowned hfree other owner token
  | cleanup batch doomed =>
      intro row hr
      rcases cleanupSQL_records db batch doomed digest with he | ⟨he, -⟩
      · exact hfree row (he.symm.trans hr)
      · cases he.symm.trans hr

section Calls

variable {P : Database → Prop}

theorem query_rule {α : Type} (store : Postgres.Store) (owner : Bytes) {result : Database × Option α}
    (h : P db) (hresult : P result.1) : P (store.query db owner result).1 := by
  unfold Postgres.Store.query
  split
  next => exact hresult
  next => exact h

/-- What every statement keeps is kept by every call of the store. -/
theorem call_rule (h : P db) (hexec : ∀ statement, P (db.exec (clock, statement)).1) (ctx : Ctx)
    (request : Request) : P (store.exec clock db ctx request).1 := by
  cases request with
  | tryAcquire key owner ttl =>
      have hquery := query_rule store owner h
        (hexec (.acquire (store.digest key) owner (milliseconds ttl)))
      simp only [Postgres.Store.exec, Postgres.Store.tryAcquire]
      split
      next => exact h
      next =>
        generalize store.query db owner _ = result at hquery ⊢
        obtain ⟨db', rows⟩ := result
        cases rows with
        | error err => exact hquery
        | ok row =>
            dsimp only
            split
            next => exact hquery
            next => exact hquery
            next => split <;> exact hquery
  | renew owned ttl =>
      have hquery := query_rule store owned.owner h
        (hexec (.renew (store.digest owned.key) owned.owner owned.token (milliseconds ttl)))
      simp only [Postgres.Store.exec, Postgres.Store.renew]
      split
      next => exact h
      next =>
        generalize store.query db owned.owner _ = result at hquery ⊢
        obtain ⟨db', rows⟩ := result
        dsimp only
        split
        next => split <;> exact hquery
        next => split <;> exact hquery
  | validate owned => exact h
  | release owned =>
      have hquery (outcome : ReleaseOutcome) : P (store.query db owned.owner
          ((db.releaseSQL clock (store.digest owned.key) owned.owner owned.token).1, some outcome)).1 :=
        query_rule store owned.owner h (hexec (.release (store.digest owned.key) owned.owner owned.token))
      simp only [Postgres.Store.exec, Postgres.Store.release]
      split
      next => exact h
      next =>
        have hquery := hquery (db.releaseSQL clock (store.digest owned.key) owned.owner owned.token).2
        generalize store.query db owned.owner _ = result at hquery ⊢
        obtain ⟨db', rows⟩ := result
        cases rows with
        | error err => exact hquery
        | ok outcome => cases outcome <;> exact hquery

theorem cleanup_rule (h : P db) (hexec : ∀ statement, P (db.exec (clock, statement)).1) (ctx : Ctx)
    (batch : Nat) (doomed : List (Bytes × Int)) : P (Postgres.Store.cleanup db ctx batch doomed).1 := by
  have hcleanup : P (db.cleanupSQL batch doomed).1 := hexec (.cleanup batch doomed)
  unfold Postgres.Store.cleanup
  split
  next => exact h
  next =>
    split
    next => exact h
    next =>
      dsimp only
      split <;> exact hcleanup

end Calls

/-- The invariant of the fences, and that none has fallen. -/
def Risen (db later : Database) : Prop :=
  Fences.Inv later ∧ ∀ digest, (db.fences digest).getD 0 ≤ (later.fences digest).getD 0

theorem risen_exec (h : Fences.Inv db) (clock : Clock) (statement : Statement) :
    Risen db (db.exec (clock, statement)).1 := by
  have hs := db.exec_step (clock, statement)
  refine ⟨h.step hs, ?_⟩
  intro digest
  cases hf : db.fences digest with
  | none => exact Nat.zero_le _
  | some fence =>
      obtain ⟨later, hl, hle⟩ := Fences.step_fence hs hf
      rw [hl]
      exact hle

theorem fences_of_getD (h : (db.fences digest).getD 0 = maxInt64) : db.fences digest = some maxInt64 := by
  cases hf : db.fences digest with
  | none =>
      rw [hf] at h
      cases h
  | some fence =>
      rw [hf] at h
      exact congrArg some h

/-- An owner that the server does not read as text fails before the fence is. -/
theorem postgres_refuses (hfence : db.fences (store.digest key) = some maxInt64)
    (hv : Postgres.validate ctx key owner 1 ttl = none) :
    store.exec clock db ctx (.tryAcquire key owner ttl) =
      (db, ⟨zeroRecord, some (if store.isText owner then
          wrap .errBackendUnavailable "postgres fence exhausted"
        else Postgres.classify ctx (.foreign "invalid byte sequence") true)⟩) := by
  simp only [Postgres.Store.exec, Postgres.Store.tryAcquire, hv, acquireSQL_exhausted hfence,
    Postgres.Store.query]
  cases store.isText owner with
  | true => rfl
  | false => rfl

end PostgresStore

section ValkeyStore

open Valkey Valkey.Script Valkey.Store

variable {store : Valkey.Store} {keys keys' : Keyspace} {us ms : Nat} {key : Key} {ctx : Ctx} {owner : Bytes}
  {ttl : Int} {request : Request} {reply : Reply}

theorem valkey_refuses (hw : store.WellFormed keys) (hfence : store.fence keys key = 2 ^ 63 - 1)
    (hfree : keys.find (us / 1000) (store.leaseKey key) = none)
    (hv : Valkey.validate ctx key owner 1 ttl = none) :
    store.exec (nativeExecutor us) keys ctx (.tryAcquire key owner ttl) =
      (keys, ⟨zeroRecord, some (Valkey.classify ctx
        (.foreign "ERR increment or decrement would overflow") true)⟩) := by
  have hscript : (script .opAcquire (store.keys key) [owner, formatMilliseconds ttl]).exec us keys =
      (.error "ERR increment or decrement would overflow", keys) :=
    acquireScript_overflow owner _ hfree (hw.counter key) (Nat.le_of_eq hfence.symm)
  simp only [Store.exec, Store.tryAcquire, hv, nativeExecutor, hscript]
  rfl

theorem find_later {ms' : Nat} {lease : Bytes} (h : keys.find ms lease = none) (hle : ms ≤ ms') :
    keys.find ms' lease = none := by
  rw [Keyspace.find, Option.filter_eq_none_iff] at h ⊢
  intro item hi hlive
  refine h item hi ?_
  unfold Item.live at hlive ⊢
  cases hd : item.expires with
  | none => rfl
  | some deadline =>
      rw [hd] at hlive
      have hlt : ms' < deadline := of_decide_eq_true hlive
      exact decide_eq_true (Nat.lt_of_le_of_lt hle hlt)

theorem valkey_free (hs : store.Step us keys request (keys', reply))
    (hfence : store.fence keys key = 2 ^ 63 - 1) (hfree : keys.find ms (store.leaseKey key) = none)
    (hle : ms ≤ us / 1000) : keys'.find ms (store.leaseKey key) = none := by
  cases hs with
  | kept => exact hfree
  | @acquired other owner ttl hvalid hl hn =>
      have hne : store.leaseKey key ≠ store.leaseKey other := by
        intro he
        have hsame : store.fence keys key = store.fence keys other :=
          congrArg keys.count (counterKey_eq_of_leaseKey he)
        omega
      rw [find_update_of_ne _ hne, find_update_of_ne _ counterKey_ne_leaseKey.symm]
      exact hfree
  | @renewed owned ttl acquired expires deadline _ hvalid hl =>
      have hne : store.leaseKey key ≠ store.leaseKey owned.key := by
        intro he
        rw [← he, find_later hfree hle] at hl
        cases hl
      rw [find_update_of_ne _ hne]
      exact hfree
  | @released owned =>
      by_cases he : store.leaseKey key = store.leaseKey owned.key
      · rw [he, find_update_self]
        rfl
      · rw [find_update_of_ne _ he]
        exact hfree

end ValkeyStore

/-- The stores, each with the state it works on. -/
inductive System
  | memory (store : Memory.Store)
  | postgres (store : Postgres.Store) (db : Postgres.Database)
  | valkey (store : Valkey.Store) (keys : Valkey.Keyspace)

/-- A call of the Backend interface with its readings of the clock, of which the
memory store and Valkey take one; or a cleanup, which only PostgreSQL has. -/
inductive Event
  | call (clock : Postgres.Clock) (ctx : Ctx) (request : Request) (hr : request.Representable)
  | cleanup (ctx : Ctx) (batch : Nat) (doomed : List (Bytes × Int))

def Event.NotBefore (now : Int) : Event → Prop
  | .call clock _ _ _ => ∀ i, now ≤ clock i
  | .cleanup _ _ _ => True

namespace System

def exec (clock : Postgres.Clock) (ctx : Ctx) (request : Request) : System → System × Reply
  | .memory store =>
    let result := store.exec ⟨clock 0, ctx, request⟩
    (.memory result.1, result.2)
  | .postgres store db =>
    let result := store.exec clock db ctx request
    (.postgres store result.1, result.2)
  | .valkey store keys =>
    let result := store.serve keys ⟨clock 0, ctx, request⟩
    (.valkey store result.1, result.2)

def cleanup (ctx : Ctx) (batch : Nat) (doomed : List (Bytes × Int)) : System → System
  | .postgres store db => .postgres store (Postgres.Store.cleanup db ctx batch doomed).1
  | s => s

def step (s : System) : Event → System
  | .call clock ctx request _ => (s.exec clock ctx request).1
  | .cleanup ctx batch doomed => s.cleanup ctx batch doomed

def Fresh : System → Prop
  | .memory store => ∃ maxKeys, Memory.new maxKeys = .ok store
  | .postgres _ db => db = .empty
  | .valkey _ keys => keys = fun _ => none

def limit : System → Nat
  | .memory _ => maxUint64
  | .postgres _ _ => Postgres.maxInt64
  | .valkey _ _ => 2 ^ 63 - 1

def fence (key : Key) : System → Nat
  | .memory store => store.fence key
  | .postgres store db => (db.fences (store.digest key)).getD 0
  | .valkey store keys => store.fence keys key

/-- No unexpired active lease of the key exists at the reading. -/
def Free (key : Key) (now : Int) : System → Prop
  | .memory store => store.Vacant key now
  | .postgres store db => Unowned db (store.digest key) now
  | .valkey store keys => keys.find ((now / 1000).toNat / 1000) (store.leaseKey key) = none

/-- The arguments of TryAcquire pass the store's own checks. -/
def Accepts (ctx : Ctx) (key : Key) (owner : Bytes) (ttl : Int) : System → Prop
  | .memory _ => Memory.validate ctx key owner ttl = none
  | .postgres _ _ => Postgres.validate ctx key owner 1 ttl = none
  | .valkey _ _ => Valkey.validate ctx key owner 1 ttl = none

/-- The store itself finds the fence exhausted, before anything fails on the way. -/
def Detects (owner : Bytes) : System → Prop
  | .memory _ => True
  | .postgres store _ => store.isText owner = true
  | .valkey _ _ => False

def Sound : System → Prop
  | .memory store => ∀ key, store.fence key ≤ maxUint64
  | .postgres _ db => Postgres.Fences.Inv db
  | .valkey store keys => store.WellFormed keys

variable {s : System} {key : Key}

theorem sound_fresh (h : s.Fresh) : s.Sound := by
  cases s with
  | memory store =>
      obtain ⟨maxKeys, hnew⟩ := h
      obtain rfl := Memory.new_ok hnew
      exact fun key => Nat.zero_le _
  | postgres store db =>
      obtain rfl : db = .empty := h
      exact Postgres.Fences.inv_empty
  | valkey store keys =>
      obtain rfl : keys = fun _ => none := h
      exact Valkey.Store.wellFormed_empty

theorem Sound.fence_le (h : s.Sound) (key : Key) : s.fence key ≤ s.limit := by
  cases s with
  | memory store => exact h key
  | postgres store db =>
      change (db.fences (store.digest key)).getD 0 ≤ Postgres.maxInt64
      cases hf : db.fences (store.digest key) with
      | none => exact Nat.zero_le _
      | some fence => exact (h.range _ fence hf).2
  | valkey store keys => exact Nat.le_sub_one_of_lt (h.bound key)

/-- No event lowers a fence. -/
theorem Sound.step (h : s.Sound) (event : Event) :
    (s.step event).Sound ∧ ∀ key, s.fence key ≤ (s.step event).fence key := by
  cases s with
  | memory store =>
      cases event with
      | call clock ctx request =>
          have hs := store.exec_step ⟨clock 0, ctx, request⟩
          exact ⟨fun key => (Memory.History.step_fence_le hs (h key)).2,
            fun key => (Memory.History.step_fence_le hs (h key)).1⟩
      | cleanup => exact ⟨h, fun key => Nat.le_refl _⟩
  | postgres store db =>
      have hkept : Risen db db := ⟨h, fun digest => Nat.le_refl _⟩
      cases event with
      | call clock ctx request =>
          obtain ⟨hinv, hle⟩ : Risen db (store.exec clock db ctx request).1 :=
            call_rule hkept (risen_exec h clock) ctx request
          exact ⟨hinv, fun key => hle (store.digest key)⟩
      | cleanup ctx batch doomed =>
          obtain ⟨hinv, hle⟩ : Risen db (Postgres.Store.cleanup db ctx batch doomed).1 :=
            cleanup_rule hkept (risen_exec h (Postgres.frozen 0)) ctx batch doomed
          exact ⟨hinv, fun key => hle (store.digest key)⟩
  | valkey store keys =>
      cases event with
      | call clock ctx request hr =>
          have hs := Valkey.Store.serve_step h ⟨clock 0, ctx, request⟩ hr
          exact ⟨Valkey.Store.WellFormed.step h hs, fun key => hs.fence_le key⟩
      | cleanup => exact ⟨h, fun key => Nat.le_refl _⟩

theorem Free.later {now later : Int} (h : s.Free key now) (hle : now ≤ later) : s.Free key later := by
  cases s with
  | memory store => exact fun entry hl => (h entry hl).imp_right (Int.le_trans · hle)
  | postgres store db => exact fun row hr => (h row hr).imp_right (Int.le_trans · hle)
  | valkey store keys => exact find_later h (by omega)

theorem Free.step {now : Int} (h : s.Free key now) (hsound : s.Sound) (hfence : s.fence key = s.limit)
    {event : Event} (hevent : event.NotBefore now) : (s.step event).Free key now := by
  cases s with
  | memory store =>
      cases event with
      | call clock ctx request =>
          exact memory_free (store.exec_step ⟨clock 0, ctx, request⟩) hfence h (hevent 0)
      | cleanup => exact h
  | postgres store db =>
      have hmax := fences_of_getD hfence
      cases event with
      | call clock ctx request =>
          exact call_rule (P := fun db => Unowned db (store.digest key) now) h
            (exec_unowned hmax h hevent) ctx request
      | cleanup ctx batch doomed =>
          have hclock : ∀ i, now ≤ Postgres.frozen now i := fun _ => Int.le_refl _
          exact cleanup_rule (P := fun db => Unowned db (store.digest key) now) h
            (exec_unowned hmax h hclock) ctx batch doomed
  | valkey store keys =>
      cases event with
      | call clock ctx request hr =>
          have hle : now ≤ clock 0 := hevent 0
          have hms : (now / 1000).toNat / 1000 ≤ (clock 0 / 1000).toNat / 1000 := by omega
          exact valkey_free (Valkey.Store.serve_step hsound ⟨clock 0, ctx, request⟩ hr) hfence h hms
      | cleanup => exact h

/-- The same store over another state. -/
inductive Alike : System → System → Prop
  | memory (store later : Memory.Store) : Alike (.memory store) (.memory later)
  | postgres (store : Postgres.Store) (db later : Postgres.Database) :
      Alike (.postgres store db) (.postgres store later)
  | valkey (store : Valkey.Store) (keys later : Valkey.Keyspace) :
      Alike (.valkey store keys) (.valkey store later)

theorem alike_step (s : System) (event : Event) : Alike s (s.step event) := by
  cases s with
  | memory => cases event <;> exact .memory _ _
  | postgres => cases event <;> exact .postgres _ _ _
  | valkey => cases event <;> exact .valkey _ _ _

theorem Alike.trans {t u : System} (h : Alike s t) (h' : Alike t u) : Alike s u := by
  cases h with
  | memory =>
      cases h'
      exact .memory _ _
  | postgres =>
      cases h'
      exact .postgres _ _ _
  | valkey =>
      cases h'
      exact .valkey _ _ _

theorem alike_run (s : System) (events : List Event) : Alike s (events.foldl step s) := by
  refine invariant_rule ?_ (fun t event h => h.trans (alike_step t event)) events
  cases s with
  | memory => exact .memory _ _
  | postgres => exact .postgres _ _ _
  | valkey => exact .valkey _ _ _

theorem Alike.limit {t : System} (h : Alike s t) : t.limit = s.limit := by cases h <;> rfl

theorem Alike.accepts {t : System} (h : Alike s t) (ctx : Ctx) (key : Key) (owner : Bytes) (ttl : Int) :
    t.Accepts ctx key owner ttl = s.Accepts ctx key owner ttl := by cases h <;> rfl

theorem Alike.detects {t : System} (h : Alike s t) (owner : Bytes) : t.Detects owner = s.Detects owner := by
  cases h <;> rfl

/-- A fence that has reached its limit stays there. -/
theorem exhausted_run (hsound : s.Sound) (hfence : s.fence key = s.limit) (events : List Event) :
    (events.foldl step s).Sound ∧ (events.foldl step s).fence key = (events.foldl step s).limit := by
  refine invariant_rule (P := fun t : System => t.Sound ∧ t.fence key = t.limit) ⟨hsound, hfence⟩ ?_ events
  rintro t event ⟨ht, hf⟩
  obtain ⟨ht', hle⟩ := ht.step event
  have hmax := ht'.fence_le key
  have hmin := hle key
  rw [(alike_step t event).limit] at hmax ⊢
  exact ⟨ht', by omega⟩

theorem free_run {now : Int} (hsound : s.Sound) (hfence : s.fence key = s.limit) (hfree : s.Free key now)
    {events : List Event} (hevents : ∀ event ∈ events, event.NotBefore now) :
    (events.foldl step s).Free key now := by
  induction events generalizing s with
  | nil => exact hfree
  | cons event events ih =>
      obtain ⟨hnext, hf⟩ := exhausted_run hsound hfence [event]
      have hstep : (s.step event).Free key now := hfree.step hsound hfence (hevents event (List.mem_cons_self ..))
      exact ih hnext hf hstep (fun e he => hevents e (List.mem_cons_of_mem _ he))

/-- A definite refusal: the caller knows that nothing has happened. -/
def Definite (err : Error) : Prop :=
  err.is .errBackendUnavailable = true ∧ err.is .errAmbiguousOutcome = false

theorem refuses (hsound : s.Sound) (hfence : s.fence key = s.limit) {clock : Postgres.Clock}
    (hfree : s.Free key (clock 0)) {ctx : Ctx} {owner : Bytes} {ttl : Int}
    (hv : s.Accepts ctx key owner ttl) :
    ∃ err, s.exec clock ctx (.tryAcquire key owner ttl) = (s, ⟨zeroRecord, some err⟩) ∧
      (Definite err ↔ s.Detects owner) := by
  cases s with
  | memory store =>
      have hexec := memory_refuses hfence hfree hv
      simp only [exec, hexec]
      exact ⟨_, rfl, ⟨fun _ => trivial, fun _ => ⟨rfl, rfl⟩⟩⟩
  | postgres store db =>
      have hexec : store.exec clock db ctx (.tryAcquire key owner ttl) = _ :=
        postgres_refuses (fences_of_getD hfence) hv
      simp only [exec, hexec]
      refine ⟨_, rfl, ?_⟩
      change _ ↔ store.isText owner = true
      cases store.isText owner with
      | true => exact ⟨fun _ => rfl, fun _ => ⟨rfl, rfl⟩⟩
      | false => exact ⟨fun h => (nomatch h.1), nofun⟩
  | valkey store keys =>
      -- The error of INCR comes through the classifier of failed mutations.
      have hexec : store.serve keys ⟨clock 0, ctx, .tryAcquire key owner ttl⟩ = _ :=
        valkey_refuses hsound hfence hfree hv
      simp only [exec, hexec]
      exact ⟨_, rfl, ⟨fun h => (nomatch h.1), False.elim⟩⟩

/-- A key whose fence has reached the limit is never acquired again, and its
state stays as it is; but only the memory store and PostgreSQL say so. -/
theorem token_exhaustion (hs : s.Fresh) (before : List Event) {now : Int}
    (hfence : (before.foldl step s).fence key = s.limit) (hfree : (before.foldl step s).Free key now)
    (after : List Event) :
    let t := (before ++ after).foldl step s
    t.fence key = s.limit ∧
      ((∀ event ∈ after, event.NotBefore now) → ∀ later, now ≤ later → t.Free key later) ∧
      ∀ clock ctx owner ttl, t.Free key (clock 0) → s.Accepts ctx key owner ttl →
        ∃ err, t.exec clock ctx (.tryAcquire key owner ttl) = (t, ⟨zeroRecord, some err⟩) ∧
          (Definite err ↔ s.Detects owner) := by
  intro t
  have hsound : (before.foldl step s).Sound :=
    invariant_rule (sound_fresh hs) (fun t event h => (h.step event).1) before
  rw [← (alike_run s before).limit] at hfence
  obtain ⟨hsound', hfence'⟩ := exhausted_run hsound hfence after
  have ht : t = after.foldl step (before.foldl step s) := List.foldl_append
  refine ⟨?_, ?_, ?_⟩
  · rw [ht, hfence', (alike_run _ after).limit, (alike_run s before).limit]
  · intro hafter later hle
    rw [ht]
    exact (free_run hsound hfence hfree hafter).later hle
  · intro clock ctx owner ttl hfree' hv
    have halike : Alike s t := alike_run s (before ++ after)
    rw [← halike.accepts] at hv
    rw [← halike.detects]
    rw [← ht] at hsound' hfence'
    exact refuses hsound' hfence' hfree' hv

/-- An acquisition for a millisecond, and its release. -/
def taking (key : Key) : Event :=
  .call (Postgres.frozen 0) none (.tryAcquire key [97] millisecond) (show millisecond < 2 ^ 63 by decide)

def giving (key : Key) (token : Nat) : Event :=
  .call (Postgres.frozen 0) none (.release ⟨key, [97], token, 0, millisecond⟩) trivial

/-- The store can grant the key at all. -/
def Room (key : Key) : System → Prop
  | .memory store => store.lookup key = none → store.entries.keys.length < store.maxKeys
  | .postgres store _ => store.isText [97] = true
  | .valkey _ _ => True

theorem memory_round {store : Memory.Store} (hkey : key.value ≠ []) (hroom : (memory store).Room key)
    (hlt : store.fence key < maxUint64) (hfree : store.Vacant key 0) :
    let t := ((memory store).step (taking key)).step (giving key (store.fence key + 1))
    t.fence key = store.fence key + 1 ∧ t.Free key 0 ∧ t.Room key := by
  intro t
  have hv : Memory.validate none key [97] millisecond = none := by
    simp [Memory.validate, Memory.validateIdentity, hkey, millisecond]
  have hidentity : Memory.validateIdentity none key [97] (store.fence key + 1) = none :=
    Memory.Store.validateIdentity_of_validate hv (Nat.succ_ne_zero _)
  let record : Record := ⟨key, [97], store.fence key + 1, 0, 0 + millisecond⟩
  have hgive : (store.put key ⟨record, true⟩).exec
      ⟨0, none, .release ⟨key, [97], store.fence key + 1, 0, millisecond⟩⟩ =
        ((store.put key ⟨record, true⟩).put key ⟨record, false⟩, .ofErr none) :=
    Memory.Store.exec_release_of_active _ hidentity (Memory.Store.lookup_put_self ..) rfl rfl rfl
  have ht : t = memory ((store.put key ⟨record, true⟩).put key ⟨record, false⟩) := by
    change memory ((store.exec ⟨0, none, .tryAcquire key [97] millisecond⟩).1.exec _).1 = _
    rw [Memory.Store.exec_tryAcquire_granted hv hfree hroom hlt]
    exact congrArg (fun result => memory result.1) hgive
  have hlookup := Memory.Store.lookup_put_self (store.put key ⟨record, true⟩) key ⟨record, false⟩
  rw [ht]
  refine ⟨Memory.Store.fence_of_lookup _ hlookup, ?_, ?_⟩
  · intro entry hl
    cases hlookup.symm.trans hl
    exact .inl rfl
  · intro hl
    cases hlookup.symm.trans hl

theorem nextFence_of_lt {db : Postgres.Database} {digest : Bytes}
    (h : (db.fences digest).getD 0 < Postgres.maxInt64) :
    db.nextFence digest = some ((db.fences digest).getD 0 + 1) := by
  unfold Postgres.Database.nextFence
  cases hf : db.fences digest with
  | none => rfl
  | some fence =>
      rw [hf] at h
      exact if_pos h

theorem postgres_round {store : Postgres.Store} {db : Postgres.Database} (hkey : key.value ≠ [])
    (htext : store.isText [97] = true) (hlt : (postgres store db).fence key < Postgres.maxInt64)
    (hfree : Unowned db (store.digest key) 0) :
    let t := ((postgres store db).step (taking key)).step
      (giving key ((postgres store db).fence key + 1))
    t.fence key = (postgres store db).fence key + 1 ∧ t.Free key 0 ∧ t.Room key := by
  have hnext : db.nextFence (store.digest key) = some ((postgres store db).fence key + 1) :=
    nextFence_of_lt hlt
  generalize (postgres store db).fence key = n at hlt hnext ⊢
  intro t
  have hv : Postgres.validate none key [97] 1 millisecond = none := by
    simp [Postgres.validate, hkey, Postgres.maxInt64]
  have hv' : Postgres.validate none key [97] (n + 1) millisecond = none := by
    have hle : ¬Postgres.maxInt64 < n + 1 := by omega
    simp [Postgres.validate, hkey, hle]
  let row : Postgres.Row :=
    ⟨[97], n + 1, 0, 0 + Postgres.milliseconds millisecond * millisecond, true, 0⟩
  let db' := (db.setFence (store.digest key) (n + 1)).setRecord (store.digest key) row
  let released : Postgres.Row := { row with active := false, updatedAt := 0 }
  have htake : store.exec (Postgres.frozen 0) db none (.tryAcquire key [97] millisecond) = (db', _) :=
    Postgres.Store.exec_tryAcquire_ok hv htext (Nat.succ_pos n) (by decide)
      (Postgres.Database.acquireSQL_granted hnext (by decide) (by decide) hfree)
  have hgive : store.exec (Postgres.frozen 0) db' none (.release ⟨key, [97], n + 1, 0, millisecond⟩) =
      (db'.setRecord (store.digest key) released, _) :=
    Postgres.Store.exec_release_nil hv' htext
      (Postgres.Database.releaseSQL_released (Postgres.Database.setRecord_self ..) rfl rfl rfl) nofun
  have ht : t = postgres store (db'.setRecord (store.digest key) released) := by
    change postgres store (store.exec _ (store.exec _ db none (.tryAcquire key [97] millisecond)).1 none
      (.release ⟨key, [97], n + 1, 0, millisecond⟩)).1 = _
    rw [htake, hgive]
  rw [ht]
  refine ⟨?_, ?_, htext⟩
  · change ((db.setFence (store.digest key) (n + 1)).fences (store.digest key)).getD 0 = n + 1
    rw [Postgres.Database.setFence_self]
    rfl
  · intro found hr
    rw [Postgres.Database.setRecord_self] at hr
    cases hr
    exact .inl rfl

theorem valkey_round {store : Valkey.Store} {keys : Valkey.Keyspace} (hsound : store.WellFormed keys)
    (hkey : key.value ≠ []) (hlt : store.fence keys key < 2 ^ 63 - 1)
    (hfree : keys.find 0 (store.leaseKey key) = none) :
    let t := ((valkey store keys).step (taking key)).step (giving key (store.fence keys key + 1))
    t.fence key = store.fence keys key + 1 ∧ t.Free key 0 ∧ t.Room key := by
  have hcounter := hsound.counter key
  generalize store.fence keys key = n at hlt hcounter ⊢
  intro t
  have hid : ValidIdentity key [97] 1 := ⟨hkey, by decide, by decide, by decide, by decide⟩
  have hid' : ValidIdentity key [97] (n + 1) := ⟨hkey, by decide, by decide, Nat.succ_pos n, by omega⟩
  have hms : WholeMilliseconds millisecond 1 := ⟨by decide, by decide, by decide⟩
  let item : Valkey.Item := ⟨Valkey.leaseHash [97] (Decimal.format (n + 1)) (Valkey.tostring 0)
    (Valkey.tostring 1), some 1⟩
  let keys' : Valkey.Keyspace :=
    Function.update (Function.update keys (store.counterKey key) (Valkey.counterItem (n + 1)))
      (store.leaseKey key) (some item)
  have htake : store.exec (Valkey.nativeExecutor 0) keys none (.tryAcquire key [97] millisecond) =
      (keys', _) :=
    Valkey.Store.exec_tryAcquire_granted hid hms hfree hcounter hlt (by decide)
  have hfound : Valkey.Keyspace.find keys' (0 / 1000) (store.leaseKey key) = some item :=
    Valkey.Script.find_update_self ..
  have hgive : store.exec (Valkey.nativeExecutor 0) keys' none
      (.release ⟨key, [97], n + 1, 0, millisecond⟩) =
        (Function.update keys' (store.leaseKey key) none, _) :=
    Valkey.Store.exec_release hid' (Valkey.releaseScript_released hfound)
  have ht : t = valkey store (Function.update keys' (store.leaseKey key) none) := by
    change valkey store (store.exec _ (store.exec (Valkey.nativeExecutor 0) keys none
      (.tryAcquire key [97] millisecond)).1 none (.release ⟨key, [97], n + 1, 0, millisecond⟩)).1 = _
    rw [htake]
    exact congrArg (fun result => valkey store result.1) hgive
  rw [ht]
  refine ⟨?_, Valkey.Script.find_update_self .., trivial⟩
  change store.fence _ key = n + 1
  rw [Valkey.Store.fence_update_leaseKey, Valkey.Store.fence_update_leaseKey,
    Valkey.Store.fence_update_counterKey, if_pos rfl]

theorem round (hsound : s.Sound) (hkey : key.value ≠ []) (hroom : s.Room key) (hlt : s.fence key < s.limit)
    (hfree : s.Free key 0) :
    let t := (s.step (taking key)).step (giving key (s.fence key + 1))
    t.fence key = s.fence key + 1 ∧ t.Free key 0 ∧ t.Room key := by
  cases s with
  | memory store => exact memory_round hkey hroom hlt hfree
  | postgres store db => exact postgres_round hkey hroom hlt hfree
  | valkey store keys => exact valkey_round hsound hkey hlt hfree

theorem fresh_start (hs : s.Fresh) : s.fence key = 0 ∧ s.Free key 0 := by
  cases s with
  | memory store =>
      obtain ⟨maxKeys, hnew⟩ := hs
      obtain rfl := Memory.new_ok hnew
      exact ⟨rfl, nofun⟩
  | postgres store db =>
      obtain rfl : db = .empty := hs
      exact ⟨rfl, nofun⟩
  | valkey store keys =>
      obtain rfl : keys = fun _ => none := hs
      exact ⟨rfl, rfl⟩

/-- Every fence is reached, the last one too. -/
theorem reaches (hs : s.Fresh) (hkey : key.value ≠ []) (hroom : s.Room key) {n : Nat} (hn : n ≤ s.limit) :
    ∃ events : List Event, (events.foldl step s).fence key = n ∧ (events.foldl step s).Free key 0 ∧
      (events.foldl step s).Room key := by
  induction n with
  | zero => exact ⟨[], (fresh_start hs).1, (fresh_start hs).2, hroom⟩
  | succ n ih =>
      obtain ⟨events, hfence, hfree, hroom'⟩ := ih (Nat.le_of_succ_le hn)
      have hsound : (events.foldl step s).Sound :=
        invariant_rule (sound_fresh hs) (fun t event h => (h.step event).1) events
      have hlt : (events.foldl step s).fence key < (events.foldl step s).limit := by
        rw [hfence, (alike_run s events).limit]
        exact hn
      refine ⟨events ++ [taking key, giving key (n + 1)], ?_⟩
      have hround := round hsound hkey hroom' hlt hfree
      rw [hfence] at hround
      rw [List.foldl_append]
      exact hround

/-- The memory store says so after 2^64 - 1 acquisitions of one key. -/
theorem token_exhaustion_memory :
    ∃ events : List Event,
      let t := events.foldl step (memory ⟨1, ∅⟩)
      t.fence ⟨[107]⟩ = maxUint64 ∧ ∃ err,
        t.exec (Postgres.frozen 0) none (.tryAcquire ⟨[107]⟩ [97] millisecond) =
            (t, ⟨zeroRecord, some err⟩) ∧ Definite err := by
  have hs : (memory ⟨1, ∅⟩).Fresh := ⟨1, rfl⟩
  have hroom : (memory ⟨1, ∅⟩).Room ⟨[107]⟩ := fun _ => Nat.one_pos
  obtain ⟨events, hfence, hfree, -⟩ := reaches hs (List.cons_ne_nil _ _) hroom (Nat.le_refl _)
  obtain ⟨hlimit, -, hrefuses⟩ := token_exhaustion hs events hfence hfree []
  rw [List.append_nil] at hlimit hrefuses
  obtain ⟨err, hexec, hdefinite⟩ := hrefuses (Postgres.frozen 0) none [97] millisecond hfree rfl
  exact ⟨events, hlimit, err, hexec, hdefinite.mpr trivial⟩

/-- The counter of a key driven to its end: the refusal of the next acquisition
counts as ambiguous, though the script has changed nothing. -/
theorem valkey_exhaustion_ambiguous :
    ∃ events : List Event,
      let t := events.foldl step (valkey ⟨id, [112]⟩ fun _ => none)
      t.fence ⟨[107]⟩ = 2 ^ 63 - 1 ∧ t.Free ⟨[107]⟩ 0 ∧ ∃ err,
        t.exec (Postgres.frozen 0) none (.tryAcquire ⟨[107]⟩ [97] millisecond) =
            (t, ⟨zeroRecord, some err⟩) ∧
          err.is .errBackendUnavailable = false ∧ err.is .errAmbiguousOutcome = true := by
  have hs : (valkey ⟨id, [112]⟩ fun _ => none).Fresh := rfl
  have hkey : (⟨[107]⟩ : Key).value ≠ [] := List.cons_ne_nil _ _
  obtain ⟨events, hfence, hfree, -⟩ := reaches hs hkey trivial (Nat.le_refl _)
  have hsound : (events.foldl step (valkey ⟨id, [112]⟩ fun _ => none)).Sound :=
    invariant_rule (sound_fresh hs) (fun t event h => (h.step event).1) events
  refine ⟨events, ?_⟩
  have halike := alike_run (valkey ⟨id, [112]⟩ fun _ => none) events
  generalize events.foldl step (valkey ⟨id, [112]⟩ fun _ => none) = t at hfence hfree hsound halike ⊢
  cases halike with
  | valkey _ _ keys =>
      have hv : Valkey.validate none ⟨[107]⟩ [97] 1 millisecond = none := rfl
      have hexec : (⟨id, [112]⟩ : Valkey.Store).serve keys
          ⟨0, none, .tryAcquire ⟨[107]⟩ [97] millisecond⟩ = _ := valkey_refuses hsound hfence hfree hv
      exact ⟨hfence, hfree, _, congrArg (fun result => (valkey ⟨id, [112]⟩ result.1, result.2)) hexec,
        rfl, rfl⟩

end System

end GoLease.Exhaustion
