import GoLease.Memory.Reference
import GoLease.Pool
import GoLease.Postgres.Outcomes
import GoLease.Utf8

namespace GoLease.Postgres

open Traces Database

theorem validate_ttl (ctx : Ctx) (key : Key) (owner : Bytes) (token : Nat) (ttl : Int) :
    validate ctx key owner token ttl =
      match validate ctx key owner token millisecond with
      | some err => some err
      | none => if ttl < millisecond then some (wrap .errInvalidState "postgres input") else none := by
  unfold validate
  rw [if_neg (Int.lt_irrefl millisecond)]
  split_ifs <;> rfl

/-- Both stores accept the arguments, or refuse them with the same class. -/
def SameCheck (check reference : Option Error) : Prop :=
  check = none ∧ reference = none ∨
    ∃ target operation operation', check = some (wrap target operation) ∧
      reference = some (wrap target operation')

theorem validate_identity (ctx : Ctx) {key : Key} {token token' : Nat} (owner : Bytes)
    (htoken : key.value = [] ∨ 0 < token ∧ token ≤ maxInt64 ∧ 0 < token') :
    SameCheck (validate ctx key owner token millisecond)
      (Memory.validateIdentity ctx key owner token') := by
  cases ctx with
  | some err => exact .inr ⟨.errCanceled, _, _, rfl, rfl⟩
  | none =>
      by_cases hbad : key.value = [] ∨ owner = [] ∨ owner.length > 128
      · refine .inr ⟨.errInvalidState, "postgres input", "identity", ?_, ?_⟩
        · rcases hbad with h | h | h <;> simp [validate, h]
        · rcases hbad with h | h | h <;> simp [Memory.validateIdentity, h]
      · rw [not_or, not_or] at hbad
        obtain ⟨hk, ho, hlen⟩ := hbad
        obtain ⟨hpos, hmax, hpos'⟩ := htoken.resolve_left hk
        refine .inl ⟨?_, ?_⟩
        · simp [validate, hk, ho, hlen, Nat.pos_iff_ne_zero.mp hpos, Nat.not_lt.mpr hmax]
        · simp [Memory.validateIdentity, hk, ho, hlen, Nat.pos_iff_ne_zero.mp hpos']

theorem validate_duration (ctx : Ctx) {key : Key} {token : Nat} (owner : Bytes)
    (htoken : key.value = [] ∨ 0 < token ∧ token ≤ maxInt64) (k : Int) :
    SameCheck (validate ctx key owner token (k * millisecond))
      (Memory.validate ctx key owner (k * millisecond)) := by
  have hid : SameCheck _ (Memory.validateIdentity ctx key owner 1) :=
    validate_identity ctx owner (htoken.imp_right (fun h => ⟨h.1, h.2, Nat.one_pos⟩))
  rw [validate_ttl, Memory.validate]
  rcases hid with ⟨hp, hm⟩ | ⟨target, operation, operation', hp, hm⟩
  · rw [hp, hm]
    dsimp only
    by_cases hk : k ≤ 0
    · rw [if_pos (by simp only [millisecond]; omega), if_pos (by simp only [millisecond]; omega)]
      exact .inr ⟨_, _, _, rfl, rfl⟩
    · rw [if_neg (by simp only [millisecond]; omega), if_neg (by simp only [millisecond]; omega)]
      exact .inl ⟨rfl, rfl⟩
  · rw [hp, hm]
    exact .inr ⟨target, operation, operation', rfl, rfl⟩

/-- The row of a key and the entry of the memory store: absent, or the same
owner, instants and activity, each at a token of its own. -/
def KeySim (key : Key) (fence : Option Nat) (row : Option Row) (entry : Option Memory.Entry) : Prop :=
  row = none ∧ entry = none ∨
    ∃ (r : Row) (f token : Nat), row = some r ∧ fence = some f ∧ r.token ≤ f ∧ r.check = true ∧
      token ≤ f ∧ entry = some ⟨⟨key, r.owner, token, r.acquiredAt, r.expiresAt⟩, r.active⟩

/-- A pair of records returned for one acquisition, against the current row and
entry of their key: neither token is ahead, and both or neither are current. -/
def Aligned (pair : Record × Record) (row : Option Row) (entry : Option Memory.Entry) : Prop :=
  ∃ r e, row = some r ∧ entry = some e ∧ pair.1.token ≤ r.token ∧ pair.2.token ≤ e.record.token ∧
    (pair.1.token = r.token ↔ pair.2.token = e.record.token)

/-- The records returned so far for the same acquisitions: their tokens are
ordered alike. -/
def Ordered (pairs : List (Record × Record)) : Prop :=
  pairs.Pairwise (fun p q => p.1.key = q.1.key → p.1.token < q.1.token ∧ p.2.token < q.2.token)

structure Sim (store : Store) (used : Key → Prop) (db : Database) (memory : Memory.Store)
    (pairs : List (Record × Record)) : Prop where
  rows : ∀ key, used key → KeySim key (db.fences (store.digest key)) (db.records (store.digest key))
    (memory.lookup key)
  ordered : Ordered pairs
  returned : ∀ p ∈ pairs, used p.1.key ∧ p.2.key = p.1.key ∧ p.2.owner = p.1.owner ∧
    store.isText p.1.owner = true ∧ 0 < p.1.token ∧ p.1.token ≤ maxInt64 ∧ 0 < p.2.token
  aligned : ∀ p ∈ pairs, Aligned p (db.records (store.digest p.1.key)) (memory.lookup p.1.key)

/-- The same class of result with the same record but for its token. -/
def Follows (reply reference : Reply) : Prop :=
  SameClass reply.err reference.err ∧ reply.record = { reference.record with token := reply.record.token }

theorem follows_wrap (target : Sentinel) (operation operation' : String) :
    Follows ⟨zeroRecord, some (wrap target operation)⟩ ⟨zeroRecord, some (wrap target operation')⟩ :=
  ⟨fun _ => rfl, rfl⟩

section Steps

variable {store : Store} {used : Key → Prop} {db db' : Database} {memory memory' : Memory.Store}
  {pairs : List (Record × Record)} {key : Key}

/-- Distinct keys in use have distinct digests. -/
def CollisionFree (store : Store) (used : Key → Prop) : Prop :=
  ∀ key other, used key → used other → store.digest key = store.digest other → key = other

theorem Sim.update (h : Sim store used db memory pairs) (hfree : CollisionFree store used) (hu : used key)
    (hfences : ∀ digest, digest ≠ store.digest key → db'.fences digest = db.fences digest)
    (hrecords : ∀ digest, digest ≠ store.digest key → db'.records digest = db.records digest)
    (hmemory : ∀ other, other ≠ key → memory'.lookup other = memory.lookup other)
    (hkey : KeySim key (db'.fences (store.digest key)) (db'.records (store.digest key))
      (memory'.lookup key))
    (haligned : ∀ p ∈ pairs, p.1.key = key →
      Aligned p (db'.records (store.digest key)) (memory'.lookup key)) :
    Sim store used db' memory' pairs := by
  have hne {other : Key} (hu' : used other) (hk : other ≠ key) : store.digest other ≠ store.digest key :=
    fun he => hk (hfree _ _ hu' hu he)
  refine ⟨?_, h.ordered, h.returned, ?_⟩
  · intro other hu'
    by_cases hk : other = key
    · rw [hk]
      exact hkey
    · rw [hfences _ (hne hu' hk), hrecords _ (hne hu' hk), hmemory other hk]
      exact h.rows other hu'
  · intro p hp
    by_cases hk : p.1.key = key
    · rw [hk]
      exact haligned p hp hk
    · rw [hrecords _ (hne (h.returned p hp).1 hk), hmemory _ hk]
      exact h.aligned p hp

theorem milliseconds_mul (k : Int) : milliseconds (k * millisecond) = k := Int.mul_tdiv_cancel _ (by decide)

/-- The tokens that both stores grant next are ahead of all tokens returned for
the key, and that of the memory store is not ahead of the other. -/
theorem Sim.next (h : Sim store used db memory pairs) (hu : used key) {token : Nat}
    (ht : db.nextFence (store.digest key) = some token) :
    memory.fence key < token ∧
      ∀ p ∈ pairs, p.1.key = key → p.1.token < token ∧ p.2.token < memory.fence key + 1 := by
  rcases h.rows key hu with ⟨hr, he⟩ | ⟨r, f, t, hr, hf, hle, _, hle', he⟩
  · refine ⟨?_, ?_⟩
    · rw [Memory.Store.fence, he]
      exact (Fences.nextFence_range ht).1
    · intro p hp hk
      obtain ⟨row, _, hrow, _⟩ := h.aligned p hp
      rw [hk, hr] at hrow
      cases hrow
  · have hlt := Fences.nextFence_lt ht hf
    rw [Memory.Store.fence_of_lookup _ he]
    refine ⟨Nat.lt_of_le_of_lt hle' hlt, ?_⟩
    intro p hp hk
    obtain ⟨row, entry, hrow, hentry, hp1, hp2, _⟩ := h.aligned p hp
    rw [hk, hr] at hrow
    rw [hk, he] at hentry
    cases hrow
    cases hentry
    dsimp only at hp2 ⊢
    omega

theorem Sim.grant (h : Sim store used db memory pairs) (hfree : CollisionFree store used) (hu : used key)
    {token : Nat} (ht : db.nextFence (store.digest key) = some token) {owner : Bytes} {now expiresAt : Int}
    (hown : 1 ≤ owner.length ∧ owner.length ≤ 128) (htext : store.isText owner = true)
    (hlt : now < expiresAt) :
    Sim store used
      ((db.setFence (store.digest key) token).setRecord (store.digest key)
        ⟨owner, token, now, expiresAt, true, now⟩)
      (memory.put key ⟨⟨key, owner, memory.fence key + 1, now, expiresAt⟩, true⟩)
      (pairs ++ [(⟨key, owner, token, now, expiresAt⟩,
        ⟨key, owner, memory.fence key + 1, now, expiresAt⟩)]) := by
  obtain ⟨hfence, hbelow⟩ := h.next hu ht
  obtain ⟨hpos, hmax⟩ := Fences.nextFence_range ht
  have hlookup := Memory.Store.lookup_put_self memory key
    ⟨⟨key, owner, memory.fence key + 1, now, expiresAt⟩, true⟩
  have hsim : Sim store used
      ((db.setFence (store.digest key) token).setRecord (store.digest key)
        ⟨owner, token, now, expiresAt, true, now⟩)
      (memory.put key ⟨⟨key, owner, memory.fence key + 1, now, expiresAt⟩, true⟩) pairs := by
    refine h.update hfree hu ?_ ?_ ?_ ?_ ?_
    · exact fun digest hd => setFence_of_ne db hd token
    · exact fun digest hd => setRecord_of_ne _ hd _
    · exact fun other hk => Memory.Store.lookup_put_of_ne _ hk _
    · rw [setRecord_self, hlookup]
      exact .inr ⟨_, token, _, rfl, setFence_self _ _ _, Nat.le_refl _, check_iff.mpr ⟨hown, hpos, hlt⟩,
        hfence, rfl⟩
    · intro p hp hk
      rw [setRecord_self, hlookup]
      -- Both tokens of an earlier pair are below the new ones, so it is current in neither store.
      obtain ⟨hp1, hp2⟩ := hbelow p hp hk
      refine ⟨_, _, rfl, rfl, Nat.le_of_lt hp1, Nat.le_of_lt hp2, ?_⟩
      exact ⟨fun he => absurd he (Nat.ne_of_lt hp1), fun he => absurd he (Nat.ne_of_lt hp2)⟩
  refine ⟨hsim.rows, ?_, ?_, ?_⟩
  · refine List.pairwise_append.mpr ⟨h.ordered, List.pairwise_singleton _ _, ?_⟩
    intro p hp q hq hk
    rw [List.mem_singleton.mp hq] at hk ⊢
    exact hbelow p hp hk
  · refine Pool.forall_mem_append hsim.returned ?_
    exact ⟨hu, rfl, rfl, htext, hpos, hmax, Nat.succ_pos _⟩
  · refine Pool.forall_mem_append hsim.aligned ?_
    dsimp only
    rw [setRecord_self, hlookup]
    exact ⟨_, _, rfl, rfl, Nat.le_refl _, Nat.le_refl _, iff_of_true rfl rfl⟩

theorem Sim.contend (h : Sim store used db memory pairs) (hfree : CollisionFree store used) (hu : used key)
    {token : Nat} (ht : db.nextFence (store.digest key) = some token) :
    Sim store used (db.setFence (store.digest key) token) memory pairs := by
  refine h.update hfree hu (fun digest hd => setFence_of_ne db hd token) (fun _ _ => rfl)
    (fun _ _ => rfl) ?_ ?_
  · rcases h.rows key hu with hnone | ⟨r, f, t, hr, hf, hle, hcheck, hle', he⟩
    · exact .inl hnone
    · have hlt := Fences.nextFence_lt ht hf
      exact .inr ⟨r, token, t, hr, setFence_self _ _ _, by omega, hcheck, by omega, he⟩
  · intro p hp hk
    exact hk ▸ h.aligned p hp

/-- How the pairs of records grow with a step. -/
def After (store : Store) (used : Key → Prop) (pairs : List (Record × Record))
    (result : Database × Reply) (reference : Memory.Store × Reply) (acquires : Bool) : Prop :=
  Follows result.2 reference.2 ∧
    Sim store used result.1 reference.1
      (if acquires ∧ result.2.err = none then pairs ++ [(result.2.record, reference.2.record)] else pairs)

theorem after_rejected (h : Sim store used db memory pairs) {target : Sentinel}
    {operation operation' : String} {result : Database × Reply} {reference : Memory.Store × Reply}
    {acquires : Bool} (hresult : result = (db, ⟨zeroRecord, some (wrap target operation)⟩))
    (hreference : reference = (memory, ⟨zeroRecord, some (wrap target operation')⟩)) :
    After store used pairs result reference acquires := by
  rw [hresult, hreference]
  refine ⟨follows_wrap _ _ _, ?_⟩
  rw [if_neg (by simp)]
  exact h

theorem Sim.acquire (h : Sim store used db memory pairs) (hfree : CollisionFree store used) (hu : used key)
    {owner : Bytes} (htext : store.isText owner = true) (hfence : db.nextFence (store.digest key) ≠ none)
    (hcap : memory.lookup key = none → memory.entries.keys.length < memory.maxKeys)
    (now : Int) (ctx : Ctx) (k : Int) :
    After store used pairs (store.exec (frozen now) db ctx (.tryAcquire key owner (k * millisecond)))
      (memory.exec ⟨now, ctx, .tryAcquire key owner (k * millisecond)⟩) true := by
  have hsame : SameCheck (validate ctx key owner 1 (k * millisecond)) _ :=
    validate_duration ctx owner (.inr (by decide)) k
  rcases hsame with ⟨hp, hm⟩ | ⟨target, operation, operation', hp, hm⟩
  · obtain ⟨rfl, hown, _, httl⟩ := accepted hp
    have hk : 0 < k := by
      simp only [millisecond] at httl
      omega
    obtain ⟨token, ht⟩ := Option.ne_none_iff_exists'.mp hfence
    have hlt : now < now + k * millisecond := by
      simp only [millisecond]
      omega
    by_cases hlive : ∃ r, db.records (store.digest key) = some r ∧ r.active = true ∧ now < r.expiresAt
    · obtain ⟨r, hr, ha, hexp⟩ := hlive
      obtain ⟨entry, he, hactive, hexpires⟩ : ∃ entry, memory.lookup key = some entry ∧
          entry.active = true ∧ now < entry.record.expiresAt := by
        rcases h.rows key hu with ⟨hnone, _⟩ | ⟨r', f, t, hr', _, _, _, _, he⟩
        · cases hr.symm.trans hnone
        · cases hr.symm.trans hr'
          exact ⟨_, he, ha, hexp⟩
      rw [Store.exec_tryAcquire_contended hp htext
          ((congrArg _ (milliseconds_mul k)).trans (acquireSQL_contended ht hown hk hr ha hexp)),
        Memory.Store.exec_tryAcquire_contended hm he hactive hexpires]
      exact ⟨follows_wrap _ _ _, h.contend hfree hu ht⟩
    · have hvacant (r : Row) (hr : db.records (store.digest key) = some r) :
          r.active = false ∨ r.expiresAt ≤ now := by
        by_cases ha : r.active = true
        · exact .inr (Int.not_lt.mp (fun hexp => hlive ⟨r, hr, ha, hexp⟩))
        · exact .inl (Bool.eq_false_iff.mpr ha)
      have hmemory : memory.Vacant key now := by
        intro entry hl
        rcases h.rows key hu with ⟨_, hnone⟩ | ⟨r, f, t, hr, _, _, _, _, he⟩
        · cases hl.symm.trans hnone
        · cases hl.symm.trans he
          exact hvacant r hr
      have hmax : memory.fence key < 2 ^ 64 - 1 := by
        have hnext := (h.next hu ht).1
        have hrange := (Fences.nextFence_range ht).2
        simp only [maxInt64] at hrange
        omega
      rw [Store.exec_tryAcquire_ok hp htext (Fences.nextFence_range ht).1 hlt
          ((congrArg _ (milliseconds_mul k)).trans (acquireSQL_granted ht hown hk hvacant)),
        Memory.Store.exec_tryAcquire_granted hm hmemory hcap hmax]
      exact ⟨⟨trivial, rfl⟩, h.grant hfree hu ht hown htext hlt⟩
  · apply after_rejected h
    · simp only [Store.exec, Store.tryAcquire, hp]
      rfl
    · simp only [Memory.Store.exec, Memory.Store.tryAcquire, hm]
      rfl

/-- The two records of an acquisition, or twice the zero record. -/
structure Counterparts (store : Store) (used : Key → Prop) (db : Database) (memory : Memory.Store)
    (owned reference : Record) : Prop where
  key : reference.key = owned.key
  owner : reference.owner = owned.owner
  checked : owned.key.value = [] ∨ used owned.key ∧ store.isText owned.owner = true ∧ 0 < owned.token ∧
    owned.token ≤ maxInt64 ∧ 0 < reference.token ∧
    Aligned (owned, reference) (db.records (store.digest owned.key)) (memory.lookup owned.key)

theorem Sim.counterparts (h : Sim store used db memory pairs) (source : Nat) :
    Counterparts store used db memory ((pairs.map Prod.fst).getD source zeroRecord)
      ((pairs.map Prod.snd).getD source zeroRecord) := by
  simp only [List.getD_eq_getElem?_getD, List.getElem?_map]
  cases hp : pairs[source]? with
  | none => exact ⟨rfl, rfl, .inl rfl⟩
  | some p =>
      have hmem := List.mem_of_getElem? hp
      obtain ⟨hu, hk, ho, htext, hpos, hmax, hpos'⟩ := h.returned p hmem
      exact ⟨hk, ho, .inr ⟨hu, htext, hpos, hmax, hpos', h.aligned p hmem⟩⟩

/-- The entry says what the row says, and the record is the entry's own for the
one store exactly when it is the row's own for the other. -/
theorem Sim.current (h : Sim store used db memory pairs) {owned reference : Record}
    (hc : Counterparts store used db memory owned reference) (hk : owned.key.value ≠ []) :
    ∃ (r : Row) (entry : Memory.Entry), db.records (store.digest owned.key) = some r ∧
      r.check = true ∧ memory.lookup reference.key = some entry ∧
      entry = ⟨⟨owned.key, r.owner, entry.record.token, r.acquiredAt, r.expiresAt⟩, r.active⟩ ∧
      (r.owner = owned.owner ∧ r.token = owned.token ↔
        entry.record.owner = reference.owner ∧ entry.record.token = reference.token) := by
  obtain ⟨hu, _, _, _, _, row, entry, hrow, hentry, _, _, hiff⟩ := hc.checked.resolve_left hk
  rcases h.rows owned.key hu with ⟨hnone, _⟩ | ⟨r, f, t, hr, _, _, hcheck, _, he⟩
  · cases hrow.symm.trans hnone
  · cases hrow.symm.trans hr
    cases hentry.symm.trans he
    dsimp only at hiff
    refine ⟨row, _, hr, hcheck, (congrArg memory.lookup hc.key).trans he, rfl, ?_⟩
    rw [hc.owner, eq_comm (a := row.token), hiff, eq_comm (a := reference.token)]

theorem held_iff_current {owned reference : Record} {r : Row} {entry : Memory.Entry} (now : Int)
    (hl : memory.lookup reference.key = some entry)
    (he : entry = ⟨⟨owned.key, r.owner, entry.record.token, r.acquiredAt, r.expiresAt⟩, r.active⟩)
    (hiff : r.owner = owned.owner ∧ r.token = owned.token ↔
      entry.record.owner = reference.owner ∧ entry.record.token = reference.token) :
    (∃ e, memory.Held reference.key reference.owner reference.token now e) ↔
      Current r owned.owner owned.token now := by
  have ha : entry.active = r.active := by rw [he]
  have hx : entry.record.expiresAt = r.expiresAt := by rw [he]
  constructor
  · rintro ⟨e, hl', hactive, ho, ht, hlt⟩
    cases hl.symm.trans hl'
    obtain ⟨ho', ht'⟩ := hiff.mpr ⟨ho, ht⟩
    exact ⟨ho', ht', ha ▸ hactive, hx ▸ hlt⟩
  · rintro ⟨ho, ht, hactive, hlt⟩
    obtain ⟨ho', ht'⟩ := hiff.mp ⟨ho, ht⟩
    exact ⟨entry, hl, ha ▸ hactive, ho', ht', hx ▸ hlt⟩

theorem not_current {digest owner : Bytes} {token : Nat} {now : Int} {r : Row}
    (hr : db.records digest = some r) (h : ¬Current r owner token now) (row : Row)
    (hrow : db.records digest = some row) : ¬Current row owner token now := by
  cases hr.symm.trans hrow
  exact h

theorem Sim.amend (h : Sim store used db memory pairs) (hfree : CollisionFree store used) (hu : used key)
    {r r' : Row} {token : Nat} {entry : Memory.Entry} (hr : db.records (store.digest key) = some r)
    (he : memory.lookup key = some ⟨⟨key, r.owner, token, r.acquiredAt, r.expiresAt⟩, r.active⟩)
    (htoken : r'.token = r.token) (hcheck : r'.check = true)
    (hentry : entry = ⟨⟨key, r'.owner, token, r'.acquiredAt, r'.expiresAt⟩, r'.active⟩) :
    Sim store used (db.setRecord (store.digest key) r') (memory.put key entry) pairs := by
  refine h.update hfree hu (fun _ _ => rfl) (fun digest hd => setRecord_of_ne db hd r')
    (fun other hk => Memory.Store.lookup_put_of_ne _ hk _) ?_ ?_
  · rw [setRecord_self, Memory.Store.lookup_put_self, hentry]
    rcases h.rows key hu with ⟨hnone, _⟩ | ⟨row, f, t, hr', hf, hle, _, hle', he'⟩
    · cases hr.symm.trans hnone
    · cases hr.symm.trans hr'
      cases he.symm.trans he'
      exact .inr ⟨r', f, token, rfl, hf, htoken ▸ hle, hcheck, hle', rfl⟩
  · intro p hp hk
    rw [setRecord_self, Memory.Store.lookup_put_self, hentry]
    have haligned := h.aligned p hp
    rw [hk, hr, he] at haligned
    obtain ⟨row, e, hrow, hent, h1, h2, hiff⟩ := haligned
    cases hrow
    cases hent
    exact ⟨_, _, rfl, rfl, htoken ▸ h1, h2, htoken ▸ hiff⟩

/-- The checks of a continuation come out alike; those that pass show that the
records are not the zero record. -/
theorem Counterparts.identity {owned reference : Record}
    (hc : Counterparts store used db memory owned reference) (ctx : Ctx) :
    SameCheck (validate ctx owned.key owned.owner owned.token millisecond)
      (Memory.validateIdentity ctx reference.key reference.owner reference.token) := by
  rw [hc.key, hc.owner]
  exact validate_identity ctx owned.owner
    (hc.checked.imp_right (fun hx => ⟨hx.2.2.1, hx.2.2.2.1, hx.2.2.2.2.1⟩))

theorem Counterparts.duration {owned reference : Record}
    (hc : Counterparts store used db memory owned reference) (ctx : Ctx) (k : Int) :
    SameCheck (validate ctx owned.key owned.owner owned.token (k * millisecond))
      (Memory.validate ctx reference.key reference.owner (k * millisecond)) := by
  rw [hc.key, hc.owner]
  exact validate_duration ctx owned.owner (hc.checked.imp_right (fun hx => ⟨hx.2.2.1, hx.2.2.2.1⟩)) k

theorem Sim.renew (h : Sim store used db memory pairs) (hfree : CollisionFree store used)
    {owned reference : Record} (hc : Counterparts store used db memory owned reference)
    (now : Int) (ctx : Ctx) (k : Int)
    (hexp : ∀ entry, memory.Held reference.key reference.owner reference.token now entry →
      entry.record.acquiredAt < now + k * millisecond) :
    After store used pairs (store.exec (frozen now) db ctx (.renew owned (k * millisecond)))
      (memory.exec ⟨now, ctx, .renew reference (k * millisecond)⟩) false := by
  rcases hc.duration ctx k with ⟨hp, hm⟩ | ⟨target, operation, operation', hp, hm⟩
  · have hk := key_ne_nil hp
    obtain ⟨hu, htext, hpos, _, hpos', _⟩ := hc.checked.resolve_left hk
    obtain ⟨r, entry, hr, hcheck, hl, he, hiff⟩ := h.current hc hk
    have hheld := held_iff_current now hl he hiff
    obtain rfl := (accepted hp).1
    by_cases hcur : Current r owned.owner owned.token now
    · obtain ⟨e, hown⟩ := hheld.mpr hcur
      cases hl.symm.trans hown.1
      have hlt : r.acquiredAt < now + k * millisecond := by
        have hlt := hexp _ hown
        rwa [he] at hlt
      rw [Store.exec_renew_ok hp htext hpos hlt
          ((congrArg _ (milliseconds_mul k)).trans (renewSQL_current hr hcur hcheck hlt)),
        Memory.Store.exec_renew_of_held _ hm (Nat.pos_iff_ne_zero.mp hpos') hown]
      refine ⟨⟨trivial, ?_⟩, ?_⟩
      · rw [he, hcur.1]
      · rw [he, hc.key] at hl ⊢
        refine h.amend hfree hu hr hl rfl ?_ (by rw [hcur.2.2.1])
        exact check_iff.mpr ⟨(check_iff.mp hcheck).1, (check_iff.mp hcheck).2.1, hlt⟩
    · have hstale := not_current hr hcur
      exact after_rejected h (Store.exec_renew_stale hp htext (renewSQL_stale hstale))
        (Memory.Store.exec_renew_stale hm (Nat.pos_iff_ne_zero.mp hpos')
          (not_exists.mp (mt hheld.mp hcur)))
  · apply after_rejected h
    · simp only [Store.exec, Store.renew, hp]
      rfl
    · simp only [Memory.Store.exec, Memory.Store.renew, hm]
      rfl

theorem Sim.validate (h : Sim store used db memory pairs) {owned reference : Record}
    (hc : Counterparts store used db memory owned reference) (now : Int) (ctx : Ctx) :
    After store used pairs (store.exec (frozen now) db ctx (.validate owned))
      (memory.exec ⟨now, ctx, .validate reference⟩) false := by
  rcases hc.identity ctx with ⟨hp, hm⟩ | ⟨target, operation, operation', hp, hm⟩
  · have hk := key_ne_nil hp
    obtain ⟨hu, htext, hpos, _, _, _⟩ := hc.checked.resolve_left hk
    obtain ⟨r, entry, hr, hcheck, hl, he, hiff⟩ := h.current hc hk
    have hheld := held_iff_current now hl he hiff
    obtain rfl := (accepted hp).1
    by_cases hcur : Current r owned.owner owned.token now
    · obtain ⟨e, hown⟩ := hheld.mpr hcur
      cases hl.symm.trans hown.1
      rw [Store.exec_validate_ok hp htext hpos (check_iff.mp hcheck).2.2 (validateSQL_current hr hcur),
        Memory.Store.exec_validate_of_held hm hown]
      refine ⟨⟨trivial, ?_⟩, h⟩
      rw [he, hcur.1]
    · have hstale := not_current hr hcur
      exact after_rejected h (Store.exec_validate_stale hp htext (validateSQL_stale hstale))
        (Memory.Store.exec_validate_stale hm (not_exists.mp (mt hheld.mp hcur)))
  · apply after_rejected h
    · simp only [Store.exec, Store.validate, hp]
      rfl
    · simp only [Memory.Store.exec, Memory.Store.validate, hm]
      rfl

theorem Sim.release (h : Sim store used db memory pairs) (hfree : CollisionFree store used)
    {owned reference : Record} (hc : Counterparts store used db memory owned reference)
    (now : Int) (ctx : Ctx) :
    After store used pairs (store.exec (frozen now) db ctx (.release owned))
      (memory.exec ⟨now, ctx, .release reference⟩) false := by
  rcases hc.identity ctx with ⟨hp, hm⟩ | ⟨target, operation, operation', hp, hm⟩
  · have hk := key_ne_nil hp
    obtain ⟨hu, htext, _, _, _, _⟩ := hc.checked.resolve_left hk
    obtain ⟨r, entry, hr, hcheck, hl, he, hiff⟩ := h.current hc hk
    have hactive : entry.active = r.active := by rw [he]
    obtain rfl := (accepted hp).1
    by_cases hours : r.owner = owned.owner ∧ r.token = owned.token
    · obtain ⟨ho, ht⟩ := hiff.mp hours
      cases ha : r.active with
      | true =>
          rw [Store.exec_release_nil hp htext (releaseSQL_released hr hours.1 hours.2 ha) nofun,
            Memory.Store.exec_release_of_active _ hm hl (hactive.trans ha) ho ht]
          refine ⟨⟨trivial, rfl⟩, ?_⟩
          rw [hc.key] at hl ⊢
          rw [he] at hl
          refine h.amend hfree hu hr hl rfl (check_iff.mpr (check_iff.mp hcheck)) ?_
          rw [he]
      | false =>
          rw [Store.exec_release_nil hp htext (releaseSQL_again hr hours.1 hours.2 ha) nofun,
            Memory.Store.exec_release_again hm hl (hactive.trans ha) ho ht]
          exact ⟨⟨trivial, rfl⟩, h⟩
    · refine after_rejected h (Store.exec_release_stale hp htext (releaseSQL_stale hr hours))
        (Memory.Store.exec_release_stale hm ?_)
      intro e hl' hsame
      cases hl.symm.trans hl'
      exact hours (hiff.mpr hsame)
  · apply after_rejected h
    · simp only [Store.exec, Store.release, hp]
      rfl
    · simp only [Memory.Store.exec, Memory.Store.release, hm]
      rfl

end Steps

/-- A call in which a continuation names the acquisition it continues by its
position among the successful ones of the run. -/
inductive Action
  | acquire (key : Key) (owner : Bytes) (ttl : Int)
  | renew (source : Nat) (ttl : Int)
  | validate (source : Nat)
  | release (source : Nat)
  deriving DecidableEq, Repr

def Action.request (records : List Record) : Action → Request
  | .acquire key owner ttl => .tryAcquire key owner ttl
  | .renew source ttl => .renew (records.getD source zeroRecord) ttl
  | .validate source => .validate (records.getD source zeroRecord)
  | .release source => .release (records.getD source zeroRecord)

def Action.acquires : Action → Bool
  | .acquire _ _ _ => true
  | _ => false

structure Command where
  now : Int
  ctx : Ctx
  action : Action
  deriving DecidableEq, Repr

/-- A backend with the records of its successful acquisitions. -/
structure Play (σ : Type) where
  state : σ
  records : List Record

def Play.step {σ : Type} (exec : σ → Call → σ × Reply) (play : Play σ) (command : Command) :
    Play σ × Reply :=
  let result := exec play.state ⟨command.now, command.ctx, command.action.request play.records⟩
  (⟨result.1, if command.action.acquires ∧ result.2.err = none then play.records ++ [result.2.record]
    else play.records⟩, result.2)

/-- Whole milliseconds, an owner that the server takes as text, a fence that is
not exhausted, room for a new key, and no renewal that ends before its
acquisition. -/
def Ready (store : Store) (postgres : Play Database) (memory : Play Memory.Store) (command : Command) :
    Prop :=
  match command.action with
  | .acquire key owner ttl => (∃ k, ttl = k * millisecond) ∧ store.isText owner = true ∧
    postgres.state.nextFence (store.digest key) ≠ none ∧
    (memory.state.lookup key = none → memory.state.entries.keys.length < memory.state.maxKeys)
  | .renew source ttl => (∃ k, ttl = k * millisecond) ∧
    ∀ entry, memory.state.Held (memory.records.getD source zeroRecord).key
      (memory.records.getD source zeroRecord).owner (memory.records.getD source zeroRecord).token
      command.now entry → entry.record.acquiredAt < command.now + ttl
  | .validate _ | .release _ => True

/-- The histories on which the two stores are compared. -/
structure Admissible (store : Store) (memory : Memory.Store) (commands : List Command) : Prop where
  collisionFree : CollisionFree store (fun key => ∃ command ∈ commands, ∃ owner ttl,
    command.action = .acquire key owner ttl)
  ready : ∀ before command after, commands = before ++ command :: after →
    Ready store (run (Play.step store.serve) ⟨.empty, []⟩ before)
      (run (Play.step Memory.Store.exec) ⟨memory, []⟩ before) command

/-- A store whose server takes well-formed UTF-8 without NUL as text. -/
def Store.utf8 : Store := ⟨id, fun owner => Utf8.validString owner && !owner.contains 0⟩

/-- An owner that is not text: the memory store grants it the lease, and the
server refuses the statement. All else that an admissible history asks holds. -/
theorem follows_memory_not_text :
    let command : Command := ⟨0, none, .acquire ⟨[107]⟩ [255] millisecond⟩
    let postgres := Play.step Store.utf8.serve ⟨.empty, []⟩ command
    let reference := Play.step Memory.Store.exec ⟨⟨1, ∅⟩, []⟩ command
    Memory.new 1 = .ok ⟨1, ∅⟩ ∧ CollisionFree Store.utf8 (fun _ => True) ∧
      (∃ k : Int, millisecond = k * millisecond) ∧
      Database.empty.nextFence (Store.utf8.digest ⟨[107]⟩) ≠ none ∧
      (⟨1, ∅⟩ : Memory.Store).entries.keys.length < 1 ∧
      reference.2.err = none ∧
      (∃ err, postgres.2.err = some err ∧ err.is .errAmbiguousOutcome = true) ∧
      ¬Follows postgres.2 reference.2 := by
  intro command postgres reference
  have herr : postgres.2.err = some (classify none (.foreign "invalid byte sequence") true) := rfl
  have hnone : reference.2.err = none := rfl
  refine ⟨rfl, ?_, ⟨1, rfl⟩, by decide, by decide, hnone, ⟨_, herr, rfl⟩, ?_⟩
  · intro key other _ _ hsame
    cases key
    cases other
    exact congrArg Key.mk hsame
  · rintro ⟨hclass, -⟩
    rw [herr, hnone] at hclass
    exact hclass

/-- The records of the same acquisitions: same keys, tokens ordered alike. -/
def OrderIsomorphic (records reference : List Record) : Prop :=
  records.map Record.key = reference.map Record.key ∧
    ∀ (i j : Nat) (r s r' s' : Record), records[i]? = some r → records[j]? = some s →
      reference[i]? = some r' → reference[j]? = some s' → r.key = s.key →
      (r.token < s.token ↔ r'.token < s'.token) ∧ (r.token = s.token ↔ r'.token = s'.token)

theorem orderIsomorphic {pairs : List (Record × Record)} (ho : Ordered pairs)
    (hk : ∀ p ∈ pairs, p.2.key = p.1.key) :
    OrderIsomorphic (pairs.map Prod.fst) (pairs.map Prod.snd) := by
  constructor
  · rw [List.map_map, List.map_map]
    exact List.map_congr_left (fun p hp => (hk p hp).symm)
  · intro i j r s r' s' hr hs hr' hs' hkey
    rw [List.getElem?_map] at hr hs hr' hs'
    cases hp : pairs[i]? with
    | none => rw [hp] at hr; cases hr
    | some p =>
        cases hq : pairs[j]? with
        | none => rw [hq] at hs; cases hs
        | some q =>
            rw [hp] at hr hr'
            rw [hq] at hs hs'
            cases hr
            cases hs
            cases hr'
            cases hs'
            obtain ⟨hi, rfl⟩ := List.getElem?_eq_some_iff.mp hp
            obtain ⟨hj, rfl⟩ := List.getElem?_eq_some_iff.mp hq
            rcases Nat.lt_trichotomy i j with hij | rfl | hij
            · have hlt := List.pairwise_iff_getElem.mp ho i j hi hj hij hkey
              omega
            · omega
            · have hlt := List.pairwise_iff_getElem.mp ho j i hj hi hij hkey.symm
              omega

section Runs

variable {store : Store} {memory : Memory.Store} {past : List Command} {command : Command}

theorem Admissible.earlier (h : Admissible store memory (past ++ [command])) :
    Admissible store memory past where
  collisionFree := fun _ _ ⟨c, hm, hc⟩ ⟨c', hm', hc'⟩ =>
    h.collisionFree _ _ ⟨c, List.mem_append_left _ hm, hc⟩ ⟨c', List.mem_append_left _ hm', hc'⟩
  ready := by
    intro before c after he
    apply h.ready before c (after ++ [command])
    rw [he, List.append_assoc, List.cons_append]

theorem Admissible.last (h : Admissible store memory (past ++ [command])) :
    Ready store (run (Play.step store.serve) ⟨.empty, []⟩ past)
      (run (Play.step Memory.Store.exec) ⟨memory, []⟩ past) command := h.ready past command [] rfl

/-- The two plays hold the two sides of the same pairs of records. -/
def PlaySim (store : Store) (used : Key → Prop) (postgres : Play Database) (reference : Play Memory.Store) :
    Prop :=
  ∃ pairs, postgres.records = pairs.map Prod.fst ∧ reference.records = pairs.map Prod.snd ∧
    Sim store used postgres.state reference.state pairs

theorem sameClass_none {err err' : Option Error} (h : SameClass err err') : err = none ↔ err' = none := by
  cases err <;> cases err' <;> simp [SameClass] at h ⊢

theorem PlaySim.step {used : Key → Prop} {postgres : Play Database} {reference : Play Memory.Store}
    (h : PlaySim store used postgres reference) (hfree : CollisionFree store used)
    (hready : Ready store postgres reference command)
    (hused : ∀ key owner ttl, command.action = .acquire key owner ttl → used key) :
    Follows (Play.step store.serve postgres command).2
        (Play.step Memory.Store.exec reference command).2 ∧
      PlaySim store used (Play.step store.serve postgres command).1
        (Play.step Memory.Store.exec reference command).1 := by
  obtain ⟨db, records⟩ := postgres
  obtain ⟨memory, records'⟩ := reference
  obtain ⟨pairs, hp, hm, hsim⟩ := h
  obtain ⟨now, ctx, action⟩ := command
  dsimp only at hp hm hsim
  subst hp hm
  have hafter : After store used pairs
      (store.serve db ⟨now, ctx, action.request (pairs.map Prod.fst)⟩)
      (memory.exec ⟨now, ctx, action.request (pairs.map Prod.snd)⟩) action.acquires := by
    cases action with
    | acquire key owner ttl =>
        obtain ⟨⟨k, rfl⟩, htext, hfence, hcap⟩ := hready
        exact hsim.acquire hfree (hused key owner _ rfl) htext hfence hcap now ctx k
    | renew source ttl =>
        obtain ⟨⟨k, rfl⟩, hexp⟩ := hready
        exact hsim.renew hfree (hsim.counterparts source) now ctx k hexp
    | validate source => exact hsim.validate (hsim.counterparts source) now ctx
    | release source => exact hsim.release hfree (hsim.counterparts source) now ctx
  obtain ⟨hfollows, hnext⟩ := hafter
  refine ⟨hfollows, _, ?_, ?_, hnext⟩
  · dsimp only [Play.step]
    split
    next => rw [List.map_append]; rfl
    next => rfl
  · dsimp only [Play.step]
    rw [if_congr (and_congr_right' (sameClass_none hfollows.1).symm) rfl rfl]
    split
    next => rw [List.map_append]; rfl
    next => rfl

theorem playSim_run {used : Key → Prop} {maxKeys : Nat} (hfree : CollisionFree store used)
    (h : Admissible store ⟨maxKeys, ∅⟩ past)
    (hused : ∀ command ∈ past, ∀ key owner ttl, command.action = .acquire key owner ttl → used key) :
    PlaySim store used (run (Play.step store.serve) ⟨.empty, []⟩ past)
      (run (Play.step Memory.Store.exec) ⟨⟨maxKeys, ∅⟩, []⟩ past) := by
  refine prefix_rule (A := fun past => Admissible store ⟨maxKeys, ∅⟩ past ∧ ∀ command ∈ past,
    ∀ key owner ttl, command.action = .acquire key owner ttl → used key)
    (P := fun past => PlaySim store used (run (Play.step store.serve) ⟨.empty, []⟩ past)
      (run (Play.step Memory.Store.exec) ⟨⟨maxKeys, ∅⟩, []⟩ past)) ?_ ?_ ?_ ⟨h, hused⟩
  · intro past command ⟨h, hused⟩
    exact ⟨h.earlier, fun c hm => hused c (List.mem_append_left _ hm)⟩
  · exact ⟨[], rfl, rfl, ⟨fun _ _ => .inl ⟨rfl, rfl⟩, List.Pairwise.nil, nofun, nofun⟩⟩
  · intro past command ⟨h, hused⟩ ih
    rw [run_append, run_append]
    exact (ih.step hfree h.last (hused command (List.mem_append_right _ List.mem_cons_self))).2

/-- The PostgreSQL store follows the memory store through every admissible
history, and the tokens of the two runs are ordered alike. -/
theorem follows_memory {maxKeys : Nat} (hnew : Memory.new maxKeys = .ok memory)
    (h : Admissible store memory (past ++ [command])) :
    let postgres := Play.step store.serve (run (Play.step store.serve) ⟨.empty, []⟩ past) command
    let reference := Play.step Memory.Store.exec (run (Play.step Memory.Store.exec) ⟨memory, []⟩ past) command
    Follows postgres.2 reference.2 ∧ OrderIsomorphic postgres.1.records reference.1.records := by
  obtain rfl := Memory.new_ok hnew
  have hused : ∀ c ∈ past ++ [command], ∀ key owner ttl, c.action = .acquire key owner ttl →
      ∃ c' ∈ past ++ [command], ∃ owner ttl, c'.action = .acquire key owner ttl :=
    fun c hm key owner ttl hc => ⟨c, hm, owner, ttl, hc⟩
  have hsim := playSim_run h.collisionFree h.earlier (fun c hm => hused c (List.mem_append_left _ hm))
  obtain ⟨hfollows, pairs, hp, hm, hnext⟩ := hsim.step h.collisionFree h.last
    (hused command (List.mem_append_right _ List.mem_cons_self))
  refine ⟨hfollows, ?_⟩
  rw [hp, hm]
  exact orderIsomorphic hnext.ordered (fun p hp => (hnext.returned p hp).2.1)

/-- A contended attempt between two acquisitions consumes a fence. -/
def attempts : List Command :=
  [⟨0, none, .acquire ⟨[107]⟩ [97] (10 * millisecond)⟩,
    ⟨5 * millisecond, none, .acquire ⟨[107]⟩ [98] (10 * millisecond)⟩]

theorem follows_memory_contended :
    let store : Store := ⟨id, fun _ => true⟩
    let last : Command := ⟨10 * millisecond, none, .acquire ⟨[107]⟩ [98] (10 * millisecond)⟩
    let postgres := Play.step store.serve (run (Play.step store.serve) ⟨.empty, []⟩ attempts) last
    let reference := Play.step Memory.Store.exec
      (run (Play.step Memory.Store.exec) ⟨⟨1, ∅⟩, []⟩ attempts) last
    (Follows postgres.2 reference.2 ∧ OrderIsomorphic postgres.1.records reference.1.records) ∧
      postgres.1.records.map Record.token = [1, 3] ∧ reference.1.records.map Record.token = [1, 2] := by
  refine ⟨follows_memory (show Memory.new 1 = .ok _ from rfl) ⟨?_, ?_⟩, by decide, by decide⟩
  · exact fun key other _ _ h => by cases key; cases other; exact congrArg Key.mk h
  · intro before command after he
    rcases before with _ | ⟨a, _ | ⟨b, _ | ⟨c, rest⟩⟩⟩
    · cases he
      exact ⟨⟨10, rfl⟩, rfl, by decide, by decide⟩
    · cases he
      exact ⟨⟨10, rfl⟩, rfl, by decide, by decide⟩
    · cases he
      exact ⟨⟨10, rfl⟩, rfl, by decide, by decide⟩
    · cases rest <;> cases he

end Runs

end GoLease.Postgres
