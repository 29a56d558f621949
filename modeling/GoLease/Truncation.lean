import GoLease.Coverage
import GoLease.Postgres.Ownership
import GoLease.Valkey.Ownership

namespace GoLease.Truncation

open Lifecycle Coverage

/-- What the native stores may take from a TTL: less than a millisecond of the
TTL itself and, on Valkey, less than another of the instant it starts at. -/
def slack : Int := 2 * millisecond

theorem truncated_lt {ttl : Int} (h : millisecond ≤ ttl) :
    ttl < ttl.tdiv millisecond * millisecond + millisecond := by
  simp only [millisecond] at h ⊢
  rw [Int.tdiv_eq_ediv_of_nonneg (by omega)]
  omega

section Postgres

open Postgres Database

variable {store : Postgres.Store} {db db' : Database} {now deadline : Int} {granted : Record}
  {request : Request} {reply : Reply}

def Stands (store : Postgres.Store) (db : Database) (granted : Record) (deadline : Int) : Prop :=
  ∃ row, db.records (store.digest granted.key) = some row ∧ row.active = true ∧
    row.owner = granted.owner ∧ row.token = granted.token ∧ deadline ≤ row.expiresAt

theorem le_expiry {ttl : Int} (hmin : millisecond ≤ ttl) (hd : deadline + slack ≤ now + ttl) :
    deadline ≤ now + milliseconds ttl * millisecond := by
  have hlt := truncated_lt hmin
  unfold milliseconds
  simp only [slack, millisecond] at hd hlt ⊢
  omega

theorem stands_setRecord {digest : Bytes} {row : Row} (hk : store.digest granted.key = digest)
    (ha : row.active = true) (ho : row.owner = granted.owner) (ht : row.token = granted.token)
    (hd : deadline ≤ row.expiresAt) : Stands store (db.setRecord digest row) granted deadline := by
  refine ⟨row, ?_, ha, ho, ht, hd⟩
  rw [hk, setRecord_self]

theorem Stands.step (h : Stands store db granted deadline) (hs : store.Step now db request (db', reply))
    (hlt : now < deadline)
    (hrelease : ∀ owned, request = .release owned → ¬Tied store.digest granted owned)
    (hrenew : ∀ owned ttl, request = .renew owned ttl → Tied store.digest granted owned →
      deadline + slack ≤ now + ttl) : Stands store db' granted deadline := by
  obtain ⟨row, hr, ha, ho, ht, hd⟩ := h
  have hframe (base : Database) (hbase : base.records = db.records) {digest : Bytes}
      (hne : store.digest granted.key ≠ digest) (other : Row) :
      Stands store (base.setRecord digest other) granted deadline :=
    ⟨row, (setRecord_of_ne base hne other).trans (hbase ▸ hr), ha, ho, ht, hd⟩
  cases hs with
  | kept | contended => exact ⟨row, hr, ha, ho, ht, hd⟩
  | @acquired key owner ttl token hvalid htoken hvacant =>
      apply hframe (db.setFence (store.digest key) token) rfl
      intro hk
      rcases hvacant row (hk ▸ hr) with hf | hle
      · rw [ha] at hf
        cases hf
      · omega
  | @renewed owned ttl current _ hvalid hrow hcurrent =>
      by_cases hk : store.digest granted.key = store.digest owned.key
      · rw [← hk, hr] at hrow
        cases hrow
        obtain ⟨howner, htoken, _, _⟩ := hcurrent
        have hnear := hrenew owned ttl rfl ⟨hk.symm, howner.symm.trans ho, htoken.symm.trans ht⟩
        exact stands_setRecord hk ha ho ht (le_expiry (accepted hvalid).2.2.2 hnear)
      · exact hframe db rfl hk _
  | @released owned current hrow howner htoken =>
      by_cases hk : store.digest granted.key = store.digest owned.key
      · rw [← hk, hr] at hrow
        cases hrow
        exact absurd ⟨hk.symm, howner.symm.trans ho, htoken.symm.trans ht⟩ (hrelease owned rfl)
      · exact hframe db rfl hk _

/-- The fence of a digest, zero before the first. -/
def reached (db : Database) (digest : Bytes) : Nat := (db.fences digest).getD 0

theorem reached_nextFence {digest : Bytes} {token : Nat} (h : db.nextFence digest = some token) :
    reached db digest < token := by
  unfold reached
  cases hf : db.fences digest with
  | none => exact (Fences.nextFence_range h).1
  | some fence => exact Fences.nextFence_lt h hf

theorem reached_step (hs : store.Step now db request (db', reply)) (digest : Bytes) :
    reached db digest ≤ reached db' digest := by
  have hset {key : Bytes} {token : Nat} (ht : db.nextFence key = some token) :
      reached db digest ≤ reached (db.setFence key token) digest := by
    by_cases hk : digest = key
    · subst hk
      rw [reached, reached, setFence_self]
      exact Nat.le_of_lt (reached_nextFence ht)
    · rw [reached, reached, setFence_of_ne db hk]
  cases hs with
  | kept | renewed | released => exact Nat.le_refl _
  | contended htoken => exact hset htoken
  | acquired hvalid htoken => exact hset htoken

theorem stands_acquired {key : Key} {owner : Bytes} {ttl : Int} {record : Record}
    (hs : store.Step now db (.tryAcquire key owner ttl) (db', ⟨record, none⟩)) :
    record.key = key ∧ reached db (store.digest key) < record.token ∧
      record.token ≤ reached db' (store.digest key) ∧
      ∀ deadline, deadline + slack ≤ now + ttl → Stands store db' record deadline := by
  cases hs with
  | kept hacquire => exact absurd rfl (hacquire key owner ttl rfl)
  | acquired hvalid htoken =>
      refine ⟨rfl, reached_nextFence htoken, ?_, ?_⟩
      · exact Nat.le_of_eq (congrArg (Option.getD · 0) (setFence_self db _ _)).symm
      · intro deadline hd
        exact stands_setRecord rfl rfl rfl rfl (le_expiry (accepted hvalid).2.2.2 hd)

theorem stands_renewed {owned : Record} {ttl : Int} (hs : store.Step now db (.renew owned ttl) (db', reply))
    (hreply : reply.err = none) (hsame : Continues granted owned)
    (hd : deadline + slack ≤ now + ttl) : Stands store db' granted deadline := by
  cases hs with
  | kept _ hrenew => exact absurd hreply (hrenew owned ttl rfl)
  | renewed hvalid hrow hcurrent =>
      obtain ⟨howner, htoken, hactive, _⟩ := hcurrent
      exact stands_setRecord (congrArg store.digest hsame.1.symm) hactive (howner.trans hsame.2.1)
        (htoken.trans hsame.2.2) (le_expiry (accepted hvalid).2.2.2 hd)

def postgresContract (store : Postgres.Store) : Contract store.serve store.digest slack where
  ok _ := True
  fence := reached
  backs := Stands store
  ok_exec _ _ _ := trivial
  fence_exec call _ _ key := reached_step (Postgres.Store.serve_step _ call) (store.digest key)
  acquired := by
    intro db call key owner ttl record _ hrequest _ hreply
    have hs : store.Step call.now db call.request (store.serve db call) := Postgres.Store.serve_step db call
    rw [hrequest, ← Prod.eta (store.serve db call), hreply] at hs
    exact stands_acquired hs
  renewed := by
    intro db call granted owned ttl _ hrequest _ hsame hreply deadline hd
    have hs : store.Step call.now db call.request (store.serve db call) := Postgres.Store.serve_step db call
    rw [hrequest] at hs
    exact stands_renewed hs hreply hsame hd
  kept := by
    intro db call granted deadline _ _ hback hlt hrelease hrenew
    exact hback.step (Postgres.Store.serve_step db call) hlt hrelease hrenew

end Postgres

section Valkey

open Valkey Decimal

variable {store : Valkey.Store} {keys keys' : Keyspace} {now deadline : Int} {granted : Record}
  {request : Request} {reply : Reply}

/-- The millisecond of the server at an instant. -/
def msAt (now : Int) : Nat := (now / 1000).toNat / 1000

/-- The hash of the acquisition is there, and the millisecond from which it is
gone does not start before the deadline. -/
def Lives (store : Valkey.Store) (keys : Keyspace) (granted : Record) (deadline : Int) : Prop :=
  ∃ acquired expires gone, keys (store.leaseKey granted.key) =
      some ⟨leaseHash granted.owner (format granted.token) acquired expires, some gone⟩ ∧
    0 < gone ∧ deadline ≤ unixMilli gone

/-- Both truncations together stay below the slack. -/
theorem le_gone {ttl : Int} (hmin : millisecond ≤ ttl) (hd : deadline + slack ≤ now + ttl) :
    0 < msAt now + span ttl ∧ deadline ≤ unixMilli (msAt now + span ttl : Nat) := by
  have hlt := truncated_lt hmin
  have hnonneg : 0 ≤ ttl.tdiv millisecond := Int.tdiv_nonneg (by simp only [millisecond] at hmin; omega) (by decide)
  unfold span msAt unixMilli
  simp only [slack, millisecond] at hd hlt hmin hnonneg ⊢
  omega

theorem Lives.find (h : Lives store keys granted deadline) (hlt : now < deadline) :
    ∃ acquired expires gone, keys.find (msAt now) (store.leaseKey granted.key) =
      some ⟨leaseHash granted.owner (format granted.token) acquired expires, gone⟩ := by
  obtain ⟨acquired, expires, gone, hk, hpos, hd⟩ := h
  refine ⟨acquired, expires, some gone, ?_⟩
  have hlive : msAt now < gone := by
    unfold msAt
    simp only [unixMilli, millisecond] at hd
    omega
  rw [Keyspace.find, hk]
  exact Option.filter_eq_some_iff.mpr ⟨rfl, by simpa [Item.live] using hlive⟩

theorem lives_update {lease acquired expires : Bytes} {owner : Bytes} {token gone : Nat}
    (hk : store.leaseKey granted.key = lease) (ho : owner = granted.owner) (ht : token = granted.token)
    (hd : 0 < gone ∧ deadline ≤ unixMilli gone) :
    Lives store (Function.update keys lease
      (some ⟨leaseHash owner (format token) acquired expires, some gone⟩)) granted deadline := by
  subst hk ho ht
  exact ⟨acquired, expires, gone, Function.update_self _ _ _, hd⟩

theorem Lives.step (h : Lives store keys granted deadline)
    (hs : store.Step (now / 1000).toNat keys request (keys', reply)) (hlt : now < deadline)
    (hrelease : ∀ owned, request = .release owned → ¬Tied store.counterKey granted owned)
    (hrenew : ∀ owned ttl, request = .renew owned ttl → Tied store.counterKey granted owned →
      deadline + slack ≤ now + ttl) : Lives store keys' granted deadline := by
  obtain ⟨_, _, _, hfind⟩ := h.find hlt
  obtain ⟨acquired, expires, gone, hk, hd⟩ := h
  have hframe {lease : Bytes} (hne : store.leaseKey granted.key ≠ lease) (item : Option Item) :
      Lives store (Function.update keys lease item) granted deadline :=
    ⟨acquired, expires, gone, (Function.update_of_ne hne _ _).trans hk, hd⟩
  -- A hash found under the key of the acquisition is the one of the acquisition.
  have hsame {owned : Record} {acquired expires : Bytes} {gone : Option Nat}
      (hl : keys.find (msAt now) (store.leaseKey owned.key) =
        some ⟨leaseHash owned.owner (format owned.token) acquired expires, gone⟩)
      (he : store.leaseKey granted.key = store.leaseKey owned.key) :
      Tied store.counterKey granted owned := by
    rw [← he, hfind] at hl
    obtain ⟨ho, ht⟩ := leaseHash_injective (Item.mk.inj (Option.some.inj hl)).1
    exact ⟨(Valkey.Store.counterKey_eq_of_leaseKey he).symm, ho.symm, format_injective ht.symm⟩
  cases hs with
  | kept => exact ⟨acquired, expires, gone, hk, hd⟩
  | @acquired key owner ttl hvalid hl hn =>
      have hne : store.leaseKey granted.key ≠ store.leaseKey key := by
        intro he
        rw [← he] at hl
        exact absurd (hfind.symm.trans hl) nofun
      refine ⟨acquired, expires, gone, ?_, hd⟩
      rw [Function.update_of_ne hne, Function.update_of_ne Valkey.Store.counterKey_ne_leaseKey.symm, hk]
  | @renewed owned ttl _ _ _ _ hvalid hl =>
      by_cases he : store.leaseKey granted.key = store.leaseKey owned.key
      · have htied := hsame hl he
        have hmin := (Valkey.Store.spec_of_validate hvalid).2.2
        exact lives_update he htied.2.1 htied.2.2 (le_gone hmin (hrenew owned ttl rfl htied))
      · exact hframe he _
  | @released owned _ _ _ hl =>
      by_cases he : store.leaseKey granted.key = store.leaseKey owned.key
      · exact absurd (hsame hl he) (hrelease owned rfl)
      · exact hframe he _

theorem lives_acquired {key : Key} {owner : Bytes} {ttl : Int} {record : Record}
    (hs : store.Step (now / 1000).toNat keys (.tryAcquire key owner ttl) (keys', ⟨record, none⟩)) :
    record.key = key ∧ store.fence keys key < record.token ∧ record.token ≤ store.fence keys' key ∧
      ∀ deadline, deadline + slack ≤ now + ttl → Lives store keys' record deadline := by
  generalize hresult : (keys', (⟨record, none⟩ : Reply)) = result at hs
  cases hs with
  | kept hacquire =>
      obtain ⟨rfl, rfl⟩ := Prod.mk.inj hresult
      exact absurd rfl (hacquire key owner ttl rfl)
  | acquired hvalid hl hn =>
      obtain ⟨rfl, hreply⟩ := Prod.mk.inj hresult
      obtain ⟨parsed, hparsed⟩ := Valkey.Store.ofRecord_err.mp (congrArg Reply.err hreply.symm)
      obtain rfl : parsed = record := by
        rw [hparsed] at hreply
        exact (congrArg Reply.record hreply).symm
      obtain ⟨hkey, howner, htoken⟩ := Valkey.Store.parseRecord_names (by omega) hparsed
      refine ⟨hkey, ?_, ?_, ?_⟩
      · rw [htoken]
        exact Nat.lt_succ_self _
      · rw [htoken, Valkey.Store.fence_update_leaseKey, Valkey.Store.fence_update_counterKey, if_pos rfl]
      · intro deadline hd
        exact lives_update (by rw [hkey]) howner.symm htoken.symm
          (le_gone (Valkey.Store.spec_of_validate hvalid).2.2 hd)

theorem lives_renewed {owned : Record} {ttl : Int}
    (hs : store.Step (now / 1000).toNat keys (.renew owned ttl) (keys', reply)) (hreply : reply.err = none)
    (hsame : Continues granted owned) (hd : deadline + slack ≤ now + ttl) :
    Lives store keys' granted deadline := by
  cases hs with
  | kept _ hrenew => exact absurd hreply (hrenew owned ttl rfl)
  | renewed hvalid hl =>
      exact lives_update (by rw [hsame.1]) hsame.2.1 hsame.2.2
        (le_gone (Valkey.Store.spec_of_validate hvalid).2.2 hd)

def valkeyContract (store : Valkey.Store) : Contract store.serve store.counterKey slack where
  ok := store.WellFormed
  fence keys counter := keys.count counter
  backs := Lives store
  ok_exec call hok hfits := hok.step (Valkey.Store.serve_step hok call hfits)
  fence_exec call hok hfits key := (Valkey.Store.serve_step hok call hfits).fence_le key
  acquired := by
    intro keys call key owner ttl record hok hrequest httl hreply
    have hs := Valkey.Store.serve_step hok call (by rw [hrequest]; exact httl)
    rw [hrequest, ← Prod.eta (store.serve keys call), hreply] at hs
    exact lives_acquired hs
  renewed := by
    intro keys call granted owned ttl hok hrequest httl hsame hreply deadline hd
    have hs := Valkey.Store.serve_step hok call (by rw [hrequest]; exact httl)
    rw [hrequest] at hs
    exact lives_renewed hs hreply hsame hd
  kept := by
    intro keys call granted deadline hok hfits hback hlt hrelease hrenew
    exact hback.step (Valkey.Store.serve_step hok call hfits) hlt hrelease hrenew

end Valkey

/-- Truncation of TTLs and instants to milliseconds stays inside a margin of
two. Whatever clients and handles over a PostgreSQL or a Valkey server do in
whatever order, a handle with such a margin that admits work and has no Release
dispatched is backed by a lease that the server holds at that instant. -/
theorem truncation_within_margin (postgres : Postgres.Store) (db : Postgres.Database)
    (valkey : Valkey.Store) {keys : Valkey.Keyspace} (hkeys : valkey.WellFormed keys) (now : Int)
    (events : List Fleet.Event) :
    (let f := events.foldl (Fleet.step postgres.serve) (Fleet.start now db)
      ∀ i m, f.Admits i m → f.Unreleased i → 2 * millisecond ≤ m.handle.policy.safetyMargin.toInt →
        ∃ row, f.store.records (postgres.digest m.handle.record.key) = some row ∧
          Postgres.Database.Current row m.handle.record.owner m.handle.record.token f.now) ∧
    (let f := events.foldl (Fleet.step valkey.serve) (Fleet.start now keys)
      ∀ i m, f.Admits i m → f.Unreleased i → 2 * millisecond ≤ m.handle.policy.safetyMargin.toInt →
        ∃ acquired expires gone,
          f.store.find (msAt f.now) (valkey.leaseKey m.handle.record.key) =
            some ⟨Valkey.leaseHash m.handle.record.owner (Decimal.format m.handle.record.token) acquired
              expires, gone⟩) := by
  refine ⟨?_, ?_⟩
  · intro f i m ha hu hmargin
    have h : Inv (postgresContract postgres) f := inv_run trivial now events
    obtain ⟨_, granted, deadline, _, _, hsame, hlt, row, hr, hactive, ho, ht, hd⟩ :=
      h.backed ha hu hmargin
    obtain ⟨hkey, howner, htoken⟩ := hsame
    rw [hkey, howner, htoken]
    exact ⟨row, hr, ho, ht, hactive, Int.lt_of_lt_of_le hlt hd⟩
  · intro f i m ha hu hmargin
    have h : Inv (valkeyContract valkey) f := inv_run hkeys now events
    obtain ⟨_, granted, deadline, _, _, hsame, hlt, hlives⟩ := h.backed ha hu hmargin
    obtain ⟨hkey, howner, htoken⟩ := hsame
    rw [hkey, howner, htoken]
    exact hlives.find hlt

/-- A TTL and a margin that both lose to truncation. -/
def brief : Policy.Accepted :=
  ⟨_, { ttl := 4999999, safetyMargin := 2000000, maxAttempts := 1 }, rfl⟩

/-- Granted at the end of a millisecond, the lease is observed just before the
handle's deadline. -/
def grantedLate : List Fleet.Event :=
  [.dispatchAcquire ⟨[107]⟩ [97] brief 5, .executeAcquire 0 none, .completeAcquire 0, .tick 2999998]

theorem truncation_within_margin_late :
    (∃ row, (grantedLate.foldl (Fleet.step (Postgres.Store.serve ⟨id, fun _ => true⟩))
        (Fleet.start 1999999 Postgres.Database.empty)).store.records [107] = some row ∧
      Postgres.Database.Current row [97] 1 4999997) ∧
    ∃ acquired expires gone, (grantedLate.foldl (Fleet.step Valkey.Store.plain.serve)
        (Fleet.start 1999999 (fun _ => none))).store.find 4 (Valkey.Store.plain.leaseKey ⟨[107]⟩) =
      some ⟨Valkey.leaseHash [97] (Decimal.format 1) acquired expires, gone⟩ := by
  have h := truncation_within_margin ⟨id, fun _ => true⟩ Postgres.Database.empty Valkey.Store.plain
    Valkey.Store.wellFormed_empty 1999999 grantedLate
  have hmargin {m : Machine} (hp : m.handle.policy = brief.1) :
      2 * millisecond ≤ m.handle.policy.safetyMargin.toInt := by
    rw [hp]
    decide
  refine ⟨?_, ?_⟩
  · have hu : Fleet.Unreleased (grantedLate.foldl (Fleet.step (Postgres.Store.serve ⟨id, fun _ => true⟩))
        (Fleet.start 1999999 Postgres.Database.empty)) 0 := fun msg hm => absurd hm (List.not_mem_nil)
    exact h.1 0 _ ⟨rfl, 5, by decide⟩ hu (hmargin rfl)
  · have hu : Fleet.Unreleased (grantedLate.foldl (Fleet.step Valkey.Store.plain.serve)
        (Fleet.start 1999999 (fun _ => none))) 0 := fun msg hm => absurd hm (List.not_mem_nil)
    obtain ⟨m, ha, hkey, howner, htoken, hp⟩ : ∃ m, Fleet.Admits (grantedLate.foldl
        (Fleet.step Valkey.Store.plain.serve) (Fleet.start 1999999 (fun _ => none))) 0 m ∧
        m.handle.record.key = ⟨[107]⟩ ∧ m.handle.record.owner = [97] ∧ m.handle.record.token = 1 ∧
        m.handle.policy = brief.1 :=
      ⟨_, ⟨rfl, 5, by decide⟩, by decide, by decide, by decide, rfl⟩
    have hfind := h.2 0 m ha hu (hmargin hp)
    rw [hkey, howner, htoken] at hfind
    exact hfind

end GoLease.Truncation
