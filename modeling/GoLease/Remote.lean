import GoLease.Lossy.Stores
import GoLease.Truncation

/-!
Clients at a distance from their server. The connection loses calls and
answers, and the server's clock is off by an amount that nobody knows.
-/

namespace GoLease.Remote

open Coverage Lifecycle Lossy Truncation

/-- How a call finds the server: what its clock reads beyond the time of the
clients, and what the connection does to the call. -/
structure Weather where
  ahead : Int
  fault : Fault

structure Server (σ : Type) where
  store : σ
  calls : Nat

section Exec

variable {σ : Type}

/-- The call with the reading of the server's clock. -/
def Weather.read (weather : Weather) (call : Call) : Call :=
  { call with now := call.now + weather.ahead }

/-- The n-th call that is sent meets the n-th weather. -/
def exec (link : Fault → σ → Call → σ × Reply) (weather : Nat → Weather) (server : Server σ) (call : Call) :
    Server σ × Reply :=
  let today := weather server.calls
  let result := link today.fault server.store (today.read call)
  (⟨result.1, server.calls + 1⟩, result.2)

def Within (offset tolerance : Int) (ahead : Int) : Prop :=
  offset - tolerance ≤ ahead ∧ ahead ≤ offset + tolerance

/-- A link to a server that executes a call at most once, and that does not
report success for an answer that it has lost. -/
def Truthful (serve : σ → Call → σ × Reply) (link : Fault → σ → Call → σ × Reply) : Prop :=
  ∀ fault store call, Passes serve (fun _ reply => reply.err ≠ none) store call (link fault store call)

end Exec

section Contract

variable {σ κ : Type} {serve : σ → Call → σ × Reply} {slot : Key → κ} {slack : Int}
  {link : Fault → σ → Call → σ × Reply} {weather : Nat → Weather} {offset tolerance : Int}

theorem Truthful.kept (h : Truthful serve link) {P : σ → Prop} {store : σ} (call : Call) (fault : Fault)
    (hold : P store) (hserved : P (serve store call).1) : P (link fault store call).1 := by
  rcases h fault store call with hdone | ⟨_, hexecuted | hmissed⟩
  · rw [hdone]
    exact hserved
  · rw [hexecuted]
    exact hserved
  · rw [hmissed]
    exact hold

theorem Truthful.eq_of_ok (h : Truthful serve link) {store : σ} {call : Call} {fault : Fault}
    (hreply : (link fault store call).2.err = none) : link fault store call = serve store call := by
  rcases h fault store call with hdone | ⟨herr, _⟩
  · exact hdone
  · exact absurd hreply herr

/-- A margin that takes up what the store cuts from a TTL and twice what the
server's clock may wander is a margin over such a link. -/
def contract (c : Contract serve slot slack) (hlink : Truthful serve link)
    (hw : ∀ n, Within offset tolerance (weather n).ahead) :
    Contract (exec link weather) slot (slack + 2 * tolerance) where
  ok server := c.ok server.store
  fence server := c.fence server.store
  backs server granted deadline := c.backs server.store granted (deadline + offset + tolerance)
  ok_exec {server} call hok hfits := by
    exact hlink.kept (P := c.ok) _ _ hok (c.ok_exec ((weather server.calls).read call) hok hfits)
  fence_exec {server} call hok hfits key := by
    apply hlink.kept (P := fun store => c.fence server.store (slot key) ≤ c.fence store (slot key))
    · exact Nat.le_refl _
    · exact c.fence_exec ((weather server.calls).read call) hok hfits key
  acquired := by
    intro server call key owner ttl record hok hrequest httl hreply
    have hdone := hlink.eq_of_ok (congrArg Reply.err hreply)
    have hlow := (hw server.calls).1
    simp only [exec, hdone] at hreply ⊢
    obtain ⟨hkey, hlt, hle, hbacks⟩ :=
      c.acquired ((weather server.calls).read call) hok hrequest httl hreply
    refine ⟨hkey, hlt, hle, fun deadline hd => hbacks _ ?_⟩
    simp only [Weather.read]
    omega
  renewed := by
    intro server call granted owned ttl hok hrequest httl hsame hreply deadline hd
    have hdone := hlink.eq_of_ok hreply
    have hlow := (hw server.calls).1
    simp only [exec, hdone] at hreply ⊢
    refine c.renewed ((weather server.calls).read call) hok hrequest httl hsame hreply _ ?_
    simp only [Weather.read]
    omega
  kept := by
    intro server call granted deadline hok hfits hback hlt hrelease hrenew
    obtain ⟨hlow, hhigh⟩ := hw server.calls
    refine hlink.kept (P := fun store => c.backs store granted (deadline + offset + tolerance)) _ _ hback ?_
    refine c.kept ((weather server.calls).read call) hok hfits hback ?_ hrelease ?_
    · simp only [Weather.read]
      omega
    · intro owned ttl he ht
      have hnear := hrenew owned ttl he ht
      simp only [Weather.read]
      omega

end Contract

section Links

/-- A call of postgres.Store over such a connection. -/
def postgresLink (store : Postgres.Store) (fault : Fault) (db : Postgres.Database) (call : Call) :
    Postgres.Database × Reply :=
  let driver := faultyDriver fault (Postgres.Responses.serving store (Postgres.frozen call.now) [])
  Postgres.Responses.exec store driver db call.ctx (fault.after call.ctx) call.request

def valkeyLink (store : Valkey.Store) (fault : Fault) (keys : Valkey.Keyspace) (call : Call) :
    Valkey.Keyspace × Reply :=
  faultyEval store keys (⟨(call.now / 1000).toNat, call.ctx, call.request⟩, fault)

theorem err_of_unsure {request : Request} {reply : Reply} (h : Unsure request reply) :
    reply.err ≠ none := by
  cases request with
  | tryAcquire | renew | validate | release =>
      obtain ⟨err, herr, _⟩ := h
      rw [herr]
      exact Option.some_ne_none err

theorem postgresLink_truthful (store : Postgres.Store) : Truthful store.serve (postgresLink store) := by
  intro fault db call
  rcases exec_passes store (Postgres.frozen call.now) call.ctx call.request fault db with h | ⟨hu, h⟩
  · exact .inl h
  · exact .inr ⟨err_of_unsure hu, h⟩

theorem valkeyLink_truthful (store : Valkey.Store) : Truthful store.serve (valkeyLink store) := by
  intro fault keys call
  rcases eval_passes store keys (⟨(call.now / 1000).toNat, call.ctx, call.request⟩, fault) with h | ⟨hu, h⟩
  · exact .inl h
  · exact .inr ⟨err_of_unsure hu, h⟩

theorem stands_token_eq {store : Postgres.Store} {db : Postgres.Database} {granted other : Record}
    {deadline later : Int} (h : Stands store db granted deadline) (ho : Stands store db other later)
    (hkey : store.digest granted.key = store.digest other.key) : granted.token = other.token := by
  obtain ⟨row, hr, _, _, ht, _⟩ := h
  obtain ⟨row', hr', _, _, ht', _⟩ := ho
  rw [hkey, hr'] at hr
  cases hr
  exact ht.symm.trans ht'

theorem lives_token_eq {store : Valkey.Store} {keys : Valkey.Keyspace} {granted other : Record}
    {deadline later : Int} (h : Lives store keys granted deadline) (ho : Lives store keys other later)
    (hkey : store.counterKey granted.key = store.counterKey other.key) : granted.token = other.token := by
  obtain ⟨acquired, expires, gone, hk, _⟩ := h
  obtain ⟨acquired', expires', gone', hk', _⟩ := ho
  rw [Valkey.Store.leaseKey_eq_of_counterKey hkey, hk'] at hk
  obtain ⟨_, htoken⟩ := Valkey.leaseHash_injective (Valkey.Item.mk.inj (Option.some.inj hk)).1
  exact Decimal.format_injective htoken.symm

end Links

/-- The handle admits work, has no Release dispatched, and a margin for what
the server cuts from a TTL and for its clock. -/
structure Trusted {σ : Type} (f : Fleet σ) (tolerance : Int) (i : Nat) (m : Machine) : Prop where
  admits : f.Admits i m
  unreleased : f.Unreleased i
  margin : 2 * millisecond + 2 * tolerance ≤ m.handle.policy.safetyMargin.toInt

/-- Neither a connection that drops calls and answers nor a server whose clock
is off by any constant and wanders around it, even backwards, admits two: a
margin of two milliseconds and twice the tolerance is enough. The lease of such
a handle is valid for whatever the server's clock may read now. -/
theorem exclusive_at_a_distance (postgres : Postgres.Store) (db : Postgres.Database)
    (valkey : Valkey.Store) {keys : Valkey.Keyspace} (hkeys : valkey.WellFormed keys)
    {weather : Nat → Weather} {offset tolerance : Int}
    (hweather : ∀ n, Within offset tolerance (weather n).ahead) (now : Int) (events : List Fleet.Event) :
    (let f := events.foldl (Fleet.step (exec (postgresLink postgres) weather)) (Fleet.start now ⟨db, 0⟩)
      ∀ i m, Trusted f tolerance i m →
        (∃ row, f.store.store.records (postgres.digest m.handle.record.key) = some row ∧
          ∀ ahead, Within offset tolerance ahead →
            Postgres.Database.Current row m.handle.record.owner m.handle.record.token (f.now + ahead)) ∧
        ∀ j n, Trusted f tolerance j n →
          postgres.digest n.handle.record.key = postgres.digest m.handle.record.key → j = i) ∧
    (let f := events.foldl (Fleet.step (exec (valkeyLink valkey) weather)) (Fleet.start now ⟨keys, 0⟩)
      ∀ i m, Trusted f tolerance i m →
        (∀ ahead, Within offset tolerance ahead → ∃ acquired expires gone,
          f.store.store.find (msAt (f.now + ahead)) (valkey.leaseKey m.handle.record.key) =
            some ⟨Valkey.leaseHash m.handle.record.owner (Decimal.format m.handle.record.token) acquired
              expires, gone⟩) ∧
        ∀ j n, Trusted f tolerance j n →
          valkey.counterKey n.handle.record.key = valkey.counterKey m.handle.record.key → j = i) := by
  refine ⟨?_, ?_⟩
  · intro f i m ht
    let c := contract (postgresContract postgres) (postgresLink_truthful postgres) hweather
    have hstart : c.ok ⟨db, 0⟩ := trivial
    have h : Inv c f := inv_run hstart now events
    refine ⟨?_, ?_⟩
    · obtain ⟨_, granted, deadline, _, _, ⟨hkey, howner, htoken⟩, hlt, row, hr, hactive, ho, ht', hd⟩ :=
        h.backed ht.admits ht.unreleased ht.margin
      rw [hkey, howner, htoken]
      refine ⟨row, hr, fun ahead hahead => ⟨ho, ht', hactive, Int.lt_of_lt_of_le ?_ hd⟩⟩
      have := hahead.2
      omega
    · intro j n hn hkey
      exact h.exclusive (fun _ _ _ _ => stands_token_eq) ht.admits hn.admits ht.unreleased hn.unreleased
        ht.margin hn.margin hkey
  · intro f i m ht
    let c := contract (valkeyContract valkey) (valkeyLink_truthful valkey) hweather
    have hstart : c.ok ⟨keys, 0⟩ := hkeys
    have h : Inv c f := inv_run hstart now events
    refine ⟨?_, ?_⟩
    · obtain ⟨_, granted, deadline, _, _, ⟨hkey, howner, htoken⟩, hlt, hlives⟩ :=
        h.backed ht.admits ht.unreleased ht.margin
      rw [hkey, howner, htoken]
      intro ahead hahead
      refine Lives.find hlives ?_
      have := hahead.2
      omega
    · intro j n hn hkey
      exact h.exclusive (fun _ _ _ _ => lives_token_eq) ht.admits hn.admits ht.unreleased hn.unreleased
        ht.margin hn.margin hkey

/-- An hour ahead, give or take half a millisecond. The first call is lost. -/
def stormy (n : Nat) : Weather :=
  ⟨3600000000000 + (if n % 2 = 0 then 500000 else -500000),
    if n = 0 then .refused ⟨.foreign "connection reset", none, rfl, rfl⟩ else .none⟩

theorem stormy_within (n : Nat) : Within 3600000000000 500000 (stormy n).ahead := by
  simp only [Within, stormy]
  split <;> omega

def careful : Policy.Accepted :=
  ⟨_, { ttl := 9999999, safetyMargin := 3000000, maxAttempts := 1 }, rfl⟩

def retriedElsewhere : List Fleet.Event :=
  [.dispatchAcquire ⟨[107]⟩ [97] careful 5, .executeAcquire 0 none, .completeAcquire 0,
    .dispatchAcquire ⟨[107]⟩ [98] careful 5, .executeAcquire 1 none, .completeAcquire 1, .tick 6999998]

theorem exclusive_at_a_distance_stormy :
    (∃ row, (retriedElsewhere.foldl (Fleet.step (exec (postgresLink ⟨id, fun _ => true⟩) stormy))
        (Fleet.start 0 ⟨.empty, 0⟩)).store.store.records [107] = some row ∧
      Postgres.Database.Current row [98] 1 3600007499998) ∧
    ∃ acquired expires gone, (retriedElsewhere.foldl
        (Fleet.step (exec (valkeyLink Valkey.Store.plain) stormy))
        (Fleet.start 0 ⟨fun _ => none, 0⟩)).store.store.find 3600007 (Valkey.Store.plain.leaseKey ⟨[107]⟩) =
      some ⟨Valkey.leaseHash [98] (Decimal.format 1) acquired expires, gone⟩ := by
  have h := exclusive_at_a_distance ⟨id, fun _ => true⟩ .empty Valkey.Store.plain
    Valkey.Store.wellFormed_empty stormy_within 0 retriedElsewhere
  have hlimit : Within 3600000000000 500000 3600000500000 := ⟨by decide, by decide⟩
  refine ⟨?_, ?_⟩
  · obtain ⟨row, hr, hcurrent⟩ := (h.1 1 _ ⟨⟨rfl, 5, by decide⟩, fun msg hm => absurd hm List.not_mem_nil,
      by decide⟩).1
    exact ⟨row, hr, hcurrent _ hlimit⟩
  · obtain ⟨m, ha, hkey, howner, htoken, hp⟩ : ∃ m, Fleet.Admits (retriedElsewhere.foldl
        (Fleet.step (exec (valkeyLink Valkey.Store.plain) stormy)) (Fleet.start 0 ⟨fun _ => none, 0⟩)) 1 m ∧
        m.handle.record.key = ⟨[107]⟩ ∧ m.handle.record.owner = [98] ∧ m.handle.record.token = 1 ∧
        m.handle.policy = careful.1 :=
      ⟨_, ⟨rfl, 5, by decide⟩, by decide, by decide, by decide, rfl⟩
    have hfind := (h.2 1 m ⟨ha, fun msg hm => absurd hm List.not_mem_nil, by rw [hp]; decide⟩).1 _ hlimit
    rw [hkey, howner, htoken] at hfind
    exact hfind

end GoLease.Remote
