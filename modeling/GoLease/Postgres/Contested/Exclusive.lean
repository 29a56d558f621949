import GoLease.Postgres.Contested.Serve

namespace GoLease.Postgres.Contested

open Database Pool Traces Lifecycle Coverage Truncation

section Run

variable {store : Store} {f : System} {initial : Database}

theorem acceptable_ttl {ctx : Ctx} {request : Request} (h : acceptable store ctx request = true) :
    (∀ key owner ttl, request = .tryAcquire key owner ttl → millisecond ≤ ttl) ∧
      ∀ owned ttl, request = .renew owned ttl → millisecond ≤ ttl := by
  cases request with
  | tryAcquire key owner ttl =>
      simp only [acceptable, Bool.and_eq_true, Option.isNone_iff_eq_none] at h
      refine ⟨?_, nofun⟩
      rintro _ _ _ ⟨⟩
      exact (accepted h.1).2.2.2
  | renew owned ttl =>
      simp only [acceptable, Bool.and_eq_true, Option.isNone_iff_eq_none] at h
      refine ⟨nofun, ?_⟩
      rintro _ _ ⟨⟩
      exact (accepted h.1).2.2.2
  | validate | release => exact ⟨nofun, nofun⟩

theorem Sound.asks (h : Sound store f initial) {origin : Origin} {ctx : Ctx} {request : Request}
    (hawaited : awaited f origin = some request) (hacceptable : acceptable store ctx request = true) :
    Asked store f ⟨origin, f.now⟩ (statement store request) := by
  cases origin with
  | acquire i =>
      obtain ⟨s, hi, _, rfl⟩ := awaited_acquire hawaited
      exact ⟨s, hi, rfl, (acceptable_ttl hacceptable).1 _ _ _ rfl, (h.coverage.sessions i s hi).started⟩
  | call n =>
      obtain ⟨msg, hn, rfl⟩ := awaited_call hawaited
      obtain ⟨s, m, granted, owned, call, hsent⟩ := h.coverage.messages msg (List.mem_of_getElem? hn)
      exact ⟨msg, hn, rfl, (acceptable_ttl hacceptable).2, hsent.wall⟩
  | cleanup => cases hawaited

theorem Sound.send (h : Sound store f initial) (origin : Origin) (ctx : Ctx) :
    Sound store (send store f origin ctx) initial := by
  unfold Contested.send
  split
  next request hawaited =>
    split
    next hsend => exact h.submit (h.asks hawaited hsend.1) rfl
    next => exact h
  next => exact h

theorem Sound.step (h : Sound store f initial) (event : Event) :
    Sound store (step store f event) initial := by
  cases event with
  | client event => exact h.client event
  | send origin ctx => exact h.send origin ctx
  | cleanup batch doomed => exact h.submit ⟨batch, doomed, rfl⟩ rfl
  | serve event ctx err => exact h.serve event ctx err

theorem sound_start (now : Int) (db : Database) : Sound store (start now db) db := by
  refine ⟨inv_start (Isolation.inv_initial db []) now, rfl, ?_⟩
  intro j ticket session ht
  cases ht

theorem sound_run (store : Store) (now : Int) (db : Database) (events : List Event) :
    Sound store (events.foldl (step store) (start now db)) db :=
  invariant_rule (P := fun f => Sound store f db) (sound_start now db)
    (fun _ event h => h.step event) events

/-- Two leases that the same row secures are the same acquisition. -/
theorem Backs.token_eq {s : Isolation.Server} {granted other : Record} {deadline later : Int}
    (h : Backs store s granted deadline) (ho : Backs store s other later)
    (hkey : store.digest granted.key = store.digest other.key) : granted.token = other.token := by
  obtain ⟨row, hr, hrow⟩ := h.stands
  obtain ⟨row', hr', hrow'⟩ := ho.stands
  rw [hkey, hr'] at hr
  cases hr
  exact hrow.token.symm.trans hrow'.token

end Run

/-- Statements of many clients run concurrently at READ COMMITTED, are cancelled,
lose their connection and are answered late. In every such run the handles that
admit work, have a margin of two milliseconds and no Release dispatched hold
rows that are committed and current, and no two of them share a key. -/
theorem exclusive_when_contested (store : Store) (now : Int) (db : Database) (events : List Event) :
    let f := events.foldl (step store) (start now db)
    ∀ i m, f.Admits i m → f.Unreleased i → 2 * millisecond ≤ m.handle.policy.safetyMargin.toInt →
      (∃ row, f.store.server.db.records (store.digest m.handle.record.key) = some row ∧
        Current row m.handle.record.owner m.handle.record.token f.now) ∧
      ∀ j n, f.Admits j n → f.Unreleased j → 2 * millisecond ≤ n.handle.policy.safetyMargin.toInt →
        store.digest n.handle.record.key = store.digest m.handle.record.key → j = i := by
  intro f i m ha hu hmargin
  have h : Sound store f db := sound_run store now db events
  refine ⟨?_, ?_⟩
  · obtain ⟨_, granted, deadline, _, _, ⟨hkey, howner, htoken⟩, hlt, hbacks⟩ :=
      h.coverage.backed ha hu hmargin
    obtain ⟨row, hrow, hsecures⟩ := hbacks.stands
    rw [hkey, howner, htoken]
    exact ⟨row, hrow, hsecures.owner, hsecures.token, hsecures.active,
      Int.lt_of_lt_of_le hlt hsecures.expiry⟩
  · intro j n hb hv hmargin' hdigest
    exact h.coverage.exclusive (fun _ _ _ _ hbacks hbacks' => hbacks.token_eq hbacks') ha hb hu hv hmargin
      hmargin' hdigest

/-- Two clients race for a key. The second waits for the fence row until the
first commits, and then finds the row in its way. -/
def race : List Event :=
  [.client (.dispatchAcquire ⟨[107]⟩ [97] brief 5), .client (.dispatchAcquire ⟨[107]⟩ [98] brief 5),
    .send (.acquire 0) none, .send (.acquire 1) none] ++
  ([.start 0, .start 1, .fence 0 (frozen 0), .fence 1 (frozen 0), .install 0 (frozen 0), .commit 0,
    .fence 1 (frozen 0), .install 1 (frozen 0), .commit 1] : List Isolation.Event).map
      (.serve · none (.foreign "connection")) ++
  [.client (.completeAcquire 0), .client (.completeAcquire 1), .client (.tick 1000)]

theorem exclusive_when_contested_race :
    ∃ row, (race.foldl (step ⟨id, fun _ => true⟩) (start 1999999 .empty)).store.server.db.records [107] =
      some row ∧ Current row [97] 1 2000999 := by
  have hu : Fleet.Unreleased (race.foldl (step ⟨id, fun _ => true⟩) (start 1999999 .empty)) 0 :=
    fun msg hm => absurd hm List.not_mem_nil
  exact (exclusive_when_contested ⟨id, fun _ => true⟩ 1999999 .empty race 0 _ ⟨rfl, 5, by decide⟩ hu
    (by decide)).1

end GoLease.Postgres.Contested
