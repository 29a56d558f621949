import GoLease.Fencing
import GoLease.FleetSteps
import GoLease.Truncation
import GoLease.Admission

namespace GoLease.Protected

open Lifecycle Coverage Fencing Traces Pool

/-- The resource of the protectedwrite example: the highest fence it has
accepted and the effect that came with it. -/
structure Resource where
  fence : Nat
  value : Bytes
  deriving DecidableEq, Repr

/-- The comparison and the effect share one critical section. -/
def Resource.write (resource : Resource) (fence : Nat) (value : Bytes) : Resource × Option Error :=
  if fence ≤ resource.fence then (resource, some (.sentinel .errStaleOwner))
  else (⟨fence, value⟩, none)

/-- An effect that the resource of a key accepted, with its writer. -/
structure Effect where
  session : Nat
  key : Key
  token : Nat
  value : Bytes
  deriving DecidableEq, Repr

/-- Clients over one store, and for each key a resource that their holders
write to. The history lists the acquisitions in the order in which the store
granted them, and the accepted effects in theirs. -/
structure System (σ : Type) where
  fleet : Fleet σ
  resources : Key → Resource
  grants : List (Nat × Record)
  effects : List Effect

inductive Event
  | lease (event : Fleet.Event)
  | write (session : Nat) (value : Bytes)

section Semantics

variable {σ : Type} (exec : σ → Call → σ × Reply)

def replies (f : Fleet σ) : List (Option Reply) := f.sessions.map Session.reply

/-- The acquisition that this step of the store has granted. -/
def granted (f : Fleet σ) : Fleet.Event → List (Nat × Record)
  | .executeAcquire i ctx =>
    match (replies f)[i]?, (replies (f.step exec (.executeAcquire i ctx)))[i]? with
    | some none, some (some ⟨record, none⟩) => [(i, record)]
    | _, _ => []
  | _ => []

/-- A holder writes with the token of its handle whenever it likes: after a
pause, after its lease has expired or passed to another, after its release. -/
def System.step (s : System σ) : Event → System σ
  | .lease event =>
    { s with
      fleet := s.fleet.step exec event
      grants := s.grants ++ granted exec s.fleet event }
  | .write i value =>
    match s.fleet.machine i with
    | none => s
    | some m =>
      let key := m.handle.record.key
      let result := (s.resources key).write m.handle.record.token value
      { s with
        resources := Function.update s.resources key result.1
        effects := s.effects ++
          if result.2 = none then [⟨i, key, m.handle.record.token, value⟩] else [] }

def start (now : Int) (store : σ) : System σ := ⟨.start now store, fun _ => ⟨0, []⟩, [], []⟩

end Semantics

section Replies

variable {σ : Type} {exec : σ → Call → σ × Reply} {f : Fleet σ}

theorem replies_set {i : Nat} {s : Session} (hi : f.sessions[i]? = some s) (holder : Holder) :
    (f.sessions.set i { s with holder }).map Session.reply = replies f := by
  obtain ⟨hlt, rfl⟩ := List.getElem?_eq_some_iff.mp hi
  rw [List.map_set]
  apply List.ext_getElem?
  intro j
  rw [List.getElem?_set, replies]
  split
  next h =>
    subst h
    simp [hlt]
  next => rfl

/-- Only the store's execution of an acquisition answers a session. -/
theorem replies_step (event : Fleet.Event) :
    replies (f.step exec event) = replies f ∨
      replies (f.step exec event) = replies f ++ [none] ∨
      ∃ i ctx s, event = .executeAcquire i ctx ∧ f.sessions[i]? = some s ∧ s.reply = none ∧
        replies (f.step exec event) = (replies f).set i (some (exec f.store
          ⟨f.now, ctx, .tryAcquire s.key s.owner s.policy.1.ttl.toInt⟩).2) := by
  have hmoved := @Fleet.step_moved _ exec f event
  generalize f.step exec event = f' at hmoved ⊢
  cases hmoved with
  | kept | ticked | served => exact .inl rfl
  | asked => exact .inr (.inl (List.map_append ..))
  | granted ctx hi hnone => exact .inr (.inr ⟨_, ctx, _, rfl, hi, hnone, List.map_set ..⟩)
  | opened hi => exact .inl (replies_set hi _)
  | failed _ _ hi => exact .inl (replies_set hi _)
  | driven hi => exact .inl (replies_set hi _)

/-- The store has answered the acquisition of this session with a record. -/
def Admitted (f : Fleet σ) (i : Nat) (record : Record) : Prop :=
  (replies f)[i]? = some (some ⟨record, none⟩)

theorem admitted_iff {i : Nat} {record : Record} :
    Admitted f i record ↔ ∃ s, f.sessions[i]? = some s ∧ s.reply = some ⟨record, none⟩ := by
  unfold Admitted replies
  rw [List.getElem?_map, Option.map_eq_some_iff]

theorem granted_of_same {event : Fleet.Event}
    (h : ∀ i record, Admitted (f.step exec event) i record → Admitted f i record) :
    granted exec f event = [] := by
  unfold granted
  split
  next i ctx =>
    split
    next record hbefore hafter =>
      have hsome := h i record hafter
      rw [Admitted, hbefore] at hsome
      cases hsome
    next => rfl
  next => rfl

/-- What a step adds to the grants: nothing, or the acquisition of one session
that had no answer before. -/
theorem granted_step (event : Fleet.Event) :
    (granted exec f event = [] ∧ ∀ i record, Admitted (f.step exec event) i record ↔ Admitted f i record) ∨
      ∃ i ctx s record, event = .executeAcquire i ctx ∧ f.sessions[i]? = some s ∧ s.reply = none ∧
        (exec f.store ⟨f.now, ctx, .tryAcquire s.key s.owner s.policy.1.ttl.toInt⟩).2 = ⟨record, none⟩ ∧
        granted exec f event = [(i, record)] ∧
        ∀ j q, Admitted (f.step exec event) j q ↔ (j, q) = (i, record) ∨ Admitted f j q := by
  have hsame (h : ∀ i record, Admitted (f.step exec event) i record ↔ Admitted f i record) :
      granted exec f event = [] ∧ ∀ i record, Admitted (f.step exec event) i record ↔ Admitted f i record :=
    ⟨granted_of_same (fun i record => (h i record).mp), h⟩
  rcases replies_step event with h | h | ⟨i, ctx, s, rfl, hi, hnone, h⟩
  · refine .inl (hsame ?_)
    intro i record
    rw [Admitted, h, Admitted]
  · refine .inl (hsame ?_)
    intro i record
    rw [Admitted, h, Admitted, List.getElem?_append]
    split
    next => exact Iff.rfl
    next hge =>
      rw [List.getElem?_eq_none (Nat.le_of_not_lt hge), List.getElem?_singleton]
      split <;> simp
  · have hbefore : (replies f)[i]? = some none := by
      rw [replies, List.getElem?_map, hi, Option.map_some, hnone]
    have hlt : i < (replies f).length := (List.getElem?_eq_some_iff.mp hbefore).1
    have hafter : (replies (f.step exec (.executeAcquire i ctx)))[i]? = some (some (exec f.store
        ⟨f.now, ctx, .tryAcquire s.key s.owner s.policy.1.ttl.toInt⟩).2) := by
      rw [h, List.getElem?_set_self hlt]
    have hother {j : Nat} (hne : i ≠ j) (record : Record) :
        Admitted (f.step exec (.executeAcquire i ctx)) j record ↔ Admitted f j record := by
      rw [Admitted, h, List.getElem?_set_ne hne, Admitted]
    rcases hx : (exec f.store ⟨f.now, ctx, .tryAcquire s.key s.owner s.policy.1.ttl.toInt⟩).2 with ⟨record, err⟩
    rw [hx] at hafter
    cases err with
    | some err =>
        refine .inl (hsame ?_)
        intro j q
        by_cases hij : i = j
        · subst hij
          simp [Admitted, hafter, hbefore]
        · exact hother hij q
    | none =>
        refine .inr ⟨i, ctx, s, record, rfl, hi, hnone, hx, ?_, ?_⟩
        · simp only [granted, hbefore, hafter]
        · intro j q
          by_cases hij : i = j
          · subst hij
            simp [Admitted, hafter, hbefore, eq_comm]
          · rw [hother hij q]
            simp [Ne.symm hij]

end Replies

section Order

variable {σ κ : Type} {exec : σ → Call → σ × Reply} {slot : Key → κ} {slack : Int}
  {c : Contract exec slot slack} {s : System σ}

/-- The resource shows the last effect it accepted. -/
def shows (effects : List Effect) : Resource :=
  match effects.getLast? with
  | some effect => ⟨effect.token, effect.value⟩
  | none => ⟨0, []⟩

structure Inv (c : Contract exec slot slack) (s : System σ) : Prop where
  fleet : Coverage.Inv c s.fleet
  member : ∀ i record, (i, record) ∈ s.grants ↔ Admitted s.fleet i record
  rising : Rising (fun grant => grant.2.key) (fun grant => grant.2.token) s.grants
  origin : ∀ effect ∈ s.effects, ∃ record, (effect.session, record) ∈ s.grants ∧
    record.key = effect.key ∧ record.token = effect.token
  accepted : Rising Effect.key Effect.token s.effects
  shown : ∀ key, s.resources key = shows (s.effects.filter (fun effect => effect.key = key))

theorem Inv.lease (h : Inv c s) (event : Fleet.Event) : Inv c (s.step exec (.lease event)) := by
  have hfleet := h.fleet.step event
  rcases @granted_step _ exec s.fleet event with
    ⟨hnil, hsame⟩ | ⟨i, ctx, t, record, rfl, hi, hnone, hx, hone, hnew⟩
  · have hgrants : (s.step exec (.lease event)).grants = s.grants := by
      simp only [System.step, hnil, List.append_nil]
    refine ⟨hfleet, ?_, hgrants ▸ h.rising, hgrants ▸ h.origin, h.accepted, h.shown⟩
    intro i record
    rw [hgrants, h.member]
    exact (hsame i record).symm
  · have hgrants : (s.step exec (.lease (.executeAcquire i ctx))).grants = s.grants ++ [(i, record)] := by
      simp only [System.step, hone]
    obtain ⟨hkey, hlt, _⟩ := c.acquired _ h.fleet.ok rfl (Coverage.ttl_lt _) hx
    refine ⟨hfleet, ?_, ?_, ?_, h.accepted, h.shown⟩
    · intro j q
      rw [hgrants, List.mem_append, h.member, List.mem_singleton, or_comm]
      exact (hnew j q).symm
    · rw [hgrants]
      apply h.rising.concat
      rintro ⟨j, q⟩ hmem hsame
      obtain ⟨u, hu, hreply⟩ := admitted_iff.mp ((h.member j q).mp hmem)
      obtain ⟨hukey, hle, _⟩ := (h.fleet.sessions j u hu).granted q hreply
      rw [← hukey, show q.key = record.key from hsame, hkey] at hle
      exact Nat.lt_of_le_of_lt hle hlt
    · intro effect he
      obtain ⟨q, hq, hrest⟩ := h.origin effect he
      rw [hgrants]
      exact ⟨q, List.mem_append_left _ hq, hrest⟩

/-- The token that a holder writes with is the one of its grant. -/
theorem Inv.writer (h : Inv c s) {i : Nat} {m : Machine} (hm : s.fleet.machine i = some m) :
    ∃ record, (i, record) ∈ s.grants ∧ record.key = m.handle.record.key ∧
      record.token = m.handle.record.token := by
  obtain ⟨t, ht, hholder⟩ := Fleet.holding_of_machine hm
  obtain ⟨record, hreply, hholds⟩ := (h.fleet.sessions i t ht).holding m hholder
  obtain ⟨hkey, _, htoken⟩ := hholds.record
  exact ⟨record, (h.member i record).mpr (admitted_iff.mpr ⟨t, ht, hreply⟩), hkey.symm, htoken.symm⟩

theorem shows_concat (effects : List Effect) (effect : Effect) :
    shows (effects ++ [effect]) = ⟨effect.token, effect.value⟩ := by
  simp only [shows, List.getLast?_concat]

/-- A resource that shows a rising log has the highest token of it. -/
theorem fence_shows {effects : List Effect} (h : effects.Pairwise (fun a b => a.token < b.token)) :
    ∀ effect ∈ effects, effect.token ≤ (shows effects).fence := by
  intro effect he
  rcases List.eq_nil_or_concat effects with rfl | ⟨init, last, rfl⟩
  · cases he
  · rw [List.concat_eq_append] at h he ⊢
    rw [shows_concat]
    rw [List.pairwise_append] at h
    rcases List.mem_append.mp he with hinit | hlast
    · exact Nat.le_of_lt (h.2.2 effect hinit last (List.mem_singleton_self last))
    · rw [List.mem_singleton.mp hlast]

theorem Inv.write (h : Inv c s) (i : Nat) (value : Bytes) : Inv c (s.step exec (.write i value)) := by
  simp only [System.step]
  split
  next => exact h
  next m hm =>
    obtain ⟨record, hgrant, hkey, htoken⟩ := h.writer hm
    simp only [Resource.write]
    split
    next =>
      simp only [Function.update_eq_self, reduceCtorEq, if_false, List.append_nil]
      exact h
    next hlt =>
      simp only [if_true]
      refine ⟨h.fleet, h.member, h.rising, ?_, ?_, ?_⟩
      · apply forall_mem_append h.origin
        exact ⟨record, hgrant, hkey, htoken⟩
      · apply h.accepted.concat
        intro effect he hsame
        have hle := fence_shows (h.accepted.entries m.handle.record.key) effect
          (List.mem_filter.mpr ⟨he, decide_eq_true hsame⟩)
        rw [← h.shown] at hle
        exact Nat.lt_of_le_of_lt hle (Nat.lt_of_not_le hlt)
      · intro key
        rw [List.filter_append]
        by_cases hsame : m.handle.record.key = key
        · subst hsame
          simp [shows_concat]
        · simp [hsame, Function.update_of_ne (Ne.symm hsame), h.shown]

theorem inv_run {store : σ} (hok : c.ok store) (now : Int) (events : List Event) :
    Inv c (events.foldl (System.step exec) (start now store)) := by
  refine invariant_rule (P := Inv c) ?_ ?_ events
  · exact ⟨Coverage.inv_start hok now, by simp [start, Admitted, replies, Fleet.start], rising_nil, by simp [start],
      rising_nil, fun key => rfl⟩
  · intro s event h
    cases event with
    | lease event => exact h.lease event
    | write i value => exact h.write i value

/-- The accepted effects on a key follow the grants of the key: no holder's
effect is accepted after one of a later grant, none is accepted twice, and the
resource shows the last of them. -/
structure Ordered (s : System σ) (key : Key) : Prop where
  tokens : (s.grants.filter (fun grant => grant.2.key = key)).Pairwise
    (fun earlier later => earlier.2.token < later.2.token)
  follows : ((s.effects.filter (fun effect => effect.key = key)).map
      (fun effect => (effect.session, effect.token))).Sublist
    ((s.grants.filter (fun grant => grant.2.key = key)).map (fun grant => (grant.1, grant.2.token)))
  shown : s.resources key = shows (s.effects.filter (fun effect => effect.key = key))

theorem Inv.ordered (h : Inv c s) (key : Key) : Ordered s key where
  tokens := h.rising.entries key
  shown := h.shown key
  follows := by
    apply sublist_of_subset Prod.snd (h.accepted.entries key) (h.rising.entries key)
    intro write hwrite
    obtain ⟨effect, he, rfl⟩ := List.mem_map.mp hwrite
    obtain ⟨hmem, hkey⟩ := List.mem_filter.mp he
    obtain ⟨record, hgrant, hsame, htoken⟩ := h.origin effect hmem
    refine List.mem_map.mpr ⟨(effect.session, record), ?_, by rw [htoken]⟩
    rw [← of_decide_eq_true hkey, ← hsame]
    exact List.mem_filter.mpr ⟨hgrant, decide_eq_true rfl⟩

end Order

/-- Fencing protects the resource where the lease does not: holders that write
after a pause, an expiry or a release never undo the effect of a later holder,
over a memory store, PostgreSQL and Valkey alike. -/
theorem writes_follow_grants {maxKeys : Nat} {memory : Memory.Store} (hnew : Memory.new maxKeys = .ok memory)
    (postgres : Postgres.Store) (db : Postgres.Database) (valkey : Valkey.Store) {keys : Valkey.Keyspace}
    (hkeys : valkey.WellFormed keys) (now : Int) (events : List Event) (key : Key) :
    Ordered (events.foldl (System.step Memory.Store.exec) (start now memory)) key ∧
    Ordered (events.foldl (System.step postgres.serve) (start now db)) key ∧
    Ordered (events.foldl (System.step valkey.serve) (start now keys)) key := by
  refine ⟨?_, ?_, ?_⟩
  · obtain rfl := Memory.new_ok hnew
    exact (inv_run (c := Admission.contract) (fun _ => Nat.zero_le _) now events).ordered key
  · exact (inv_run (c := Truncation.postgresContract postgres) trivial now events).ordered key
  · exact (inv_run (c := Truncation.valkeyContract valkey) hkeys now events).ordered key

/-- The first holder outlives its lease, and writes after its successor did. -/
def handover : List Event :=
  [.lease (.dispatchAcquire ⟨[107]⟩ [97] Truncation.brief 5), .lease (.executeAcquire 0 none),
    .lease (.completeAcquire 0), .lease (.tick 6000000),
    .lease (.dispatchAcquire ⟨[107]⟩ [98] Truncation.brief 5), .lease (.executeAcquire 1 none),
    .lease (.completeAcquire 1), .write 1 [98], .write 0 [97]]

theorem writes_follow_grants_handover :
    (handover.foldl (System.step Memory.Store.exec) (start 0 ⟨1, ∅⟩)).effects =
      [⟨1, ⟨[107]⟩, 2, [98]⟩] ∧
    Ordered (handover.foldl (System.step Memory.Store.exec) (start 0 ⟨1, ∅⟩)) ⟨[107]⟩ :=
  ⟨by rfl, (writes_follow_grants (rfl : Memory.new 1 = .ok ⟨1, ∅⟩) ⟨id, fun _ => true⟩
    Postgres.Database.empty Valkey.Store.plain Valkey.Store.wellFormed_empty 0 handover ⟨[107]⟩).1⟩

end GoLease.Protected
