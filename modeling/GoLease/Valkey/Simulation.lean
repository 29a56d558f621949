import GoLease.Valkey.Outcomes

namespace GoLease.Valkey

open Decimal Traces

/-- A key of the server and of the memory store at a millisecond: both without
an unexpired owner, or both with the same one. -/
def KeySim (key : Key) (ms : Nat) (lease : Option Item) (entry : Option Memory.Entry) : Prop :=
  lease.filter (Item.live ms) = none ∧
      (∀ e, entry = some e → e.active = false ∨ e.record.expiresAt ≤ unixMilli ms) ∨
    ∃ (owner : Bytes) (token acquired expires : Nat), 0 < token ∧ token < 2 ^ 64 ∧ acquired ≤ ms ∧
      ms < expires ∧ expires < 10 ^ 14 ∧
      lease = some ⟨leaseHash owner (format token) (tostring acquired) (tostring expires), some expires⟩ ∧
      entry = some ⟨⟨key, owner, token, unixMilli acquired, unixMilli expires⟩, true⟩

/-- The server's counters are the fences of the memory store, and its hashes
the unexpired owners, for the keys in use. -/
structure Sim (store : Store) (used : Key → Prop) (ms : Nat) (keys : Keyspace)
    (memory : Memory.Store) : Prop where
  counter : ∀ key, used key → keys (store.counterKey key) = counterItem (memory.fence key)
  lease : ∀ key, used key → KeySim key ms (keys (store.leaseKey key)) (memory.lookup key)

theorem KeySim.mono {key : Key} {ms ms' : Nat} {lease : Option Item} {entry : Option Memory.Entry}
    (h : KeySim key ms lease entry) (hle : ms ≤ ms') : KeySim key ms' lease entry := by
  rcases h with ⟨hl, he⟩ | ⟨owner, token, acquired, expires, hpos, hlt, ha, hms, hexp, rfl, rfl⟩
  · refine .inl ⟨?_, ?_⟩
    · rw [Option.filter_eq_none_iff] at hl ⊢
      intro item hi hlive
      apply hl item hi
      simp only [Item.live, Option.all_eq_true, decide_eq_true_eq] at hlive ⊢
      exact fun deadline hd => Nat.lt_of_le_of_lt hle (hlive deadline hd)
    · intro e h
      refine (he e h).imp_right (fun hx => Int.le_trans hx ?_)
      simp only [unixMilli, millisecond]
      omega
  · by_cases hx : ms' < expires
    · exact .inr ⟨owner, token, acquired, expires, hpos, hlt, Nat.le_trans ha hle, hx, hexp, rfl, rfl⟩
    · -- The lease has run out in between, for the server and for the memory store at once.
      refine .inl ⟨?_, ?_⟩
      · rw [Option.filter_some, if_neg]
        simpa [Item.live] using hx
      · intro e h
        cases h
        right
        simp only [unixMilli, millisecond]
        omega

theorem Sim.mono {store : Store} {used : Key → Prop} {ms ms' : Nat} {keys : Keyspace}
    {memory : Memory.Store} (h : Sim store used ms keys memory) (hle : ms ≤ ms') :
    Sim store used ms' keys memory :=
  ⟨h.counter, fun key hu => (h.lease key hu).mono hle⟩

section Steps

variable {store : Store} {used : Key → Prop} {us : Nat} {keys : Keyspace} {memory : Memory.Store}
  {key : Key}

theorem unixMilli_lt {m n : Nat} : unixMilli m < unixMilli n ↔ m < n := by
  simp only [unixMilli, millisecond]
  omega

theorem unixMilli_add {ttl : Int} {d : Nat} (h : WholeMilliseconds ttl d) (ms : Nat) :
    unixMilli ms + ttl = unixMilli (ms + d : Nat) := by
  rw [h.2.1]
  simp only [unixMilli, millisecond]
  omega

theorem find_of_live {name : Bytes} {value : Value} {expires ms : Nat}
    (h : keys name = some ⟨value, some expires⟩) (hlt : ms < expires) :
    keys.find ms name = some ⟨value, some expires⟩ := by
  rw [Keyspace.find, h, Option.filter_some, if_pos (by simpa [Item.live] using hlt)]

/-- No two keys in use share the retained part of the digest. -/
def CollisionFree (store : Store) (used : Key → Prop) : Prop :=
  ∀ key other, used key → used other → store.digest key = store.digest other → key = other

theorem Sim.update {ms : Nat} (h : Sim store used ms keys memory) (hfree : CollisionFree store used)
    (hu : used key) {lease counter : Option Item} {memory' : Memory.Store}
    (hother : ∀ other, other ≠ key → memory'.lookup other = memory.lookup other)
    (hcounter : counter = counterItem (memory'.fence key))
    (hlease : KeySim key ms lease (memory'.lookup key)) :
    Sim store used ms (Function.update (Function.update keys (store.counterKey key) counter)
      (store.leaseKey key) lease) memory' := by
  constructor
  · intro other hu'
    rw [Function.update_of_ne Store.counterKey_ne_leaseKey]
    by_cases hne : other = key
    · rw [hne, Function.update_self, hcounter]
    · rw [Function.update_of_ne, h.counter other hu', Memory.Store.fence, Memory.Store.fence,
        hother other hne]
      exact fun he => hne (hfree _ _ hu' hu (Store.counterKey_injective he))
  · intro other hu'
    by_cases hne : other = key
    · rw [hne, Function.update_self]
      exact hlease
    · rw [Function.update_of_ne, Function.update_of_ne Store.counterKey_ne_leaseKey.symm, hother other hne]
      · exact h.lease other hu'
      · exact fun he => hne (hfree _ _ hu' hu (Store.leaseKey_injective he))

theorem Sim.updateLease {ms : Nat} (h : Sim store used ms keys memory) (hfree : CollisionFree store used)
    (hu : used key) {lease : Option Item} {memory' : Memory.Store}
    (hother : ∀ other, other ≠ key → memory'.lookup other = memory.lookup other)
    (hfence : memory'.fence key = memory.fence key)
    (hlease : KeySim key ms lease (memory'.lookup key)) :
    Sim store used ms (Function.update keys (store.leaseKey key) lease) memory' := by
  have hcounter : keys (store.counterKey key) = counterItem (memory'.fence key) := by
    rw [hfence, h.counter key hu]
  have hsim := h.update hfree hu hother hcounter hlease
  rwa [Function.update_eq_self] at hsim

theorem Sim.tryAcquire (h : Sim store used (us / 1000) keys memory) (hfree : CollisionFree store used)
    (hu : used key) {owner : Bytes} {ttl : Int} {d : Nat} (hid : ValidIdentity key owner 1)
    (ht : WholeMilliseconds ttl d) (hms : us / 1000 < 9 * 10 ^ 13)
    (hcap : memory.lookup key = none → memory.entries.keys.length < memory.maxKeys)
    (hfence : memory.Vacant key (unixMilli (us / 1000 : Nat)) → memory.fence key < 2 ^ 63 - 1) :
    let result := store.exec (nativeExecutor us) keys none (.tryAcquire key owner ttl)
    let reference := memory.exec ⟨unixMilli (us / 1000 : Nat), none, .tryAcquire key owner ttl⟩
    result.2.Agrees reference.2 ∧ Sim store used (us / 1000) result.1 reference.1 := by
  have hvalid := Memory.validate_valid hid ht
  rcases h.lease key hu with ⟨hl, he⟩ | ⟨holder, token, acquired, expires, _, _, _, hlt, _, hl, he⟩
  · have hvacant : memory.Vacant key (unixMilli (us / 1000 : Nat)) := he
    have hn := hfence hvacant
    rw [Store.exec_tryAcquire_granted hid ht hl (h.counter key hu) hn hms,
      Memory.Store.exec_tryAcquire_granted hvalid hvacant hcap (by omega), unixMilli_add ht]
    refine ⟨agrees_refl _, h.update hfree hu ?_ ?_ ?_⟩
    · exact fun other hne => Memory.Store.lookup_put_of_ne _ hne _
    · rw [Memory.Store.fence_put_self]
    · rw [Memory.Store.lookup_put_self]
      obtain ⟨_, _, _, hd⟩ := wholeMilliseconds_spec ht
      have hpos := ht.1
      exact .inr ⟨owner, _, us / 1000, us / 1000 + d, Nat.succ_pos _, by omega, Nat.le_refl _, by omega,
        by omega, rfl, rfl⟩
  · rw [Store.exec_tryAcquire_contended hid ht (find_of_live hl hlt),
      Memory.Store.exec_tryAcquire_contended hvalid he rfl (unixMilli_lt.mpr hlt)]
    exact ⟨agrees_wrap _ _ _, h⟩

/-- A record of the key is the holder's own, or both stores take it for stale. -/
theorem held_iff {holder : Bytes} {token expires ms : Nat} {acquired : Int} {owned : Record}
    (hlt : ms < expires) (he : memory.lookup owned.key =
      some ⟨⟨owned.key, holder, token, acquired, unixMilli expires⟩, true⟩) :
    (∃ entry, memory.Held owned.key owned.owner owned.token (unixMilli ms) entry) ↔
      holder = owned.owner ∧ format token = format owned.token := by
  rw [format_eq_iff]
  constructor
  · rintro ⟨entry, hl, _, ho, ht, _⟩
    rw [he] at hl
    cases hl
    exact ⟨ho, ht⟩
  · rintro ⟨ho, ht⟩
    exact ⟨_, he, rfl, ho, ht, unixMilli_lt.mpr hlt⟩

theorem Sim.renew {owned : Record} (h : Sim store used (us / 1000) keys memory)
    (hfree : CollisionFree store used) (hu : used owned.key) {ttl : Int} {d : Nat}
    (hid : ValidIdentity owned.key owned.owner owned.token) (ht : WholeMilliseconds ttl d)
    (hms : us / 1000 < 9 * 10 ^ 13) :
    let result := store.exec (nativeExecutor us) keys none (.renew owned ttl)
    let reference := memory.exec ⟨unixMilli (us / 1000 : Nat), none, .renew owned ttl⟩
    result.2.Agrees reference.2 ∧ Sim store used (us / 1000) result.1 reference.1 := by
  have hvalid := Memory.validate_valid hid ht
  have htoken := Nat.pos_iff_ne_zero.mp hid.2.2.2.1
  rcases h.lease owned.key hu with ⟨hl, he⟩ |
    ⟨holder, token, acquired, expires, hpos, hmax, ha, hlt, _, hl, he⟩
  · have hnot := Memory.Store.not_held_of_vacant owned.owner owned.token he
    rw [Store.exec_renew_stale hid ht (renewScript_absent hl _ _ _),
      Memory.Store.exec_renew_stale hvalid htoken hnot]
    exact ⟨agrees_wrap _ _ _, h⟩
  · by_cases hsame : holder = owned.owner ∧ format token = format owned.token
    · obtain ⟨rfl, hformat⟩ := hsame
      obtain rfl := format_injective hformat
      have hheld : memory.Held owned.key owned.owner owned.token (unixMilli (us / 1000 : Nat)) _ :=
        ⟨he, rfl, rfl, rfl, unixMilli_lt.mpr hlt⟩
      rw [Store.exec_renew_renewed hid ht (find_of_live hl hlt) ha hms,
        Memory.Store.exec_renew_of_held _ hvalid htoken hheld, unixMilli_add ht]
      refine ⟨agrees_refl _, h.updateLease hfree hu ?_ ?_ ?_⟩
      · exact fun other hne => Memory.Store.lookup_put_of_ne _ hne _
      · rw [Memory.Store.fence_put_self, Memory.Store.fence_of_lookup _ he]
      · rw [Memory.Store.lookup_put_self]
        obtain ⟨_, _, _, hd⟩ := wholeMilliseconds_spec ht
        have hd' := ht.1
        exact .inr ⟨_, _, acquired, us / 1000 + d, hpos, hmax, ha, by omega, by omega, rfl, rfl⟩
    · have hnot := not_exists.mp (mt (held_iff hlt he).mp hsame)
      rw [Store.exec_renew_stale hid ht (renewScript_stale (find_of_live hl hlt) hsame _),
        Memory.Store.exec_renew_stale hvalid htoken hnot]
      exact ⟨agrees_wrap _ _ _, h⟩

theorem Sim.validate {owned : Record} (h : Sim store used (us / 1000) keys memory) (hu : used owned.key)
    (hid : ValidIdentity owned.key owned.owner owned.token) :
    let result := store.exec (nativeExecutor us) keys none (.validate owned)
    let reference := memory.exec ⟨unixMilli (us / 1000 : Nat), none, .validate owned⟩
    result.2.Agrees reference.2 ∧ Sim store used (us / 1000) result.1 reference.1 := by
  have hvalid := Memory.validateIdentity_valid hid
  rcases h.lease owned.key hu with ⟨hl, he⟩ |
    ⟨holder, token, acquired, expires, _, _, ha, hlt, hexp, hl, he⟩
  · have hnot := Memory.Store.not_held_of_vacant owned.owner owned.token he
    rw [Store.exec_validate_stale hid (validateScript_absent hl _ _),
      Memory.Store.exec_validate_stale hvalid hnot]
    exact ⟨agrees_wrap _ _ _, h⟩
  · by_cases hsame : holder = owned.owner ∧ format token = format owned.token
    · obtain ⟨rfl, hformat⟩ := hsame
      obtain rfl := format_injective hformat
      have hheld : memory.Held owned.key owned.owner owned.token (unixMilli (us / 1000 : Nat)) _ :=
        ⟨he, rfl, rfl, rfl, unixMilli_lt.mpr hlt⟩
      rw [Store.exec_validate_ok hid (find_of_live hl hlt) (Nat.lt_of_le_of_lt ha hlt) hexp,
        Memory.Store.exec_validate_of_held hvalid hheld]
      exact ⟨agrees_refl _, h⟩
    · have hnot := not_exists.mp (mt (held_iff hlt he).mp hsame)
      rw [Store.exec_validate_stale hid (validateScript_stale (find_of_live hl hlt) hsame),
        Memory.Store.exec_validate_stale hvalid hnot]
      exact ⟨agrees_wrap _ _ _, h⟩

/-- Where nobody holds the key the server answers missing, whatever the memory
store does with the record it keeps. -/
theorem Sim.release {owned : Record} (h : Sim store used (us / 1000) keys memory)
    (hfree : CollisionFree store used) (hu : used owned.key)
    (hid : ValidIdentity owned.key owned.owner owned.token) :
    let result := store.exec (nativeExecutor us) keys none (.release owned)
    let reference := memory.exec ⟨unixMilli (us / 1000 : Nat), none, .release owned⟩
    ((¬memory.Vacant owned.key (unixMilli (us / 1000 : Nat)) → result.2.Agrees reference.2) ∧
      (memory.Vacant owned.key (unixMilli (us / 1000 : Nat)) → result.2.err = none)) ∧
      Sim store used (us / 1000) result.1 reference.1 := by
  have hvalid := Memory.validateIdentity_valid hid
  rcases h.lease owned.key hu with ⟨hl, he⟩ |
    ⟨holder, token, acquired, expires, _, _, ha, hlt, hexp, hl, he⟩
  · -- The memory store may still retire the record it keeps; the key stays vacant.
    have hvacant : memory.Vacant owned.key (unixMilli (us / 1000 : Nat)) := he
    obtain ⟨hvacant', hfence⟩ := Memory.Store.exec_release_vacant none hvacant
    rw [Store.exec_release hid (releaseScript_missing hl _ _)]
    refine ⟨⟨fun hn => absurd hvacant hn, fun _ => rfl⟩, ?_⟩
    have hother (other : Key) (hne : other ≠ owned.key) :=
      (memory.exec_step ⟨unixMilli (us / 1000 : Nat), none, .release owned⟩).lookup_of_ne hne.symm
    have hsim := h.updateLease hfree hu hother hfence (.inl ⟨hl, hvacant'⟩)
    rwa [Function.update_eq_self] at hsim
  · have hheld : ¬memory.Vacant owned.key (unixMilli (us / 1000 : Nat)) := by
      intro hvacant
      rcases hvacant _ he with hf | hle
      · cases hf
      · exact absurd (unixMilli_lt.mpr hlt) (Int.not_lt.mpr hle)
    by_cases hsame : holder = owned.owner ∧ format token = format owned.token
    · obtain ⟨rfl, hformat⟩ := hsame
      obtain rfl := format_injective hformat
      rw [Store.exec_release hid (releaseScript_released (find_of_live hl hlt)),
        Memory.Store.exec_release_of_active _ hvalid he rfl rfl rfl]
      refine ⟨⟨fun _ => agrees_refl _, fun hn => absurd hn hheld⟩, h.updateLease hfree hu ?_ ?_ ?_⟩
      · exact fun other hne => Memory.Store.lookup_put_of_ne _ hne _
      · rw [Memory.Store.fence_put_self, Memory.Store.fence_of_lookup _ he]
      · rw [Memory.Store.lookup_put_self]
        refine .inl ⟨rfl, ?_⟩
        rintro e he
        cases he
        exact .inl rfl
    · rw [Store.exec_release hid (releaseScript_stale (find_of_live hl hlt) hsame),
        Memory.Store.exec_release_stale hvalid]
      · exact ⟨⟨fun _ => agrees_wrap _ _ _, fun hn => absurd hn hheld⟩, h⟩
      · intro entry hentry hown
        rw [he] at hentry
        cases hentry
        exact hsame ⟨hown.1, congrArg format hown.2⟩

end Steps

/-- A call with a live context at a reading of the server clock. -/
structure Op where
  us : Nat
  request : Request

def Op.ms (op : Op) : Nat := op.us / 1000

/-- The same call on the memory store, at the same millisecond. -/
def Op.call (op : Op) : Call := ⟨unixMilli op.ms, none, op.request⟩

def Store.step (store : Store) (keys : Keyspace) (op : Op) : Keyspace × Reply :=
  store.exec (nativeExecutor op.us) keys none op.request

/-- The histories on which the two stores are compared. -/
structure Admissible (store : Store) (maxKeys : Nat) (ops : List Op) : Prop where
  clock : ops.Pairwise (fun op later => op.ms ≤ later.ms)
  bounded : ∀ op ∈ ops, op.ms < 9 * 10 ^ 13
  valid : ∀ op ∈ ops, op.request.Valid
  collisionFree : CollisionFree store (fun key => ∃ op ∈ ops, op.request.key = key)
  acquisitions : ∀ key, (Memory.History.grantedTokens key
    (trace Memory.Store.exec ⟨maxKeys, ∅⟩ (ops.map Op.call))).length < 2 ^ 63 - 1
  capacity : (Memory.acquiredKeys (ops.map Op.request)).dedup.length ≤ maxKeys

section Runs

variable {store : Store} {maxKeys : Nat} {past : List Op} {op : Op}

theorem Admissible.earlier (h : Admissible store maxKeys (past ++ [op])) :
    Admissible store maxKeys past where
  clock := (List.pairwise_append.mp h.clock).1
  bounded := fun op hm => h.bounded op (List.mem_append_left _ hm)
  valid := fun op hm => h.valid op (List.mem_append_left _ hm)
  collisionFree := fun _ _ ⟨op, hm, hk⟩ ⟨op', hm', hk'⟩ =>
    h.collisionFree _ _ ⟨op, List.mem_append_left _ hm, hk⟩ ⟨op', List.mem_append_left _ hm', hk'⟩
  acquisitions := by
    intro key
    have hall := h.acquisitions key
    rw [List.map_append, trace_append, Memory.History.grantedTokens, List.filter_append,
      List.map_append, List.length_append] at hall
    exact Nat.lt_of_le_of_lt (Nat.le_add_right _ _) hall
  capacity := by
    refine Nat.le_trans ?_ h.capacity
    rw [List.map_append, List.map_singleton, Memory.acquiredKeys_append]
    apply List.Subperm.length_le
    apply List.subperm_of_subset (List.nodup_dedup _)
    intro key hk
    rw [List.mem_dedup] at hk ⊢
    exact List.mem_append_left _ hk

theorem Admissible.fence_lt (h : Admissible store maxKeys past) (key : Key) :
    (run Memory.Store.exec ⟨maxKeys, ∅⟩ (past.map Op.call)).fence key < 2 ^ 63 - 1 := by
  have htokens := (Memory.History.grantedTokens_eq_range maxKeys key (past.map Op.call)).1
  have hlt := h.acquisitions key
  rw [htokens, List.length_range'] at hlt
  exact hlt

/-- What the reply of the Valkey store has to do with that of the memory store
in this state: they agree, but for a release of a key that nobody holds. -/
def Matches (memory : Memory.Store) (op : Op) (reply : Reply) : Prop :=
  match op.request with
  | .release owned => (¬memory.Vacant owned.key op.call.now → reply.Agrees (memory.exec op.call).2) ∧
    (memory.Vacant owned.key op.call.now → reply.err = none)
  | _ => reply.Agrees (memory.exec op.call).2

theorem sim_step {used : Key → Prop} {keys : Keyspace} (hfree : CollisionFree store used)
    (hu : used op.request.key) (h : Admissible store maxKeys (past ++ [op]))
    (hsim : Sim store used op.ms keys (run Memory.Store.exec ⟨maxKeys, ∅⟩ (past.map Op.call))) :
    Matches (run Memory.Store.exec ⟨maxKeys, ∅⟩ (past.map Op.call)) op (store.step keys op).2 ∧
      Sim store used op.ms (store.step keys op).1
        ((run Memory.Store.exec ⟨maxKeys, ∅⟩ (past.map Op.call)).exec op.call).1 := by
  have hmem : op ∈ past ++ [op] := List.mem_append_right _ List.mem_cons_self
  have hms := h.bounded op hmem
  have hvalid := h.valid op hmem
  have hfence := h.earlier.fence_lt
  have hcapacity := h.capacity
  obtain ⟨us, request⟩ := op
  cases request with
  | tryAcquire key owner ttl =>
      obtain ⟨hid, d, ht⟩ := hvalid
      refine hsim.tryAcquire hfree hu hid ht hms (fun hnew => Memory.room ?_ hnew) (fun _ => hfence key)
      rw [List.map_append, List.map_singleton, Memory.acquiredKeys_append] at hcapacity
      rw [List.map_map]
      exact hcapacity
  | renew owned ttl =>
      obtain ⟨hid, d, ht⟩ := hvalid
      exact hsim.renew hfree hu hid ht hms
  | validate owned => exact hsim.validate hu hvalid
  | release owned => exact hsim.release hfree hu hvalid

theorem sim_run {used : Key → Prop} {keys : Keyspace} (hfree : CollisionFree store used)
    (hempty : ∀ key, used key → keys (store.leaseKey key) = none ∧ keys (store.counterKey key) = none)
    (h : Admissible store maxKeys past) (hused : ∀ op ∈ past, used op.request.key) (ms : Nat)
    (hms : ∀ op ∈ past, op.ms ≤ ms) :
    Sim store used ms (run store.step keys past)
      (run Memory.Store.exec ⟨maxKeys, ∅⟩ (past.map Op.call)) := by
  refine prefix_rule (A := fun past => Admissible store maxKeys past ∧ ∀ op ∈ past, used op.request.key)
    (P := fun past => ∀ ms, (∀ op ∈ past, op.ms ≤ ms) → Sim store used ms (run store.step keys past)
      (run Memory.Store.exec ⟨maxKeys, ∅⟩ (past.map Op.call))) ?_ ?_ ?_ ⟨h, hused⟩ ms hms
  · intro past op ⟨h, hused⟩
    exact ⟨h.earlier, fun op hm => hused op (List.mem_append_left _ hm)⟩
  · intro ms _
    refine ⟨fun key hu => (hempty key hu).2, fun key hu => .inl ⟨?_, nofun⟩⟩
    rw [run_nil, (hempty key hu).1]
    rfl
  · intro past op ⟨h, hused⟩ ih ms hms
    have hbefore : ∀ earlier ∈ past, earlier.ms ≤ op.ms := fun earlier hm =>
      (List.pairwise_append.mp h.clock).2.2 earlier hm op List.mem_cons_self
    have hstep := (sim_step hfree (hused op (List.mem_append_right _ List.mem_cons_self)) h
      (ih op.ms hbefore)).2
    rw [List.map_append, run_append, run_append]
    exact hstep.mono (hms op (List.mem_append_right _ List.mem_cons_self))

/-- The Valkey store simulates the memory store: at every step of an admissible
history, from a server without the keys in use, the replies match. -/
theorem simulates_memory {memory : Memory.Store} {keys : Keyspace} (hnew : Memory.new maxKeys = .ok memory)
    (hempty : ∀ earlier ∈ past ++ [op], keys (store.leaseKey earlier.request.key) = none ∧
      keys (store.counterKey earlier.request.key) = none)
    (h : Admissible store maxKeys (past ++ [op])) :
    Matches (run Memory.Store.exec memory (past.map Op.call)) op
      (store.step (run store.step keys past) op).2 := by
  obtain rfl := Memory.new_ok hnew
  have hused : ∀ earlier ∈ past ++ [op], ∃ o ∈ past ++ [op], o.request.key = earlier.request.key :=
    fun earlier hm => ⟨earlier, hm, rfl⟩
  have hsim := sim_run h.collisionFree (fun key ⟨o, hm, hk⟩ => hk ▸ hempty o hm) h.earlier
    (fun earlier hm => hused earlier (List.mem_append_left _ hm)) op.ms
    (fun earlier hm => (List.pairwise_append.mp h.clock).2.2 earlier hm op List.mem_cons_self)
  exact (sim_step h.collisionFree (hused op (List.mem_append_right _ List.mem_cons_self)) h hsim).1

/-- A renewed lease that has run out. -/
def lapsed : List Op :=
  [⟨1000, .tryAcquire ⟨[107]⟩ [97] (unixMilli 5)⟩,
    ⟨2500, .renew ⟨⟨[107]⟩, [97], 1, unixMilli 1, unixMilli 6⟩ (unixMilli 5)⟩]

theorem simulates_memory_lapsed :
    let owned : Record := ⟨⟨[107]⟩, [97], 1, unixMilli 1, unixMilli 7⟩
    let store : Store := ⟨id, [112]⟩
    Matches (run Memory.Store.exec ⟨1, ∅⟩ (lapsed.map Op.call)) ⟨7000, .validate owned⟩
        (store.step (run store.step (fun _ => none) lapsed) ⟨7000, .validate owned⟩).2 ∧
      (store.step (run store.step (fun _ => none) lapsed) ⟨6999, .validate owned⟩).2 = ⟨owned, none⟩ := by
  refine ⟨simulates_memory (show Memory.new 1 = .ok _ from rfl) (fun _ _ => ⟨rfl, rfl⟩) ?_, by decide +kernel⟩
  have hid : ValidIdentity ⟨[107]⟩ [97] 1 := by
    refine ⟨?_, ?_, ?_, ?_, ?_⟩ <;> decide
  have hms : WholeMilliseconds (unixMilli 5) 5 := by
    refine ⟨?_, rfl, ?_⟩ <;> decide
  refine ⟨by simp [lapsed, Op.ms], by simp [lapsed, Op.ms], ?_, ?_, ?_, by decide⟩
  · simp only [lapsed, List.cons_append, List.nil_append, List.forall_mem_cons]
    exact ⟨⟨hid, 5, hms⟩, ⟨hid, 5, hms⟩, hid, nofun⟩
  · rintro _ _ ⟨op, hm, rfl⟩ ⟨op', hm', rfl⟩ _
    simp only [lapsed, List.cons_append, List.nil_append, List.mem_cons, List.not_mem_nil, or_false] at hm hm'
    rcases hm with rfl | rfl | rfl <;> rcases hm' with rfl | rfl | rfl <;> rfl
  · intro key
    rw [Memory.History.grantedTokens, List.length_map]
    exact Nat.lt_of_le_of_lt (List.length_filter_le _ _) (by decide)

end Runs

end GoLease.Valkey
