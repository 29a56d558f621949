import GoLease.Memory.History
import Mathlib.Data.List.Dedup

namespace GoLease

/-- The arguments that both the memory store and a native store accept. -/
def ValidIdentity (key : Key) (owner : Bytes) (token : Nat) : Prop :=
  key.value ≠ [] ∧ owner ≠ [] ∧ owner.length ≤ 128 ∧ 0 < token ∧ token < 2 ^ 64

/-- A duration of whole milliseconds, as an int64 of nanoseconds. -/
def WholeMilliseconds (ttl : Int) (ms : Nat) : Prop := 0 < ms ∧ ttl = unixMilli ms ∧ ttl < 2 ^ 63

def Request.Valid : Request → Prop
  | .tryAcquire key owner ttl => ValidIdentity key owner 1 ∧ ∃ ms, WholeMilliseconds ttl ms
  | .renew owned ttl =>
    ValidIdentity owned.key owned.owner owned.token ∧ ∃ ms, WholeMilliseconds ttl ms
  | .validate owned | .release owned => ValidIdentity owned.key owned.owner owned.token

/-- Both succeed, or both fail with errors that match the same sentinels. -/
def SameClass : Option Error → Option Error → Prop
  | none, none => True
  | some err, some err' => ∀ target, err.is target = err'.is target
  | _, _ => False

/-- The same record, or the same class of error. -/
def Reply.Agrees (reply reference : Reply) : Prop :=
  reply.record = reference.record ∧ SameClass reply.err reference.err

theorem agrees_refl (record : Record) : Reply.Agrees ⟨record, none⟩ ⟨record, none⟩ := ⟨rfl, trivial⟩

theorem agrees_wrap (target : Sentinel) (operation operation' : String) :
    Reply.Agrees ⟨zeroRecord, some (wrap target operation)⟩
      ⟨zeroRecord, some (wrap target operation')⟩ := ⟨rfl, fun _ => rfl⟩

namespace Memory

variable {store : Store} {key : Key} {owner : Bytes} {now ttl : Int}

theorem validateIdentity_valid {token : Nat} (h : ValidIdentity key owner token) :
    validateIdentity none key owner token = none := by
  obtain ⟨hk, ho, hlen, ht, _⟩ := h
  simp [validateIdentity, hk, ho, Nat.not_lt.mpr hlen, Nat.pos_iff_ne_zero.mp ht]

theorem validate_valid {token ms : Nat} (h : ValidIdentity key owner token)
    (ht : WholeMilliseconds ttl ms) : validate none key owner ttl = none := by
  obtain ⟨hpos, rfl, _⟩ := ht
  obtain ⟨hk, ho, hlen, _, _⟩ := h
  have hone : ValidIdentity key owner 1 := ⟨hk, ho, hlen, by decide, by decide⟩
  rw [validate, validateIdentity_valid hone]
  simp only [unixMilli, millisecond]
  exact if_neg (by omega)

namespace Store

theorem not_held_of_vacant (owner : Bytes) (token : Nat) (h : store.Vacant key now) (entry : Entry) :
    ¬store.Held key owner token now entry := by
  rintro ⟨hl, ha, _, _, hlt⟩
  rcases h entry hl with hf | hle
  · rw [ha] at hf
    cases hf
  · omega

theorem exec_tryAcquire_contended {entry : Entry} (hv : Memory.validate none key owner ttl = none)
    (hl : store.lookup key = some entry) (ha : entry.active = true)
    (hlt : now < entry.record.expiresAt) :
    store.exec ⟨now, none, .tryAcquire key owner ttl⟩ =
      (store, ⟨zeroRecord, some (wrap .errContended "try acquire")⟩) := by
  simp [exec, tryAcquire, hv, hl, ha, hlt, Reply.ofRecord]

theorem exec_tryAcquire_granted (hv : Memory.validate none key owner ttl = none)
    (hvacant : store.Vacant key now)
    (hcapacity : store.lookup key = none → store.entries.keys.length < store.maxKeys)
    (hmax : store.fence key < 2 ^ 64 - 1) :
    store.exec ⟨now, none, .tryAcquire key owner ttl⟩ =
      (store.put key ⟨⟨key, owner, store.fence key + 1, now, now + ttl⟩, true⟩,
        ⟨⟨key, owner, store.fence key + 1, now, now + ttl⟩, none⟩) := by
  have htoken : (store.fence key + 1) % 2 ^ 64 = store.fence key + 1 := Nat.mod_eq_of_lt (by omega)
  have hlast : store.fence key ≠ maxUint64 := by
    simp only [maxUint64]
    omega
  simp only [exec, tryAcquire, hv, getD_token, htoken]
  rw [if_neg, if_neg, if_neg hlast]
  · rfl
  · rintro ⟨hnone, hfull⟩
    have hroom := hcapacity (Option.isNone_iff_eq_none.mp hnone)
    have hmod := Nat.mod_le store.entries.keys.length (2 ^ 32)
    omega
  · rintro ⟨hsome, ha, hlt⟩
    obtain ⟨entry, he⟩ := Option.isSome_iff_exists.mp hsome
    rw [he, Option.getD_some] at ha hlt
    rcases hvacant entry he with hf | hle
    · rw [ha] at hf
      cases hf
    · omega

theorem exec_renew_stale {owned : Record} (hv : Memory.validate none owned.key owned.owner ttl = none)
    (ht : owned.token ≠ 0)
    (hnot : ∀ entry, ¬store.Held owned.key owned.owner owned.token now entry) :
    store.exec ⟨now, none, .renew owned ttl⟩ =
      (store, ⟨zeroRecord, some (wrap .errStaleOwner "renew")⟩) := by
  simp only [exec, renew, hv, if_neg ht]
  cases hl : store.lookup owned.key with
  | none => rfl
  | some entry =>
      dsimp only
      rw [checks_of_not_held store hl (hnot entry)]
      rfl

theorem exec_validate_of_held {owned : Record} {entry : Entry}
    (hv : validateIdentity none owned.key owned.owner owned.token = none)
    (hheld : store.Held owned.key owned.owner owned.token now entry) :
    store.exec ⟨now, none, .validate owned⟩ = (store, ⟨entry.record, none⟩) := by
  obtain ⟨hl, ha, ho, ht, hlt⟩ := hheld
  simp [exec, validate, hv, hl, ha, sameOwner, ho, ht, hlt, Reply.ofRecord]

theorem exec_validate_stale {owned : Record}
    (hv : validateIdentity none owned.key owned.owner owned.token = none)
    (hnot : ∀ entry, ¬store.Held owned.key owned.owner owned.token now entry) :
    store.exec ⟨now, none, .validate owned⟩ =
      (store, ⟨zeroRecord, some (wrap .errStaleOwner "validate")⟩) := by
  simp only [exec, validate, hv]
  cases hl : store.lookup owned.key with
  | none => rfl
  | some entry =>
      dsimp only
      rw [checks_of_not_held store hl (hnot entry)]
      rfl

theorem exec_release_again {owned : Record} {entry : Entry}
    (hv : validateIdentity none owned.key owned.owner owned.token = none)
    (hl : store.lookup owned.key = some entry) (ha : entry.active = false)
    (ho : entry.record.owner = owned.owner) (ht : entry.record.token = owned.token) :
    store.exec ⟨now, none, .release owned⟩ = (store, .ofErr none) := by
  simp [exec, release, hv, hl, ha, sameOwner, ho, ht]

theorem exec_release_stale {owned : Record}
    (hv : validateIdentity none owned.key owned.owner owned.token = none)
    (hnot : ∀ entry, store.lookup owned.key = some entry →
      ¬(entry.record.owner = owned.owner ∧ entry.record.token = owned.token)) :
    store.exec ⟨now, none, .release owned⟩ =
      (store, ⟨zeroRecord, some (wrap .errStaleOwner "release")⟩) := by
  simp only [exec, release, hv]
  cases hl : store.lookup owned.key with
  | none => rfl
  | some entry =>
      have hs : sameOwner entry.record owned = false := by
        have hne := hnot entry hl
        simp only [sameOwner, Bool.and_eq_false_iff, beq_eq_false_iff_ne]
        exact not_and_or.mp hne
      by_cases ha : entry.active = true <;> simp [ha, hs, Reply.ofErr]

theorem exec_release_vacant {owned : Record} (ctx : Ctx) (hvacant : store.Vacant owned.key now) :
    (store.exec ⟨now, ctx, .release owned⟩).1.Vacant owned.key now ∧
      (store.exec ⟨now, ctx, .release owned⟩).1.fence owned.key = store.fence owned.key := by
  have hs := store.exec_step ⟨now, ctx, .release owned⟩
  have hg : History.granted owned.key (⟨now, ctx, .release owned⟩,
      (store.exec ⟨now, ctx, .release owned⟩).2) = false := rfl
  refine ⟨?_, History.step_fence hs hg⟩
  generalize store.exec ⟨now, ctx, .release owned⟩ = result at hs ⊢
  obtain ⟨store', reply⟩ := result
  cases hs with
  | rejected | releasedAgain => exact hvacant
  | released _ current _ _ _ _ =>
      intro entry (he : (store.put owned.key ⟨current.record, false⟩).lookup owned.key = some entry)
      rw [lookup_put_self] at he
      cases he
      exact .inl rfl

end Store

open Traces Store

/-- The keys that a list of requests tries to acquire. -/
def acquiredKeys (requests : List Request) : List Key :=
  requests.filterMap (fun request => match request with
    | .tryAcquire key _ _ => some key
    | _ => none)

theorem acquiredKeys_append (requests : List Request) (request : Request) :
    acquiredKeys (requests ++ [request]) = acquiredKeys requests ++ acquiredKeys [request] :=
  List.filterMap_append

theorem entries_acquired (maxKeys : Nat) (calls : List Call) :
    (run exec ⟨maxKeys, ∅⟩ calls).maxKeys = maxKeys ∧
      ∀ key entry, (run exec ⟨maxKeys, ∅⟩ calls).lookup key = some entry →
        key ∈ acquiredKeys (calls.map Call.request) := by
  induction calls using List.reverseRecOn with
  | nil => exact ⟨rfl, nofun⟩
  | append_singleton calls call ih =>
      obtain ⟨hmax, hkeys⟩ := ih
      rw [run_append, List.map_append, List.map_singleton, acquiredKeys_append]
      generalize run exec ⟨maxKeys, ∅⟩ calls = store at hmax hkeys ⊢
      have hs := store.exec_step call
      have hrun : run exec store [call] = (store.exec call).1 := rfl
      rw [hrun]
      generalize call.request = request at hs ⊢
      generalize store.exec call = result at hs ⊢
      obtain ⟨store', reply⟩ := result
      have hold (k : Key) (e : Entry) (hl : store.lookup k = some e) :
          k ∈ acquiredKeys (calls.map Call.request) ++ acquiredKeys [request] :=
        List.mem_append_left _ (hkeys k e hl)
      have hput (key : Key) (entry : Entry) (hk : key ∈ acquiredKeys (calls.map Call.request) ++
          acquiredKeys [request]) (k : Key) (e : Entry) (hl : (store.put key entry).lookup k = some e) :
          k ∈ acquiredKeys (calls.map Call.request) ++ acquiredKeys [request] := by
        by_cases hne : k = key
        · rw [hne]
          exact hk
        · rw [lookup_put_of_ne _ hne] at hl
          exact hold k e hl
      cases hs with
      | rejected | validated | releasedAgain => exact ⟨hmax, hold⟩
      | acquired key owner ttl hvalid hvacant hcapacity htoken =>
          exact ⟨hmax, hput key _ (List.mem_append_right _ List.mem_cons_self)⟩
      | renewed owned ttl current hvalid hheld => exact ⟨hmax, hput _ _ (hold _ _ hheld.1)⟩
      | released owned current hlookup hactive howner htoken =>
          exact ⟨hmax, hput _ _ (hold _ _ hlookup)⟩

/-- A store whose entries are all for keys of a list has room for a key that
the capacity leaves beside them. -/
theorem room_beside {key : Key} {keys : List Key}
    (hkeys : ∀ key entry, store.lookup key = some entry → key ∈ keys)
    (hcap : (keys ++ [key]).dedup.length ≤ store.maxKeys) (hnew : store.lookup key = none) :
    store.entries.keys.length < store.maxKeys := by
  -- The keys of the entries and the new key are pairwise distinct and all listed.
  have hinj : Function.Injective Key.mk := fun _ _ h => Key.mk.inj h
  have hnodup : (key :: store.entries.keys.map Key.mk).Nodup := by
    refine List.nodup_cons.mpr ⟨?_, store.entries.keys_nodup.map hinj⟩
    intro hm
    obtain ⟨value, hv, rfl⟩ := List.mem_map.mp hm
    have hsome := AList.lookup_isSome.mpr (AList.mem_keys.mpr hv)
    have hnone : store.entries.lookup value = none := hnew
    rw [hnone] at hsome
    cases hsome
  have hsub : key :: store.entries.keys.map Key.mk ⊆ (keys ++ [key]).dedup := by
    intro k hk
    rw [List.mem_dedup]
    rcases List.mem_cons.mp hk with rfl | hk
    · exact List.mem_append_right _ List.mem_cons_self
    · obtain ⟨value, hv, rfl⟩ := List.mem_map.mp hk
      obtain ⟨entry, he⟩ := Option.isSome_iff_exists.mp (AList.lookup_isSome.mpr (AList.mem_keys.mpr hv))
      exact List.mem_append_left _ (hkeys ⟨value⟩ entry he)
  have hlen := (List.subperm_of_subset hnodup hsub).length_le
  rw [List.length_cons, List.length_map] at hlen
  omega

theorem room {maxKeys : Nat} {calls : List Call} {key : Key}
    (hcap : (acquiredKeys (calls.map Call.request) ++ [key]).dedup.length ≤ maxKeys)
    (hnew : (run exec ⟨maxKeys, ∅⟩ calls).lookup key = none) :
    (run exec ⟨maxKeys, ∅⟩ calls).entries.keys.length < (run exec ⟨maxKeys, ∅⟩ calls).maxKeys := by
  obtain ⟨hmax, hkeys⟩ := entries_acquired maxKeys calls
  exact room_beside hkeys (by rwa [hmax]) hnew

end Memory

end GoLease
