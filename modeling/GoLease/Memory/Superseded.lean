import GoLease.Memory.Reference

namespace GoLease.Memory.Superseded

open Traces Store History

variable {store : Store} {key : Key}

theorem run_fence_le (hle : store.fence key ≤ maxUint64) (calls : List Call) :
    store.fence key ≤ (run exec store calls).fence key ∧
      (run exec store calls).fence key ≤ maxUint64 := by
  induction calls generalizing store with
  | nil => exact ⟨Nat.le_refl _, hle⟩
  | cons call calls ih =>
      obtain ⟨hup, hmax⟩ := step_fence_le (store.exec_step call) hle
      obtain ⟨hup', hmax'⟩ := ih hmax
      exact ⟨Nat.le_trans hup hup', hmax'⟩

theorem reachable_fence_le {maxKeys : Nat} (hnew : new maxKeys = .ok store) (key : Key)
    (calls : List Call) : (run exec store calls).fence key ≤ maxUint64 := by
  obtain rfl := new_ok hnew
  exact (run_fence_le (Nat.zero_le _) calls).2

/-- The record of an acquisition passes the store's own checks, and its token
is above every fence the key had before and is the fence after. -/
theorem exec_granted {call : Call} (hle : store.fence key ≤ maxUint64)
    (hg : granted key (call, (store.exec call).2) = true) :
    (store.exec call).2.record.key = key ∧
      (∃ ttl, Memory.validate none key (store.exec call).2.record.owner ttl = none) ∧
      store.fence key < (store.exec call).2.record.token ∧
      (store.exec call).1.fence key = (store.exec call).2.record.token := by
  obtain ⟨now, ctx, request⟩ := call
  have hs := store.exec_step ⟨now, ctx, request⟩
  generalize store.exec ⟨now, ctx, request⟩ = result at hs hg ⊢
  obtain ⟨store', reply⟩ := result
  obtain ⟨_, hmax, htoken, hfence⟩ := step_granted hs hg
  cases request with
  | tryAcquire requested owner ttl =>
      simp only [granted, Bool.and_eq_true, beq_iff_eq, Option.isNone_iff_eq_none] at hg
      obtain ⟨rfl, herr⟩ := hg
      obtain ⟨hvalid, _, _, hrecord, _⟩ := hs.acquired_of_ok herr
      refine ⟨by rw [hrecord], ⟨ttl, by rw [hrecord]; exact hvalid⟩, ?_, hfence⟩
      rw [htoken]
      simp only [maxUint64] at hmax hle
      omega
  | renew | validate | release => cases hg

/-- The fence of a key stays at or above every token it was acquired with. -/
theorem token_le_fence {maxKeys : Nat} (hnew : new maxKeys = .ok store) {before : List Call} {call : Call}
    (hg : granted key (call, ((run exec store before).exec call).2) = true) (after : List Call) :
    ((run exec store before).exec call).2.record.token ≤
      (run exec store (before ++ call :: after)).fence key := by
  obtain ⟨_, _, _, hfence⟩ := exec_granted (reachable_fence_le hnew key before) hg
  have hle := reachable_fence_le hnew key (before ++ [call])
  rw [run_append] at hle ⊢
  rw [← hfence]
  exact (run_fence_le hle after).1

/-- A record whose token the fence has passed is refused by every call made
with it, and the refusal leaves the store as it is. -/
theorem exec_stale {owned : Record} {ttl : Int}
    (hvalid : Memory.validate none owned.key owned.owner ttl = none) (htoken : owned.token ≠ 0)
    (hpast : owned.token < store.fence owned.key) (now : Int) :
    store.exec ⟨now, none, .renew owned ttl⟩ =
        (store, ⟨zeroRecord, some (wrap .errStaleOwner "renew")⟩) ∧
      store.exec ⟨now, none, .validate owned⟩ =
        (store, ⟨zeroRecord, some (wrap .errStaleOwner "validate")⟩) ∧
      store.exec ⟨now, none, .release owned⟩ =
        (store, ⟨zeroRecord, some (wrap .errStaleOwner "release")⟩) := by
  have hother (entry : Entry) (hl : store.lookup owned.key = some entry) :
      entry.record.token ≠ owned.token := by
    rw [fence_of_lookup store hl] at hpast
    omega
  have hheld (entry : Entry) : ¬store.Held owned.key owned.owner owned.token now entry := by
    rintro ⟨hl, _, _, ht, _⟩
    exact hother entry hl ht
  have hidentity := validateIdentity_of_validate hvalid htoken
  refine ⟨exec_renew_stale hvalid htoken hheld, exec_validate_stale hidentity hheld, ?_⟩
  apply exec_release_stale hidentity
  rintro entry hl ⟨_, ht⟩
  exact hother entry hl ht

/-- A release is acknowledged only with the last token of the key. -/
theorem fence_of_release {owned : Record} {now : Int} {ctx : Ctx}
    (h : (store.exec ⟨now, ctx, .release owned⟩).2.err = none) : store.fence owned.key = owned.token := by
  have hs := store.exec_step ⟨now, ctx, .release owned⟩
  generalize store.exec ⟨now, ctx, .release owned⟩ = result at hs h
  obtain ⟨store', reply⟩ := result
  cases hs with
  | rejected => cases h
  | released _ current hlookup _ _ htoken | releasedAgain _ current hlookup _ _ htoken =>
      rw [fence_of_lookup _ hlookup]
      exact htoken

theorem validate_of_pos {owner : Bytes} {ttl ttl' : Int} (h : Memory.validate none key owner ttl = none)
    (hpos : 0 < ttl') : Memory.validate none key owner ttl' = none := by
  have hidentity := validateIdentity_of_validate h Nat.one_ne_zero
  rw [Memory.validate, hidentity]
  exact if_neg (Int.not_le.mpr hpos)

/-- A superseded record is inert. Once a key has been acquired again, every
call with the key, owner and token of the earlier acquisition is refused as
stale and changes nothing, whatever was called in between and since. -/
theorem superseded_inert {maxKeys : Nat} (hnew : new maxKeys = .ok store) (key : Key)
    (before between after : List Call) (first second : Call)
    (hfirst : granted key (first, ((run exec store before).exec first).2) = true)
    (hsecond : granted key
      (second, ((run exec store (before ++ first :: between)).exec second).2) = true) :
    let superseded := ((run exec store before).exec first).2.record
    let current := run exec store (before ++ first :: between ++ second :: after)
    ∀ (owned : Record) (now ttl : Int), owned.key = superseded.key →
      owned.owner = superseded.owner → owned.token = superseded.token → 0 < ttl →
      current.exec ⟨now, none, .renew owned ttl⟩ =
          (current, ⟨zeroRecord, some (wrap .errStaleOwner "renew")⟩) ∧
        current.exec ⟨now, none, .validate owned⟩ =
          (current, ⟨zeroRecord, some (wrap .errStaleOwner "validate")⟩) ∧
        current.exec ⟨now, none, .release owned⟩ =
          (current, ⟨zeroRecord, some (wrap .errStaleOwner "release")⟩) := by
  intro superseded current owned now ttl hkey howner htoken hpos
  obtain ⟨hk, ⟨ttl', hvalid⟩, hup, _⟩ := exec_granted (reachable_fence_le hnew key before) hfirst
  have hle := reachable_fence_le hnew key (before ++ first :: between)
  obtain ⟨_, _, hup', _⟩ := exec_granted hle hsecond
  have hpast : superseded.token < current.fence key :=
    calc superseded.token
      _ ≤ (run exec store (before ++ first :: between)).fence key := token_le_fence hnew hfirst between
      _ < ((run exec store (before ++ first :: between)).exec second).2.record.token := hup'
      _ ≤ current.fence key := token_le_fence hnew hsecond after
  apply exec_stale
  · rw [hkey, howner, hk]
    exact validate_of_pos hvalid hpos
  · rw [htoken]
    exact Nat.ne_of_gt (Nat.zero_lt_of_lt hup)
  · rw [htoken, hkey, hk]
    exact hpast

/-- The same owner acquires again after its lease has expired; the successor is
released, and the last call reads a clock from before the first. -/
theorem superseded_inert_same_owner :
    let acquired (now : Int) : Call := ⟨now, none, .tryAcquire ⟨[107]⟩ [97] 10⟩
    let store := run exec ⟨1, ∅⟩
      [acquired 5, acquired 15, ⟨16, none, .release ⟨⟨[107]⟩, [97], 2, 15, 25⟩⟩]
    store.exec ⟨0, none, .release ⟨⟨[107]⟩, [97], 1, 5, 15⟩⟩ =
      (store, ⟨zeroRecord, some (wrap .errStaleOwner "release")⟩) := by
  intro acquired store
  exact (superseded_inert (show new 1 = .ok _ from rfl) ⟨[107]⟩ [] []
    [⟨16, none, .release ⟨⟨[107]⟩, [97], 2, 15, 25⟩⟩] (acquired 5) (acquired 15) (by decide)
    (by decide) ⟨⟨[107]⟩, [97], 1, 5, 15⟩ 0 1 rfl rfl rfl (by decide)).2.2

end GoLease.Memory.Superseded
