import GoLease.Coverage
import GoLease.Memory.History
import GoLease.World

namespace GoLease.Admission

open Lifecycle Memory Memory.Store Coverage

/-- The entry of an acquisition is active and does not expire before the
deadline. -/
def Backs (store : Store) (granted : Record) (deadline : Int) : Prop :=
  ∃ entry, store.lookup granted.key = some entry ∧ entry.active = true ∧
    entry.record.owner = granted.owner ∧ entry.record.token = granted.token ∧
    deadline ≤ entry.record.expiresAt

section Store

variable {store store' : Store} {now : Int} {granted : Record} {deadline : Int}
  {request : Request} {reply : Reply}

theorem backs_put {key : Key} {entry : Entry} (hk : granted.key = key) (ha : entry.active = true)
    (ho : entry.record.owner = granted.owner) (ht : entry.record.token = granted.token)
    (hd : deadline + 0 ≤ entry.record.expiresAt) : Backs (store.put key entry) granted deadline := by
  rw [Int.add_zero] at hd
  refine ⟨entry, ?_, ha, ho, ht, hd⟩
  rw [hk, lookup_put_self]

theorem backs_acquired {key : Key} {owner : Bytes} {ttl : Int} {record : Record}
    (hs : store.Step now (.tryAcquire key owner ttl) store' ⟨record, none⟩)
    (hle : store.fence key ≤ maxUint64) :
    record.key = key ∧ store.fence key < record.token ∧ record.token ≤ store'.fence key ∧
      ∀ deadline, deadline + 0 ≤ now + ttl → Backs store' record deadline := by
  obtain ⟨_, _, htoken, hrecord, rfl⟩ := hs.acquired_of_ok rfl
  simp only [maxUint64] at hrecord htoken hle
  refine ⟨by rw [hrecord], ?_, by rw [fence_put_self], ?_⟩
  · have htok : record.token = (store.fence key + 1) % 2 ^ 64 := congrArg Record.token hrecord
    rw [htok, Nat.mod_eq_of_lt (by omega)]
    exact Nat.lt_succ_self _
  · intro deadline hd
    exact backs_put (by rw [hrecord]) rfl rfl rfl (by rw [hrecord]; exact hd)

theorem backs_renewed {owned : Record} {ttl : Int} (hs : store.Step now (.renew owned ttl) store' reply)
    (hreply : reply.err = none) (hsame : Continues granted owned)
    (hd : deadline + 0 ≤ now + ttl) : Backs store' granted deadline := by
  obtain ⟨current, hheld, hrecord, rfl⟩ := hs.renewed_of_ok hreply
  apply backs_put hsame.1.symm rfl
  · rw [hrecord]
    exact hheld.2.2.1.trans hsame.2.1
  · rw [hrecord]
    exact hheld.2.2.2.1.trans hsame.2.2
  · rw [hrecord]
    exact hd

/-- Only a release of the acquisition itself takes its entry away. -/
theorem Backs.step (h : Backs store granted deadline) (hs : store.Step now request store' reply)
    (hlt : now < deadline) (hrelease : ∀ owned, request = .release owned → ¬Tied id granted owned)
    (hrenew : ∀ owned ttl, request = .renew owned ttl → Tied id granted owned →
      deadline + 0 ≤ now + ttl) : Backs store' granted deadline := by
  obtain ⟨entry, hl, ha, ho, ht, hd⟩ := h
  have hframe {key : Key} (hne : granted.key ≠ key) (other : Entry) :
      Backs (store.put key other) granted deadline :=
    ⟨entry, (lookup_put_of_ne store hne other).trans hl, ha, ho, ht, hd⟩
  cases hs with
  | rejected | validated | releasedAgain => exact ⟨entry, hl, ha, ho, ht, hd⟩
  | acquired key owner ttl hvalid hvacant hcapacity htoken =>
      -- The key that is granted is vacant, so it is not the one with the backing entry.
      apply hframe
      rintro rfl
      rcases hvacant entry hl with hf | hle
      · rw [ha] at hf
        cases hf
      · omega
  | renewed owned ttl current hvalid hheld =>
      obtain ⟨hlookup, _, howner, htoken, _⟩ := hheld
      by_cases hk : granted.key = owned.key
      · rw [← hk, hl] at hlookup
        cases hlookup
        have hnear := hrenew owned ttl rfl ⟨hk.symm, howner.symm.trans ho, htoken.symm.trans ht⟩
        -- The new expiry is a full TTL away, and no deadline is further.
        exact backs_put hk rfl ho ht hnear
      · exact hframe hk _
  | released owned current hlookup hactive howner htoken =>
      by_cases hk : granted.key = owned.key
      · rw [← hk, hl] at hlookup
        cases hlookup
        exact absurd ⟨hk.symm, howner.symm.trans ho, htoken.symm.trans ht⟩ (hrelease owned rfl)
      · exact hframe hk _

end Store

/-- The memory store keeps every nanosecond of a TTL. -/
def contract : Contract Memory.Store.exec (id : Key → Key) 0 where
  ok store := ∀ key, store.fence key ≤ maxUint64
  fence store key := store.fence key
  backs := Backs
  ok_exec call hok _ key := (History.step_fence_le (exec_step _ call) (hok key)).2
  fence_exec call hok _ key := (History.step_fence_le (exec_step _ call) (hok key)).1
  acquired := by
    intro store call key owner ttl record hok hrequest _ hreply
    have hs := store.exec_step call
    rw [hrequest, hreply] at hs
    exact backs_acquired hs (hok key)
  renewed := by
    intro store call granted owned ttl _ hrequest _ hsame hreply deadline hd
    have hs := store.exec_step call
    rw [hrequest] at hs
    exact backs_renewed hs hreply hsame hd
  kept := by
    intro store call granted deadline _ _ hback hlt hrelease hrenew
    exact hback.step (store.exec_step call) hlt hrelease hrenew

theorem held {w : World} (h : Inv contract w) {i : Nat} {m : Machine} (ha : w.Admits i m)
    (hu : w.Unreleased i) :
    ∃ s granted entry, w.sessions[i]? = some s ∧ s.reply = some ⟨granted, none⟩ ∧
      Continues granted m.handle.record ∧
      w.store.Held m.handle.record.key m.handle.record.owner m.handle.record.token w.now entry := by
  obtain ⟨s, hi, hholder⟩ := Fleet.holding_of_machine ha.1
  obtain ⟨_, _, hh⟩ := (h.sessions i s hi).holding m hholder
  have hmargin : (0 : Int) ≤ m.handle.policy.safetyMargin.toInt := by
    rw [hh.policy_eq]
    exact s.policy.valid.margin_nonneg
  obtain ⟨s, granted, deadline, hi, hr, hsame, hlt, entry, hl, hact, ho, ht, hd⟩ := h.backed ha hu hmargin
  refine ⟨s, granted, entry, hi, hr, hsame, ?_⟩
  obtain ⟨hk, hown, htok⟩ := hsame
  rw [hk, hown, htok]
  exact ⟨hl, hact, ho, ht, Int.lt_of_lt_of_le hlt hd⟩

/-- Exclusive local admission. Whatever clients, handles and the store do in
whatever order, a handle that admits work and has no Release dispatched is
backed by the store's entry, so no two such handles share a key. -/
theorem exclusive_admission {maxKeys : Nat} {store : Store} (hnew : new maxKeys = .ok store)
    (now : Int) (events : List Fleet.Event) :
    let w := events.foldl World.step (World.start now store)
    (∀ i m, w.Admits i m → w.Unreleased i → ∃ entry,
      w.store.Held m.handle.record.key m.handle.record.owner m.handle.record.token w.now entry) ∧
    (∀ i j m n, w.Admits i m → w.Admits j n → w.Unreleased i → w.Unreleased j →
      m.handle.record.key = n.handle.record.key → i = j) := by
  intro w
  have h : Inv contract w := by
    obtain rfl := new_ok hnew
    exact inv_run (fun _ => Nat.zero_le _) now events
  refine ⟨?_, ?_⟩
  · intro i m ha hu
    obtain ⟨_, _, entry, _, _, _, hheld⟩ := held h ha hu
    exact ⟨entry, hheld⟩
  · intro i j m n ha hb hu hv hkey
    obtain ⟨s, r, entry, hi, hr, hcr, hheld⟩ := held h ha hu
    obtain ⟨t, q, entry', hj, hq, hcq, hheld'⟩ := held h hb hv
    refine h.distinct i j s t r q hi hj hr hq ?_ ?_
    · rw [id, id, ← hcr.1, ← hcq.1, hkey]
    · have hl := hheld.1
      rw [hkey, hheld'.1] at hl
      cases hl
      rw [← hcr.2.2, ← hcq.2.2, ← hheld.2.2.2.1, ← hheld'.2.2.2.1]

def margined : Policy.Accepted :=
  ⟨_, { ttl := 1000, safetyMargin := 100, maxAttempts := 1 }, rfl⟩

/-- A renewal that the store executes late, while a rival attempt is refused. -/
def renewedLate : List Fleet.Event :=
  [.dispatchAcquire ⟨[107]⟩ [97] margined 5, .tick 10, .executeAcquire 0 none, .completeAcquire 0,
    .tick 400, .inside 0 (.invoke .renew ⟨7, 0⟩), .dispatch 0 0 9, .tick 50,
    .dispatchAcquire ⟨[107]⟩ [98] margined 5, .executeAcquire 1 none, .completeAcquire 1,
    .execute 0 none, .deliver 0, .inside 0 (.finish 0 ⟨8, 0⟩), .tick 700]

theorem exclusive_admission_renewed_late :
    let w := renewedLate.foldl World.step (World.start 0 ⟨1, ∅⟩)
    ∃ m entry, w.Admits 0 m ∧ w.Unreleased 0 ∧ w.store.Held ⟨[107]⟩ [97] 1 1160 entry := by
  intro w
  have ha : ∃ m, w.Admits 0 m ∧ m.handle.record.key = ⟨[107]⟩ ∧ m.handle.record.owner = [97] ∧
      m.handle.record.token = 1 := ⟨_, ⟨rfl, 900, by decide⟩, rfl, rfl, rfl⟩
  have hu : w.Unreleased 0 := by
    intro msg hm _ record he
    obtain rfl := List.mem_singleton.mp (show msg ∈ [_] from hm)
    cases he
  obtain ⟨m, ha, hkey, howner, htoken⟩ := ha
  obtain ⟨entry, hheld⟩ := (@exclusive_admission 1 _ rfl 0 renewedLate).1 0 m ha hu
  rw [hkey, howner, htoken] at hheld
  exact ⟨m, entry, ha, hu, hheld⟩

end GoLease.Admission
