import GoLease.Memory.Store
import GoLease.Traces

namespace GoLease.Memory.History

open Traces Store

/-- The call acquired the key. -/
def granted (key : Key) (event : Call × Reply) : Bool :=
  match event.1.request with
  | .tryAcquire requested _ _ => requested == key && event.2.err.isNone
  | _ => false

/-- The tokens of the successful acquisitions of a key, in the order in which
the store granted them. -/
def grantedTokens (key : Key) (events : List (Call × Reply)) : List Nat :=
  (events.filter (granted key)).map (fun event => event.2.record.token)

theorem grantedTokens_append (key : Key) (past : List (Call × Reply)) (event : Call × Reply) :
    grantedTokens key (past ++ [event]) =
      grantedTokens key past ++ (if granted key event then [event.2.record.token] else []) := by
  by_cases h : granted key event <;> simp [grantedTokens, List.filter_append, h]

variable {store store' : Store} {now : Int} {request : Request} {reply : Reply}

/-- A call that acquires the key found it vacant, below the last token, and
answers with the next token, which becomes the fence. -/
theorem step_granted (h : store.Step now request store' reply) {key : Key} {ctx : Ctx}
    (hg : granted key (⟨now, ctx, request⟩, reply) = true) :
    store.Vacant key now ∧ store.fence key ≠ maxUint64 ∧
      reply.record.token = (store.fence key + 1) % 2 ^ 64 ∧ store'.fence key = reply.record.token := by
  cases h with
  | rejected request err => cases request <;> simp [granted] at hg
  | acquired k owner ttl hvalid hvacant hcapacity htoken =>
      obtain rfl : k = key := by simpa [granted] using hg
      exact ⟨hvacant, htoken, rfl, fence_put_self store _ _⟩
  | renewed | validated | released | releasedAgain => simp [granted] at hg

/-- Every other call keeps the fence of the key, and with it the token of the
entry, whatever it does to the rest of the store. -/
theorem step_fence (h : store.Step now request store' reply) {key : Key} {ctx : Ctx}
    (hg : granted key (⟨now, ctx, request⟩, reply) = false) : store'.fence key = store.fence key := by
  cases h with
  | rejected | validated | releasedAgain => rfl
  | acquired k owner ttl hvalid hvacant hcapacity htoken =>
      have hne : key ≠ k := by
        rintro rfl
        simp [granted] at hg
      exact fence_put_of_ne store hne _
  | renewed owned ttl current hvalid hheld =>
      by_cases hk : key = owned.key
      · subst hk
        rw [fence_put_self, fence_of_lookup store hheld.1]
      · exact fence_put_of_ne store hk _
  | released owned current hlookup hactive howner htoken =>
      by_cases hk : key = owned.key
      · subst hk
        rw [fence_put_self, fence_of_lookup store hlookup]
      · exact fence_put_of_ne store hk _

theorem step_fence_le (h : store.Step now request store' reply) {key : Key}
    (hle : store.fence key ≤ maxUint64) :
    store.fence key ≤ store'.fence key ∧ store'.fence key ≤ maxUint64 := by
  cases hg : granted key (⟨now, none, request⟩, reply) with
  | false =>
      rw [step_fence h hg]
      exact ⟨Nat.le_refl _, hle⟩
  | true =>
      obtain ⟨_, hmax, htoken, hfence⟩ := step_granted h hg
      rw [hfence, htoken]
      simp only [maxUint64] at hmax hle ⊢
      omega

/-- The retained token counts the acquisitions of the key since the store was
created, and the tokens handed out are all the numbers up to it. -/
theorem grantedTokens_eq_range (maxKeys : Nat) (key : Key) (calls : List Call) :
    grantedTokens key (trace exec ⟨maxKeys, ∅⟩ calls) =
        List.range' 1 ((run exec ⟨maxKeys, ∅⟩ calls).fence key) ∧
      (run exec ⟨maxKeys, ∅⟩ calls).fence key ≤ maxUint64 := by
  refine history_rule (P := fun past (store : Store) => grantedTokens key past =
    List.range' 1 (store.fence key) ∧ store.fence key ≤ maxUint64) ?_ ?_ calls
  · exact ⟨rfl, Nat.zero_le _⟩
  · rintro past store ⟨now, ctx, request⟩ ⟨htokens, hle⟩
    have hs := store.exec_step ⟨now, ctx, request⟩
    rw [grantedTokens_append]
    cases hg : granted key (⟨now, ctx, request⟩, (store.exec ⟨now, ctx, request⟩).2) with
    | false =>
        rw [step_fence hs hg, htokens]
        exact ⟨by simp, hle⟩
    | true =>
        obtain ⟨_, hmax, htoken, hfence⟩ := step_granted hs hg
        -- The exhaustion check keeps the increment from wrapping.
        have hnext : (store.fence key + 1) % 2 ^ 64 = store.fence key + 1 := by
          apply Nat.mod_eq_of_lt
          simp only [maxUint64] at hmax hle
          omega
        rw [hfence, htoken, hnext, htokens, List.range'_concat]
        refine ⟨by simp [Nat.add_comm], ?_⟩
        omega

/-- Fence continuity: over any calls at any clock readings, the acquisitions
of a key receive the tokens 1, 2, 3 and so on, never more than a uint64 holds,
and each of them found no unexpired active entry at its own reading. -/
theorem fence_continuity {maxKeys : Nat} {store : Store} (hnew : new maxKeys = .ok store)
    (key : Key) (calls : List Call) :
    (∃ n ≤ 2 ^ 64 - 1, grantedTokens key (trace exec store calls) = List.range' 1 n) ∧
      ∀ before call after, calls = before ++ call :: after →
        granted key (call, ((run exec store before).exec call).2) = true →
        (run exec store before).Vacant key call.now := by
  obtain rfl := new_ok hnew
  obtain ⟨htokens, hle⟩ := grantedTokens_eq_range maxKeys key calls
  refine ⟨⟨_, hle, htokens⟩, ?_⟩
  intro before call after _ hg
  exact (step_granted ((run exec ⟨maxKeys, ∅⟩ before).exec_step call) hg).1

def reacquisition : List Call :=
  [⟨5, none, .tryAcquire ⟨[107]⟩ [97] 10⟩, ⟨9, none, .tryAcquire ⟨[107]⟩ [98] 10⟩]

theorem fence_continuity_reacquired :
    grantedTokens ⟨[107]⟩ (trace exec ⟨1, ∅⟩
        (reacquisition ++ [⟨15, none, .tryAcquire ⟨[107]⟩ [98] 10⟩])) = [1, 2] ∧
      (run exec ⟨1, ∅⟩ reacquisition).Vacant ⟨[107]⟩ 15 :=
  ⟨by decide, (@fence_continuity 1 _ rfl ⟨[107]⟩ _).2 reacquisition
    ⟨15, none, .tryAcquire ⟨[107]⟩ [98] 10⟩ [] rfl (by decide)⟩

end GoLease.Memory.History
