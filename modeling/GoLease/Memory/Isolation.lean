import GoLease.Memory.Reference

/-!
The keys of the store do not see each other: an operation reads and writes the
entry of its own key, and only the capacity looks at the others.
-/

namespace GoLease.Memory.Isolation

open Traces Store

def onKey (key : Key) (call : Call) : Bool := call.request.key == key

/-- The keys that a list of calls asks, with arguments the store accepts, to
acquire. -/
def contenders (calls : List Call) : List Key :=
  calls.filterMap fun call =>
    match call.request with
    | .tryAcquire key owner ttl =>
      if Memory.validate call.ctx key owner ttl = none then some key else none
    | _ => none

theorem contenders_append (calls more : List Call) :
    contenders (calls ++ more) = contenders calls ++ contenders more := List.filterMap_append

/-- The check that TryAcquire makes for a key without an entry. -/
def HasRoom (store : Store) : Prop := ¬store.entries.keys.length % 2 ^ 32 ≥ store.maxKeys

section Calls

variable {s t : Store} {call : Call} {key : Key}

/-- Two outcomes of a call with the same answer and the same entry for `key`. -/
def Agree {α : Type} (key : Key) (s t : Store × α) : Prop :=
  s.2 = t.2 ∧ s.1.lookup key = t.1.lookup key

theorem agree_put {α : Type} (s t : Store) (key : Key) (entry : Entry) (result : α) :
    Agree key (s.put key entry, result) (t.put key entry, result) :=
  ⟨rfl, by rw [lookup_put_self, lookup_put_self]⟩

theorem tryAcquire_agree {now : Int} {ctx : Ctx} {owner : Bytes} {ttl : Int}
    (h : s.lookup key = t.lookup key)
    (hroom : s.lookup key = none → Memory.validate ctx key owner ttl = none →
      HasRoom s ∧ HasRoom t) :
    Agree key (s.tryAcquire now ctx key owner ttl) (t.tryAcquire now ctx key owner ttl) := by
  simp only [tryAcquire]
  cases hv : Memory.validate ctx key owner ttl with
  | some err => exact ⟨rfl, h⟩
  | none =>
      have hfull : ¬((t.lookup key).isNone = true ∧ s.entries.keys.length % 2 ^ 32 ≥ s.maxKeys) ∧
          ¬((t.lookup key).isNone = true ∧ t.entries.keys.length % 2 ^ 32 ≥ t.maxKeys) := by
        cases hl : t.lookup key with
        | some entry => exact ⟨by simp, by simp⟩
        | none =>
            obtain ⟨hs, ht⟩ := hroom (h.trans hl) hv
            exact ⟨fun hf => hs hf.2, fun hf => ht hf.2⟩
      simp only [h, if_neg hfull.1, if_neg hfull.2]
      split
      next => exact ⟨rfl, h⟩
      next =>
        split
        next => exact ⟨rfl, h⟩
        next => exact agree_put ..

theorem renew_agree {now : Int} {ctx : Ctx} {owned : Record} {ttl : Int}
    (h : s.lookup owned.key = t.lookup owned.key) :
    Agree owned.key (s.renew now ctx owned ttl) (t.renew now ctx owned ttl) := by
  simp only [renew, h]
  split
  next => exact ⟨rfl, h⟩
  next =>
    split
    next => exact ⟨rfl, h⟩
    next =>
      cases hl : t.lookup owned.key with
      | none => exact ⟨rfl, h⟩
      | some current =>
          dsimp only
          split
          next => exact ⟨rfl, h⟩
          next =>
            split
            next => exact ⟨rfl, h⟩
            next =>
              split
              next => exact ⟨rfl, h⟩
              next => exact agree_put ..

theorem release_agree {ctx : Ctx} {owned : Record}
    (h : s.lookup owned.key = t.lookup owned.key) :
    Agree owned.key (s.release ctx owned) (t.release ctx owned) := by
  simp only [release, h]
  split
  next => exact ⟨rfl, h⟩
  next =>
    cases hl : t.lookup owned.key with
    | none => exact ⟨rfl, h⟩
    | some current =>
        dsimp only
        split
        next =>
          split
          next => exact ⟨rfl, h⟩
          next => exact ⟨rfl, h⟩
        next =>
          split
          next => exact ⟨rfl, h⟩
          next => exact agree_put ..

/-- Two stores with the same entry for a key answer a call on it alike and
keep the same entry, if neither refuses it for want of room. -/
theorem exec_agree (h : s.lookup call.request.key = t.lookup call.request.key)
    (hroom : s.lookup call.request.key = none → call.request.key ∈ contenders [call] →
      HasRoom s ∧ HasRoom t) :
    Agree call.request.key (s.exec call) (t.exec call) := by
  obtain ⟨now, ctx, request⟩ := call
  cases request with
  | tryAcquire key owner ttl =>
      have ha : Agree key (s.tryAcquire now ctx key owner ttl) (t.tryAcquire now ctx key owner ttl) :=
        tryAcquire_agree h fun hnone hv => hroom hnone (by simp [contenders, Request.key, hv])
      exact ⟨congrArg Reply.ofRecord ha.1, ha.2⟩
  | renew owned ttl =>
      have ha : Agree owned.key (s.renew now ctx owned ttl) (t.renew now ctx owned ttl) :=
        renew_agree h
      exact ⟨congrArg Reply.ofRecord ha.1, ha.2⟩
  | validate owned =>
      change s.lookup owned.key = t.lookup owned.key at h
      exact ⟨by simp only [exec, Store.validate, h], h⟩
  | release owned =>
      have ha : Agree owned.key (s.release ctx owned) (t.release ctx owned) := release_agree h
      exact ⟨congrArg Reply.ofErr ha.1, ha.2⟩

theorem exec_other (hne : call.request.key ≠ key) : (s.exec call).1.lookup key = s.lookup key :=
  (s.exec_step call).lookup_of_ne hne

section Inversion

variable {s' : Store} {now : Int} {request : Request} {reply : Reply}

/-- A key with an entry keeps one. -/
theorem step_retains (hs : s.Step now request s' reply) (h : (s.lookup key).isSome = true) :
    (s'.lookup key).isSome = true := by
  have hput (k : Key) (entry : Entry) : ((s.put k entry).lookup key).isSome = true := by
    by_cases hk : key = k
    · rw [hk, lookup_put_self]
      rfl
    · rwa [lookup_put_of_ne _ hk]
  cases hs with
  | rejected | validated | releasedAgain => exact h
  | acquired | renewed | released => exact hput _ _

/-- A call that fails changes nothing. -/
theorem step_failed (hs : s.Step now request s' reply) (h : reply.err ≠ none) : s' = s := by
  cases hs with
  | rejected | validated | releasedAgain => rfl
  | acquired | renewed | released => exact absurd rfl h

theorem step_maxKeys (hs : s.Step now request s' reply) : s'.maxKeys = s.maxKeys := by
  cases hs with
  | rejected | validated | releasedAgain | acquired | renewed | released => rfl

theorem put_length_of_some {entry old : Entry} (h : s.lookup key = some old) :
    (s.put key entry).entries.keys.length = s.entries.keys.length := by
  have hmem : key.value ∈ s.entries.keys := AList.mem_keys.mp (AList.lookup_isSome.mp (by
    rw [show s.entries.lookup key.value = some old from h]
    rfl))
  have hpos := List.length_pos_of_mem hmem
  change (s.entries.insert key.value entry).keys.length = _
  have herase := @List.length_erase_of_mem _ instBEqOfDecidableEq _ _ _ hmem
  rw [AList.keys_insert, List.length_cons]
  omega

theorem put_length_le (entry : Entry) :
    (s.put key entry).entries.keys.length ≤ s.entries.keys.length + 1 := by
  change (s.entries.insert key.value entry).keys.length ≤ _
  rw [AList.keys_insert, List.length_cons]
  exact Nat.succ_le_succ (@List.length_erase_le _ instBEqOfDecidableEq _ _)

/-- The capacity bounds the entries; the conversion to uint32 loses nothing. -/
theorem step_bounded (hs : s.Step now request s' reply) (hmax : s.maxKeys < 2 ^ 32)
    (h : s.entries.keys.length ≤ s.maxKeys) : s'.entries.keys.length ≤ s.maxKeys := by
  cases hs with
  | rejected | validated | releasedAgain => exact h
  | acquired k owner ttl hvalid hvacant hcapacity htoken =>
      cases hl : s.lookup k with
      | some old => exact (put_length_of_some hl).trans_le h
      | none =>
          have hroom := hcapacity hl
          rw [Nat.mod_eq_of_lt (by omega)] at hroom
          exact (put_length_le _).trans hroom
  | renewed owned ttl current hvalid hheld => exact (put_length_of_some hheld.1).trans_le h
  | released owned current hlookup => exact (put_length_of_some hlookup).trans_le h

end Inversion

theorem tryAcquire_live {now ttl : Int} {ctx : Ctx} {owner : Bytes}
    (h : (s.exec ⟨now, ctx, .tryAcquire key owner ttl⟩).2.err = none) : ctx = none := by
  cases hv : Memory.validate ctx key owner ttl with
  | none => exact ctx_of_validate hv
  | some err =>
      simp only [exec, tryAcquire, hv] at h
      cases h

/-- A call adds an entry only for a key it contends for. -/
theorem exec_contenders {keys : List Key} (h : ∀ key entry, s.lookup key = some entry → key ∈ keys)
    {entry : Entry} (hl : (s.exec call).1.lookup key = some entry) : key ∈ keys ++ contenders [call] := by
  cases hold : s.lookup key with
  | some old => exact List.mem_append_left _ (h key old hold)
  | none =>
      apply List.mem_append_right
      obtain ⟨now, ctx, request⟩ := call
      by_cases hk : request.key = key
      · subst hk
        have hs := s.exec_step ⟨now, ctx, request⟩
        generalize hexec : s.exec ⟨now, ctx, request⟩ = result at hs hl
        obtain ⟨s', reply⟩ := result
        dsimp only at hs hl
        cases hs with
        | rejected | validated | releasedAgain =>
            rw [hold] at hl
            cases hl
        | acquired k owner ttl hvalid =>
            obtain rfl : ctx = none := tryAcquire_live (by rw [hexec])
            simp [contenders, Request.key, hvalid]
        | renewed owned ttl current hvalid hheld =>
            cases hold.symm.trans hheld.1
        | released owned current hlookup => cases hold.symm.trans hlookup
      · rw [exec_other hk, hold] at hl
        cases hl

end Calls

section Runs

variable {maxKeys : Nat} {calls : List Call} {key : Key} {keys : List Key}

/-- What every run of a new store keeps: an entry only for keys that calls
contended for, and no more entries than the capacity. -/
theorem run_bounded (hmax : maxKeys < 2 ^ 32) (calls : List Call) :
    (run exec ⟨maxKeys, ∅⟩ calls).maxKeys = maxKeys ∧
      (run exec ⟨maxKeys, ∅⟩ calls).entries.keys.length ≤ maxKeys ∧
      ∀ key entry, (run exec ⟨maxKeys, ∅⟩ calls).lookup key = some entry → key ∈ contenders calls := by
  induction calls using List.reverseRecOn with
  | nil => exact ⟨rfl, Nat.zero_le _, nofun⟩
  | append_singleton calls call ih =>
      obtain ⟨hmaxKeys, hlength, hkeys⟩ := ih
      rw [run_append, contenders_append]
      have hlength' := step_bounded (exec_step _ call) (by rwa [hmaxKeys]) (by rwa [hmaxKeys])
      rw [hmaxKeys] at hlength'
      exact ⟨(step_maxKeys (exec_step _ call)).trans hmaxKeys, hlength', fun key entry hl => exec_contenders hkeys hl⟩

/-- A run whose contenders fit the capacity has room for any one of them. -/
theorem run_hasRoom (hmax : maxKeys < 2 ^ 32) (hcap : keys.dedup.length ≤ maxKeys)
    (hsub : contenders calls ⊆ keys) (hkey : key ∈ keys)
    (hnew : (run exec ⟨maxKeys, ∅⟩ calls).lookup key = none) :
    HasRoom (run exec ⟨maxKeys, ∅⟩ calls) := by
  obtain ⟨hmaxKeys, -, hkeys⟩ := run_bounded hmax calls
  have hsubset : (contenders calls ++ [key]).dedup ⊆ keys.dedup := by
    intro k hk
    rw [List.mem_dedup, List.mem_append, List.mem_singleton] at hk
    rw [List.mem_dedup]
    rcases hk with hk | rfl
    · exact hsub hk
    · exact hkey
  have hperm := List.subperm_of_subset (List.nodup_dedup _) hsubset
  have hlt := room_beside hkeys (by rw [hmaxKeys]; exact hperm.length_le.trans hcap) hnew
  have hmod := Nat.mod_le (run exec ⟨maxKeys, ∅⟩ calls).entries.keys.length (2 ^ 32)
  exact Nat.not_le.mpr (Nat.lt_of_le_of_lt hmod hlt)

theorem contenders_filter (key : Key) (calls : List Call) :
    contenders (calls.filter (onKey key)) ⊆ contenders calls := by
  intro k hk
  obtain ⟨call, hmem, hcall⟩ := List.mem_filterMap.mp hk
  exact List.mem_filterMap.mpr ⟨call, (List.mem_filter.mp hmem).1, hcall⟩

/-- The run of the operations on one key alone. -/
theorem projection (hmax : maxKeys < 2 ^ 32) (hcap : keys.dedup.length ≤ maxKeys) (key : Key)
    (hsub : contenders calls ⊆ keys) :
    (trace exec ⟨maxKeys, ∅⟩ calls).filter (fun event => onKey key event.1) =
        trace exec ⟨maxKeys, ∅⟩ (calls.filter (onKey key)) ∧
      (run exec ⟨maxKeys, ∅⟩ calls).lookup key =
        (run exec ⟨maxKeys, ∅⟩ (calls.filter (onKey key))).lookup key := by
  induction calls using List.reverseRecOn with
  | nil => exact ⟨rfl, rfl⟩
  | append_singleton calls call ih =>
      rw [contenders_append] at hsub
      obtain ⟨hcalls, hcall⟩ := List.append_subset.mp hsub
      obtain ⟨htrace, hlookup⟩ := ih hcalls
      rw [trace_append, run_append, List.filter_append, List.filter_append, htrace]
      by_cases hk : onKey key call = true
      · obtain rfl : call.request.key = key := by simpa [onKey] using hk
        have hone : [call].filter (onKey call.request.key) = [call] := by simp [hk]
        rw [hone, trace_append, run_append]
        obtain ⟨hreply, hnext⟩ := exec_agree hlookup (fun hnew hmem =>
          ⟨run_hasRoom hmax hcap hcalls (hcall hmem) hnew,
            run_hasRoom hmax hcap (List.Subset.trans (contenders_filter _ calls) hcalls) (hcall hmem)
              (hlookup.symm.trans hnew)⟩)
        refine ⟨?_, hnext⟩
        have hkept : (trace exec (run exec ⟨maxKeys, ∅⟩ calls) [call]).filter
            (fun event => onKey call.request.key event.1) =
            trace exec (run exec ⟨maxKeys, ∅⟩ calls) [call] := by simp [trace, hk]
        rw [hkept]
        simp only [trace, hreply]
      · have hnone : [call].filter (onKey key) = [] := by simp [hk]
        have hdropped : (trace exec (run exec ⟨maxKeys, ∅⟩ calls) [call]).filter
            (fun event => onKey key event.1) = [] := by simp [trace, hk]
        rw [hnone, hdropped, List.append_nil, List.append_nil, ← hlookup]
        exact ⟨rfl, exec_other (by simpa [onKey] using hk)⟩

/-- From an entry on, no capacity and no other key matters any more. -/
theorem projection_retained {s t : Store} {entry : Entry} (hs : s.lookup key = some entry)
    (ht : t.lookup key = some entry) (later : List Call) :
    (trace exec s later).filter (fun event => onKey key event.1) =
      trace exec t (later.filter (onKey key)) := by
  induction later generalizing s t entry with
  | nil => rfl
  | cons call later ih =>
      by_cases hk : onKey key call = true
      · obtain rfl : call.request.key = key := by simpa [onKey] using hk
        obtain ⟨hreply, hnext⟩ := exec_agree (hs.trans ht.symm) (fun hnone => by
          rw [hs] at hnone
          cases hnone)
        have hsome : ((s.exec call).1.lookup call.request.key).isSome = true :=
          step_retains (exec_step _ call) (by rw [hs]; rfl)
        obtain ⟨entry', hentry⟩ := Option.isSome_iff_exists.mp hsome
        simp only [trace, List.filter_cons, hk, if_true, hreply]
        rw [ih hentry (hnext.symm.trans hentry)]
      · have hother : (s.exec call).1.lookup key = some entry :=
          (exec_other (by simpa [onKey] using hk)).trans hs
        simp only [trace, List.filter_cons, hk]
        exact ih hother ht

/-- A call answers alike before and after a call on another key. -/
theorem exec_after (hmax : maxKeys < 2 ^ 32) (hcap : keys.dedup.length ≤ maxKeys) {a b : Call}
    (hcalls : contenders calls ⊆ keys) (ha : contenders [a] ⊆ keys) (hb : contenders [b] ⊆ keys)
    (hne : a.request.key ≠ b.request.key) :
    let s := run exec ⟨maxKeys, ∅⟩ calls
    (s.exec a).2 = ((s.exec b).1.exec a).2 ∧
      (s.exec a).1.lookup a.request.key = ((s.exec b).1.exec a).1.lookup a.request.key := by
  intro s
  have hnext : run exec ⟨maxKeys, ∅⟩ (calls ++ [b]) = (s.exec b).1 := by
    rw [run_append]
    rfl
  have hother : (s.exec b).1.lookup a.request.key = s.lookup a.request.key := exec_other hne.symm
  have hsub : contenders (calls ++ [b]) ⊆ keys := by
    rw [contenders_append]
    exact List.append_subset.mpr ⟨hcalls, hb⟩
  refine exec_agree hother.symm (fun hnew hmem => ⟨run_hasRoom hmax hcap hcalls (ha hmem) hnew, ?_⟩)
  rw [← hnext]
  apply run_hasRoom hmax hcap hsub (ha hmem)
  rw [hnext, hother, hnew]

/-- Two calls on different keys can change places. -/
theorem exec_commutes (hmax : maxKeys < 2 ^ 32) (hcap : keys.dedup.length ≤ maxKeys) {a b : Call}
    (hcalls : contenders calls ⊆ keys) (ha : contenders [a] ⊆ keys) (hb : contenders [b] ⊆ keys)
    (hne : a.request.key ≠ b.request.key) :
    let s := run exec ⟨maxKeys, ∅⟩ calls
    (s.exec a).2 = ((s.exec b).1.exec a).2 ∧ (s.exec b).2 = ((s.exec a).1.exec b).2 ∧
      ∀ key, ((s.exec a).1.exec b).1.lookup key = ((s.exec b).1.exec a).1.lookup key := by
  intro s
  obtain ⟨hra, hla⟩ := exec_after hmax hcap hcalls ha hb hne
  obtain ⟨hrb, hlb⟩ := exec_after hmax hcap hcalls hb ha hne.symm
  refine ⟨hra, hrb, fun key => ?_⟩
  by_cases hka : a.request.key = key
  · subst hka
    rw [exec_other hne.symm]
    exact hla
  by_cases hkb : b.request.key = key
  · subst hkb
    rw [exec_other (s := (s.exec b).1) hka]
    exact hlb.symm
  · rw [exec_other hkb, exec_other hka, exec_other hka, exec_other hkb]

/-- The keys of a store are isolated while those that calls contend for fit
its capacity, and a key with an entry is whatever happens; a call that fails
changes nothing, no entry goes away and the capacity is kept. -/
theorem key_isolation {maxKeys : UInt32} {store : Store} (hnew : Memory.new maxKeys.toNat = .ok store)
    (calls : List Call) :
    let s := run exec store calls
    ((contenders calls).dedup.length ≤ maxKeys.toNat → ∀ key,
      (trace exec store calls).filter (fun event => onKey key event.1) =
        trace exec store (calls.filter (onKey key))) ∧
    (∀ a b, a.request.key ≠ b.request.key →
      (contenders (calls ++ [a, b])).dedup.length ≤ maxKeys.toNat →
      (s.exec a).2 = ((s.exec b).1.exec a).2 ∧ (s.exec b).2 = ((s.exec a).1.exec b).2 ∧
        ∀ key, ((s.exec a).1.exec b).1.lookup key = ((s.exec b).1.exec a).1.lookup key) ∧
    (∀ key entry, s.lookup key = some entry → ∀ other : Store, other.lookup key = some entry →
      ∀ later, (trace exec s later).filter (fun event => onKey key event.1) =
        trace exec other (later.filter (onKey key))) ∧
    (∀ call, (s.exec call).2.err ≠ none → (s.exec call).1 = s) ∧
    (∀ key, (s.lookup key).isSome = true → ∀ later, ((run exec s later).lookup key).isSome = true) ∧
    s.entries.keys.length ≤ maxKeys.toNat := by
  obtain rfl := new_ok hnew
  have hmax : maxKeys.toNat < 2 ^ 32 := maxKeys.toNat_lt
  intro s
  refine ⟨?_, ?_, ?_, fun call h => step_failed (exec_step _ call) h, ?_, (run_bounded hmax calls).2.1⟩
  · exact fun hcap key => (projection hmax hcap key (List.Subset.refl _)).1
  · intro a b hne hcap
    rw [show calls ++ [a, b] = calls ++ [a] ++ [b] by simp, contenders_append, contenders_append] at hcap
    apply exec_commutes hmax hcap _ _ _ hne
    · exact List.Subset.trans (List.subset_append_left _ _) (List.subset_append_left _ _)
    · exact List.Subset.trans (List.subset_append_right _ _) (List.subset_append_left _ _)
    · exact List.subset_append_right _ _
  · exact fun key entry hs other ho later => projection_retained hs ho later
  · intro key hsome later
    exact run_rule (P := fun s : Store => (s.lookup key).isSome = true) (C := fun _ => True) hsome
      (fun s call h _ => step_retains (exec_step s call) h) (fun _ _ => trivial)

/-- Two owners on two keys; the second key is acquired while the first is held. -/
def twoKeys : List Call :=
  [⟨0, none, .tryAcquire ⟨[107]⟩ [97] 1000⟩, ⟨5, none, .tryAcquire ⟨[108]⟩ [98] 1000⟩,
    ⟨9, none, .tryAcquire ⟨[108]⟩ [97] 1000⟩, ⟨4, none, .renew ⟨⟨[107]⟩, [97], 1, 0, 1000⟩ 2000⟩]

theorem key_isolation_two :
    (contenders twoKeys).dedup.length ≤ 2 ∧
      (trace exec ⟨2, ∅⟩ twoKeys).filter (fun event => onKey ⟨[108]⟩ event.1) =
        trace exec ⟨2, ∅⟩ (twoKeys.filter (onKey ⟨[108]⟩)) := by
  have hnew : Memory.new (2 : UInt32).toNat = .ok ⟨2, ∅⟩ := rfl
  exact ⟨by decide, (key_isolation hnew twoKeys).1 (by decide) ⟨[108]⟩⟩

end Runs

end GoLease.Memory.Isolation
