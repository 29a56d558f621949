import GoLease.Handle
import GoLease.Valkey.Ownership

namespace GoLease.Valkey.Wire

open Decimal Script Traces Store

/-- The readings of the server clock, in microseconds, at which instants and
deadlines are printed in full. -/
def InRange (us : Nat) : Prop := us / 1000 < 9 * 10 ^ 13

theorem deadline_lt {us : Nat} (h : InRange us) {ttl : Int} (hmin : millisecond ≤ ttl)
    (hmax : ttl < 2 ^ 63) : us / 1000 + span ttl < 10 ^ 14 := by
  have hdiv : ttl.tdiv 1000000 = ttl / 1000000 := by
    apply Int.tdiv_eq_ediv_of_nonneg
    simp only [millisecond] at hmin
    omega
  unfold InRange at h
  unfold span
  simp only [millisecond] at hmin ⊢
  rw [hdiv]
  omega

section Rendering

/-- An executor that only notes the arguments it is sent. -/
def recorder : Executor (List (List Bytes)) := fun _ _ args sent => (sent ++ [args], .ok [])

variable (store : Store) (owned : Record) (ttl : Int)

/-- The token argument with which a request reaches the executor. -/
def sentToken (request : Request) : Option Bytes :=
  (store.exec recorder [] none request).1.head?.bind (·[1]?)

def guardToken : Option Bytes := (store.guard owned).toOption.map Guard.token

/-- The texts of the record's token that the four operations send or hand out. -/
def tokenTexts : List (Option Bytes) :=
  [sentToken store (.renew owned ttl), sentToken store (.validate owned), sentToken store (.release owned),
    guardToken store owned]

variable {store owned ttl}

theorem tokenTexts_eq (h : Valkey.validate none owned.key owned.owner owned.token ttl = none) :
    tokenTexts store owned ttl = List.replicate 4 (some (format owned.token)) := by
  obtain ⟨-, hkey, howner, hlen, htoken, -⟩ := validate_eq_none.mp h
  have hmin : Valkey.validate none owned.key owned.owner owned.token millisecond = none :=
    validate_eq_none.mpr ⟨rfl, hkey, howner, hlen, htoken, Int.le_refl _⟩
  have hrenew : sentToken store (.renew owned ttl) = some (format owned.token) := by
    simp only [sentToken, Store.exec, renew, h]
    rfl
  have hvalidate : sentToken store (.validate owned) = some (format owned.token) := by
    simp only [sentToken, Store.exec, Store.validate, hmin]
    rfl
  have hrelease : sentToken store (.release owned) = some (format owned.token) := by
    simp only [sentToken, Store.exec, release, hmin]
    rfl
  have hguard : guardToken store owned = some (format owned.token) := by
    rw [guardToken, Store.guard.eq_def, if_neg hkey, if_neg howner, if_neg (Nat.not_lt.mpr hlen),
      if_neg htoken]
    rfl
  rw [tokenTexts, hrenew, hvalidate, hrelease, hguard]
  rfl

end Rendering

/-- What the texts of a lease hash stand for, if the hash is of the acquisition
with this token: its instant, and the deadline of the key itself. -/
def Texts (token acquired : Nat) (item : Option Item) : Prop :=
  ∀ owner acquiredText expiresText deadline,
    item = some ⟨leaseHash owner (format token) acquiredText expiresText, deadline⟩ →
      acquiredText = tostring acquired ∧
        ∃ expires < 10 ^ 14, expiresText = tostring expires ∧ deadline = some expires

structure Carries (store : Store) (key : Key) (token acquired : Nat) (keys : Keyspace) : Prop where
  wellFormed : store.WellFormed keys
  reached : token ≤ store.fence keys key
  texts : Texts token acquired (keys (store.leaseKey key))

section Carrying

variable {store : Store} {key : Key} {token acquired us : Nat} {keys keys' : Keyspace} {request : Request}
  {reply : Reply}

theorem texts_update {lease name : Bytes} {item : Option Item} (h : Texts token acquired (keys name))
    (hitem : name = lease → Texts token acquired item) :
    Texts token acquired (Function.update keys lease item name) := by
  by_cases hn : name = lease
  · rw [hn, Function.update_self]
    exact hitem hn
  · rw [Function.update_of_ne hn]
    exact h

theorem texts_hash {owner : Bytes} {expires : Nat} (h : expires < 10 ^ 14) :
    Texts token acquired
      (some ⟨leaseHash owner (format token) (tostring acquired) (tostring expires), some expires⟩) := by
  intro owner' acquiredText expiresText deadline hi
  cases (Item.mk.inj (Option.some.inj hi)).2
  obtain ⟨-, -, rfl, rfl⟩ := leaseHash_inj (Item.mk.inj (Option.some.inj hi)).1
  exact ⟨rfl, expires, h, rfl, rfl⟩

/-- A hash of another acquisition says nothing about this one. -/
theorem texts_other {owner acquiredText expiresText : Bytes} {other : Nat} {deadline : Option Nat}
    (h : other ≠ token) :
    Texts token acquired (some ⟨leaseHash owner (format other) acquiredText expiresText, deadline⟩) := by
  intro owner' acquiredText' expiresText' deadline' hi
  exact absurd (format_injective (leaseHash_injective (Item.mk.inj (Option.some.inj hi)).1).2) h

theorem Carries.step (h : Carries store key token acquired keys) (hus : InRange us)
    (hr : request.Representable) (hs : store.Step us keys request (keys', reply)) :
    Carries store key token acquired keys' := by
  refine ⟨h.wellFormed.step hs, Nat.le_trans h.reached (hs.fence_le key), ?_⟩
  cases hs with
  | kept => exact h.texts
  | @acquired other owner ttl hvalid hl hn =>
      apply texts_update
      · exact texts_update h.texts (fun hk => absurd hk.symm counterKey_ne_leaseKey)
      · intro hk
        -- The counter is past the token, so that the new hash is of another acquisition.
        have hfence : store.fence keys key = store.fence keys other :=
          congrArg keys.count (counterKey_eq_of_leaseKey hk)
        have hreached := h.reached
        exact texts_other (by omega)
  | @renewed owned ttl acquiredText expiresText deadline _ hvalid hl =>
      refine texts_update h.texts fun hk => ?_
      by_cases ht : owned.token = token
      · rw [ht, ← hk] at hl
        obtain ⟨rfl, -⟩ := h.texts _ _ _ _ (Option.filter_eq_some_iff.mp hl).1
        rw [ht]
        exact texts_hash (deadline_lt hus (spec_of_validate hvalid).2.2 hr)
      · exact texts_other ht
  | @released owned => exact texts_update h.texts (fun _ _ _ _ _ => nofun)

/-- The calls of one store to a server whose clock stays in range. -/
def Timely (call : Call) : Prop := call.request.Representable ∧ InRange (call.now / 1000).toNat

theorem Carries.run (h : Carries store key token acquired keys) {calls : List Call}
    (hcalls : ∀ call ∈ calls, Timely call) :
    Carries store key token acquired (run store.serve keys calls) :=
  run_rule h (fun _ call hc ht => hc.step ht.2 ht.1 (serve_step hc.wellFormed call ht.1)) hcalls

/-- The hash of the acquisition, where it is still found: the key's own deadline
puts the expiry it shows after the reading. -/
theorem Carries.found (h : Carries store key token acquired keys) {owner acquiredText expiresText : Bytes}
    {deadline : Option Nat} (hf : keys.find (us / 1000) (store.leaseKey key) =
      some ⟨leaseHash owner (format token) acquiredText expiresText, deadline⟩) :
    acquiredText = tostring acquired ∧
      ∃ expires, us / 1000 < expires ∧ expires < 10 ^ 14 ∧ expiresText = tostring expires := by
  obtain ⟨hk, hlive⟩ := Option.filter_eq_some_iff.mp hf
  obtain ⟨ha, expires, hlt, he, rfl⟩ := h.texts _ _ _ _ hk
  exact ⟨ha, expires, of_decide_eq_true hlive, hlt, he⟩

/-- An answer of the server that names the record's acquisition in full. -/
def Confirms (record : Record) (reply : List Bytes) : Prop :=
  ∃ next, parseRecord record.key record.owner reply .errStaleOwner = .ok next ∧
    sameAcquisition record next = true

theorem confirms {record : Record} {expires : Nat} (hacquired : record.acquiredAt = unixMilli acquired)
    (hpos : 0 < record.token) (hmax : record.token < 2 ^ 64) (hlt : acquired < expires)
    (hexpires : expires < 10 ^ 14) :
    Confirms record [ok, format record.token, tostring acquired, tostring expires] := by
  refine ⟨_, parseRecord_ok record.key record.owner .errStaleOwner hpos hmax hlt hexpires, ?_⟩
  have horder : unixMilli acquired < unixMilli expires := by
    simp only [unixMilli, millisecond]
    omega
  simp [sameAcquisition, hacquired, horder]

variable {ttl : Int} {keys' : Keyspace} {texts : List Bytes}

theorem nativeExecutor_reply {operation : Operation} {names args : List Bytes} {keys'' : Keyspace}
    (hexec : nativeExecutor us operation names args keys = (keys', .ok texts)) (reply : List Bytes)
    (hs : (script operation names args).exec us keys = (.ok (reply.map some), keys'')) : texts = reply :=
  Except.ok.inj (Prod.mk.inj (hexec.symm.trans (nativeExecutor_ok operation names args reply hs))).2

theorem Carries.renews (record : Record) (h : Carries store record.key record.token acquired keys)
    (hacquired : record.acquiredAt = unixMilli acquired) (hpos : 0 < record.token)
    (hmax : record.token < 2 ^ 64) (hus : InRange us) (hle : acquired ≤ us / 1000)
    (hmin : millisecond ≤ ttl) (httl : ttl < 2 ^ 63)
    (hexec : nativeExecutor us .opRenew (store.keys record.key)
      [record.owner, format record.token, formatMilliseconds ttl] keys = (keys', .ok texts))
    (hok : texts.head? = some ok) : Confirms record texts := by
  obtain ⟨hspan, hlt⟩ := span_range hmin httl
  rcases h.wellFormed.guard_cases (us / 1000) record with
    hl | ⟨_, _, _, _, _, hl, hne⟩ | ⟨acquiredText, _, _, hl⟩
  · rw [nativeExecutor_reply hexec [stale] (renewScript_absent hl _ _ _)] at hok
    exact absurd hok (by decide)
  · rw [nativeExecutor_reply hexec [stale] (renewScript_stale hl hne _)] at hok
    exact absurd hok (by decide)
  · rw [nativeExecutor_reply hexec [ok, format record.token, acquiredText, tostring (us / 1000 + span ttl)]
      (renewScript_renewed hl hspan hlt), (h.found hl).1]
    exact confirms hacquired hpos hmax (by omega) (deadline_lt hus hmin httl)

theorem Carries.validates (record : Record) (h : Carries store record.key record.token acquired keys)
    (hacquired : record.acquiredAt = unixMilli acquired) (hpos : 0 < record.token)
    (hmax : record.token < 2 ^ 64) (hle : acquired ≤ us / 1000)
    (hexec : nativeExecutor us .opValidate (store.keys record.key) [record.owner, format record.token] keys =
      (keys', .ok texts))
    (hok : texts.head? = some ok) : Confirms record texts := by
  rcases h.wellFormed.guard_cases (us / 1000) record with
    hl | ⟨_, _, _, _, _, hl, hne⟩ | ⟨acquiredText, expiresText, _, hl⟩
  · rw [nativeExecutor_reply hexec [stale] (validateScript_absent hl _ _)] at hok
    exact absurd hok (by decide)
  · rw [nativeExecutor_reply hexec [stale] (validateScript_stale hl hne)] at hok
    exact absurd hok (by decide)
  · obtain ⟨rfl, expires, hlive, hlt, rfl⟩ := h.found hl
    rw [nativeExecutor_reply hexec [ok, format record.token, tostring acquired, tostring expires]
      (validateScript_ok hl)]
    exact confirms hacquired hpos hmax (by omega) hlt

/-- The record of an acquisition, at a reading of the server clock. -/
def issued (store : Store) (keys : Keyspace) (us : Nat) (key : Key) (owner : Bytes) (ttl : Int) :
    Record where
  key := key
  owner := owner
  token := store.fence keys key + 1
  acquiredAt := unixMilli (us / 1000 : Nat)
  expiresAt := unixMilli (us / 1000 + span ttl : Nat)

/-- The state an acquisition leaves behind carries its own texts. -/
theorem carries_acquired (hw : store.WellFormed keys) {owner : Bytes}
    (hvalid : Valkey.validate none key owner 1 ttl = none) (httl : ttl < 2 ^ 63) (hus : InRange us)
    (hfree : keys.find (us / 1000) (store.leaseKey key) = none) (hc : store.fence keys key < 2 ^ 63 - 1) :
    Carries store key (store.fence keys key + 1) (us / 1000)
      (Function.update
        (Function.update keys (store.counterKey key) (counterItem (store.fence keys key + 1)))
        (store.leaseKey key) (some ⟨leaseHash owner (format (store.fence keys key + 1))
          (tostring (us / 1000)) (tostring (us / 1000 + span ttl)), some (us / 1000 + span ttl)⟩)) where
  wellFormed := hw.step (.acquired hvalid hfree hc)
  reached := by
    rw [fence_update_leaseKey, fence_update_counterKey, if_pos rfl]
  texts := by
    rw [Function.update_self]
    exact texts_hash (deadline_lt hus (spec_of_validate hvalid).2.2 httl)

/-- The texts that cross the wire keep every value: the record is decoded as the
script computed it, each operation renders the token as the hash keeps it, and
what the server confirms later is the same acquisition. -/
theorem wire_round_trip {keys : Keyspace} (hw : store.WellFormed keys) {owner : Bytes}
    (hvalid : Valkey.validate none key owner 1 ttl = none) (httl : ttl < 2 ^ 63) (hus : InRange us)
    (hfree : keys.find (us / 1000) (store.leaseKey key) = none) (hc : store.fence keys key + 1 < 2 ^ 63) :
    let record := issued store keys us key owner ttl
    ∃ keys' texts fields deadline text,
      nativeExecutor us .opAcquire (store.keys key) [owner, formatMilliseconds ttl] keys =
          (keys', .ok texts) ∧
        parseRecord key owner texts .errContended = .ok record ∧
        keys' (store.leaseKey key) = some ⟨.hash fields, deadline⟩ ∧ fields tokenField = some text ∧
        (∀ token ttl, token ≠ 0 → millisecond ≤ ttl → ∃ rendered,
          tokenTexts store { record with token } ttl = List.replicate 4 (some rendered) ∧
            (rendered = text ↔ token = record.token)) ∧
        ∀ calls, (∀ call ∈ calls, Timely call) → ∀ us', us / 1000 ≤ us' / 1000 → InRange us' →
          (∀ ttl keys'' texts, millisecond ≤ ttl → ttl < 2 ^ 63 →
            nativeExecutor us' .opRenew (store.keys key) [owner, text, formatMilliseconds ttl]
              (run store.serve keys' calls) = (keys'', .ok texts) →
            texts.head? = some ok → Confirms record texts) ∧
          ∀ keys'' texts,
            nativeExecutor us' .opValidate (store.keys key) [owner, text]
              (run store.serve keys' calls) = (keys'', .ok texts) →
            texts.head? = some ok → Confirms record texts := by
  intro record
  obtain ⟨-, hkey, howner, hlen, -, hmin⟩ := validate_eq_none.mp hvalid
  obtain ⟨hpos, hspan⟩ := span_range hmin httl
  have hdeadline := deadline_lt hus hmin httl
  have hscript := nativeExecutor_ok .opAcquire (store.keys key) [owner, format (span ttl)]
    [ok, format (store.fence keys key + 1), tostring (us / 1000), tostring (us / 1000 + span ttl)]
    (acquireScript_granted owner counterKey_ne_leaseKey hfree (hw.counter key) (by omega) hpos hspan)
  have hcarries := carries_acquired hw hvalid httl hus hfree (by omega)
  obtain ⟨fields, hfields, -, htoken, -⟩ := leaseHash_fields owner (format (store.fence keys key + 1))
    (tostring (us / 1000)) (tostring (us / 1000 + span ttl))
  have hmax : store.fence keys key + 1 < 2 ^ 64 := by omega
  refine ⟨_, _, fields, some (us / 1000 + span ttl), _, hscript, ?_, ?_, htoken, ?_, ?_⟩
  · exact parseRecord_ok key owner .errContended (Nat.succ_pos _) hmax (by omega) hdeadline
  · rw [Function.update_self, hfields]
  · intro token ttl' htoken httl'
    refine ⟨format token, ?_, format_eq_iff⟩
    exact tokenTexts_eq (validate_eq_none.mpr ⟨rfl, hkey, howner, hlen, htoken, httl'⟩)
  · intro calls hcalls us' hle hus'
    have hlater := hcarries.run hcalls
    constructor
    · intro ttl' keys'' texts hmin' httl' hexec hok
      exact Carries.renews record hlater rfl (Nat.succ_pos _) hmax hus' hle hmin' httl' hexec hok
    · intro keys'' texts hexec hok
      exact Carries.validates record hlater rfl (Nat.succ_pos _) hmax hle hexec hok

/-- The last token, the longest duration and a reading at the end of the range. -/
theorem wire_round_trip_last :
    let store : Store := ⟨id, [112]⟩
    let keys : Keyspace :=
      Function.update (fun _ => none) (store.counterKey ⟨[107]⟩) (counterItem (2 ^ 63 - 2))
    ∃ keys' texts,
      nativeExecutor 89999999999999999 .opAcquire (store.keys ⟨[107]⟩)
          [[97], formatMilliseconds (2 ^ 63 - 1)] keys = (keys', .ok texts) ∧
        parseRecord ⟨[107]⟩ [97] texts .errContended =
          .ok ⟨⟨[107]⟩, [97], 2 ^ 63 - 1, 89999999999999000000, 99223372036853000000⟩ := by
  intro store keys
  have hfence : store.fence keys ⟨[107]⟩ = 2 ^ 63 - 2 := fence_eq (Function.update_self ..)
  have hfree : keys.find (89999999999999999 / 1000) (store.leaseKey ⟨[107]⟩) = none :=
    find_update_of_ne _ counterKey_ne_leaseKey.symm _
  have hvalid : Valkey.validate none ⟨[107]⟩ [97] 1 (2 ^ 63 - 1) = none := rfl
  have hc : store.fence keys ⟨[107]⟩ + 1 < 2 ^ 63 := by
    rw [hfence]
    decide
  have hrange : InRange 89999999999999999 := by
    unfold InRange
    decide
  obtain ⟨keys', texts, _, _, _, hexec, hparse, _⟩ :=
    wire_round_trip (wellFormed_counter (by decide) _) hvalid (by decide) hrange hfree hc
  refine ⟨keys', texts, hexec, ?_⟩
  rw [hparse, issued, hfence]
  rfl

end Carrying

end GoLease.Valkey.Wire
