import GoLease.Memory.Reference
import GoLease.Valkey.Store

namespace GoLease.Valkey

open Decimal

theorem hexDigit_injective {m n : Nat} (hm : m < 16) (hn : n < 16) (h : hexDigit m = hexDigit n) :
    m = n := by
  have hall : ∀ m : Fin 16, ∀ n : Fin 16, hexDigit m = hexDigit n → m = n := by decide
  exact Fin.mk.inj_iff.mp (hall ⟨m, hm⟩ ⟨n, hn⟩ h)

theorem encodeToString_injective : Function.Injective encodeToString := by
  intro sum
  induction sum with
  | nil =>
      intro other h
      cases other with
      | nil => rfl
      | cons b rest => cases h
  | cons a sum ih =>
      intro other h
      cases other with
      | nil => cases h
      | cons b rest =>
          simp only [encodeToString, List.flatMap_cons, List.cons_append, List.nil_append,
            List.cons.injEq] at h
          obtain ⟨hhigh, hlow, hrest⟩ := h
          have ha := a.toNat_lt
          have hb := b.toNat_lt
          have hdiv := hexDigit_injective (by omega) (by omega) hhigh
          have hmod := hexDigit_injective (by omega) (by omega) hlow
          have hab : a = b := UInt8.toNat_inj.mp (by omega)
          rw [hab, ih hrest]

namespace Store

variable {store : Store} {key other : Key}

/-- The part of the digest of a key that the storage keys carry. -/
def digest (store : Store) (key : Key) : Bytes := (store.sha256 key.value).take 16

theorem tag_injective (h : store.tag key = store.tag other) : store.digest key = store.digest other := by
  apply encodeToString_injective
  exact List.append_cancel_left (List.append_cancel_right h)

theorem leaseKey_injective (h : store.leaseKey key = store.leaseKey other) :
    store.digest key = store.digest other :=
  tag_injective (List.append_cancel_left (List.append_cancel_right h))

theorem counterKey_injective (h : store.counterKey key = store.counterKey other) :
    store.digest key = store.digest other :=
  tag_injective (List.append_cancel_left (List.append_cancel_right h))

theorem counterKey_ne_leaseKey : store.counterKey key ≠ store.leaseKey other := by
  intro h
  have hc : (store.counterKey key).getLast? = some 114 := by
    rw [counterKey, List.getLast?_append]
    rfl
  have hl : (store.leaseKey other).getLast? = some 101 := by
    rw [leaseKey, List.getLast?_append]
    rfl
  rw [h, hl] at hc
  exact absurd hc (by decide)

end Store

theorem tostring_eq {n : Nat} (h : n < 10 ^ 14) : tostring n = format n := if_pos h

theorem parseRecord_ok (key : Key) (owner : Bytes) (expected : Sentinel) {token acquired expires : Nat}
    (hpos : 0 < token) (hlt : token < 2 ^ 64) (hae : acquired < expires) (hexp : expires < 10 ^ 14) :
    parseRecord key owner [ok, format token, tostring acquired, tostring expires] expected =
      .ok ⟨key, owner, token, unixMilli acquired, unixMilli expires⟩ := by
  have hacq : acquired < 10 ^ 14 := Nat.lt_trans hae hexp
  rw [tostring_eq hacq, tostring_eq hexp, parseRecord, parseUint_format hlt,
    parseInt_format (Nat.lt_trans hacq (by decide)), parseInt_format (Nat.lt_trans hexp (by decide))]
  rw [if_neg (by simp)]
  dsimp only
  rw [if_neg (by simp), if_neg (Nat.pos_iff_ne_zero.mp hpos), if_neg (by omega)]

theorem validate_eq_none {ctx : Ctx} {key : Key} {owner : Bytes} {token : Nat} {ttl : Int} :
    validate ctx key owner token ttl = none ↔
      ctx = none ∧ key.value ≠ [] ∧ owner ≠ [] ∧ owner.length ≤ 128 ∧ token ≠ 0 ∧ millisecond ≤ ttl := by
  unfold validate
  constructor
  · intro h
    repeat' split at h
    all_goals try cases h
    rename_i hctx hkey howner hlen htoken httl
    exact ⟨by simpa using hctx, hkey, howner, Nat.not_lt.mp hlen, htoken, Int.not_lt.mp httl⟩
  · rintro ⟨rfl, hkey, howner, hlen, htoken, httl⟩
    simp [hkey, howner, Nat.not_lt.mpr hlen, htoken, Int.not_lt.mpr httl]

theorem validate_valid {key : Key} {owner : Bytes} {token : Nat} {ttl : Int}
    (h : ValidIdentity key owner token) (ht : millisecond ≤ ttl) :
    validate none key owner token ttl = none := by
  obtain ⟨hk, ho, hlen, htoken, _⟩ := h
  exact validate_eq_none.mpr ⟨rfl, hk, ho, hlen, Nat.pos_iff_ne_zero.mp htoken, ht⟩

theorem wholeMilliseconds_spec {ttl : Int} {d : Nat} (h : WholeMilliseconds ttl d) :
    millisecond ≤ ttl ∧ formatMilliseconds ttl = format d ∧ d < 2 ^ 63 ∧ d < 10 ^ 13 := by
  obtain ⟨hpos, rfl, hlt⟩ := h
  simp only [unixMilli, millisecond] at hlt ⊢
  refine ⟨by omega, ?_, by omega, by omega⟩
  rw [formatMilliseconds, millisecond, Int.mul_tdiv_cancel _ (by decide), Int.toNat_natCast]

theorem mapM_map_some (reply : List Bytes) : (reply.map some).mapM id = some reply := by
  induction reply with
  | nil => rfl
  | cons text reply ih =>
      rw [List.map_cons, List.mapM_cons, ih]
      rfl

namespace Store

variable {store : Store} {us : Nat} {keys keys' : Keyspace} {key : Key} {owner : Bytes} {ttl : Int} {d : Nat}

theorem nativeExecutor_ok (operation : Operation) (names args reply : List Bytes)
    (h : (script operation names args).exec us keys = (.ok (reply.map some), keys')) :
    nativeExecutor us operation names args keys = (keys', .ok reply) := by
  simp only [nativeExecutor, h, mapM_map_some]

theorem exec_tryAcquire_contended (hid : ValidIdentity key owner 1) (ht : WholeMilliseconds ttl d)
    {item : Item} (h : keys.find (us / 1000) (store.leaseKey key) = some item) :
    store.exec (nativeExecutor us) keys none (.tryAcquire key owner ttl) =
      (keys, ⟨zeroRecord, some (wrap .errContended "valkey operation")⟩) := by
  obtain ⟨hmin, hformat, _, _⟩ := wholeMilliseconds_spec ht
  have hscript : nativeExecutor us .opAcquire (store.keys key) [owner, formatMilliseconds ttl] keys =
      (keys, .ok [contended]) :=
    nativeExecutor_ok .opAcquire _ _ [contended] (acquireScript_contended _ owner _ h)
  simp only [exec, tryAcquire, validate_valid hid hmin, hscript]
  rfl

theorem exec_tryAcquire_granted (hid : ValidIdentity key owner 1) (ht : WholeMilliseconds ttl d) {n : Nat}
    (hl : keys.find (us / 1000) (store.leaseKey key) = none)
    (hc : keys (store.counterKey key) = counterItem n) (hn : n < 2 ^ 63 - 1)
    (hms : us / 1000 < 9 * 10 ^ 13) :
    store.exec (nativeExecutor us) keys none (.tryAcquire key owner ttl) =
      (Function.update (Function.update keys (store.counterKey key) (counterItem (n + 1)))
          (store.leaseKey key) (some ⟨leaseHash owner (format (n + 1)) (tostring (us / 1000))
            (tostring (us / 1000 + d)), some (us / 1000 + d)⟩),
        ⟨⟨key, owner, n + 1, unixMilli (us / 1000 : Nat), unixMilli (us / 1000 + d : Nat)⟩, none⟩) := by
  obtain ⟨hmin, hformat, hd, hd'⟩ := wholeMilliseconds_spec ht
  have hscript := nativeExecutor_ok .opAcquire (store.keys key) [owner, format d]
    [ok, format (n + 1), tostring (us / 1000), tostring (us / 1000 + d)]
    (acquireScript_granted owner counterKey_ne_leaseKey hl hc hn ht.1 hd)
  have hpos := ht.1
  simp only [exec, tryAcquire, validate_valid hid hmin, hformat, hscript]
  rw [parseRecord_ok key owner _ (Nat.succ_pos n) (by omega) (by omega) (by omega)]
  rfl

variable {owned : Record}

theorem exec_renew_stale (hid : ValidIdentity owned.key owned.owner owned.token)
    (ht : WholeMilliseconds ttl d)
    (h : (renewScript (store.leaseKey owned.key) owned.owner (format owned.token) (format d)).exec us keys =
      (.ok [some stale], keys)) :
    store.exec (nativeExecutor us) keys none (.renew owned ttl) =
      (keys, ⟨zeroRecord, some (wrap .errStaleOwner "valkey operation")⟩) := by
  obtain ⟨hmin, hformat, _, _⟩ := wholeMilliseconds_spec ht
  have hscript := nativeExecutor_ok .opRenew (store.keys owned.key)
    [owned.owner, format owned.token, format d] [stale] h
  simp only [exec, renew, validate_valid hid hmin, hformat, hscript]
  rfl

theorem exec_renew_renewed (hid : ValidIdentity owned.key owned.owner owned.token)
    (ht : WholeMilliseconds ttl d) {acquired : Nat} {expires : Bytes} {deadline : Option Nat}
    (h : keys.find (us / 1000) (store.leaseKey owned.key) =
      some ⟨leaseHash owned.owner (format owned.token) (tostring acquired) expires, deadline⟩)
    (ha : acquired ≤ us / 1000) (hms : us / 1000 < 9 * 10 ^ 13) :
    store.exec (nativeExecutor us) keys none (.renew owned ttl) =
      (Function.update keys (store.leaseKey owned.key) (some ⟨leaseHash owned.owner (format owned.token)
          (tostring acquired) (tostring (us / 1000 + d)), some (us / 1000 + d)⟩),
        ⟨⟨owned.key, owned.owner, owned.token, unixMilli acquired, unixMilli (us / 1000 + d : Nat)⟩,
          none⟩) := by
  obtain ⟨hmin, hformat, hd, hd'⟩ := wholeMilliseconds_spec ht
  have hscript := nativeExecutor_ok .opRenew (store.keys owned.key)
    [owned.owner, format owned.token, format d]
    [ok, format owned.token, tostring acquired, tostring (us / 1000 + d)]
    (renewScript_renewed h ht.1 hd)
  have hpos := ht.1
  obtain ⟨_, _, _, htoken, hmax⟩ := id hid
  simp only [exec, renew, validate_valid hid hmin, hformat, hscript]
  rw [parseRecord_ok _ _ _ htoken hmax (by omega) (by omega)]
  simp only [ne_eq, not_true_eq_false, if_false]
  rfl

theorem exec_validate_stale (hid : ValidIdentity owned.key owned.owner owned.token)
    (h : (validateScript (store.leaseKey owned.key) owned.owner (format owned.token)).exec us keys =
      (.ok [some stale], keys)) :
    store.exec (nativeExecutor us) keys none (.validate owned) =
      (keys, ⟨zeroRecord, some (wrap .errStaleOwner "valkey operation")⟩) := by
  have hscript := nativeExecutor_ok .opValidate (store.keys owned.key) [owned.owner, format owned.token]
    [stale] h
  simp only [exec, validate, validate_valid hid (Int.le_refl _), hscript]
  rfl

theorem exec_validate_ok (hid : ValidIdentity owned.key owned.owner owned.token) {acquired expires : Nat}
    {deadline : Option Nat} (h : keys.find (us / 1000) (store.leaseKey owned.key) =
      some ⟨leaseHash owned.owner (format owned.token) (tostring acquired) (tostring expires), deadline⟩)
    (hae : acquired < expires) (hexp : expires < 10 ^ 14) :
    store.exec (nativeExecutor us) keys none (.validate owned) =
      (keys, ⟨⟨owned.key, owned.owner, owned.token, unixMilli acquired, unixMilli expires⟩, none⟩) := by
  have hscript := nativeExecutor_ok .opValidate (store.keys owned.key) [owned.owner, format owned.token]
    [ok, format owned.token, tostring acquired, tostring expires] (validateScript_ok h)
  obtain ⟨_, _, _, htoken, hmax⟩ := id hid
  simp only [exec, validate, validate_valid hid (Int.le_refl _), hscript]
  rw [parseRecord_ok _ _ _ htoken hmax hae hexp]
  simp only [ne_eq, not_true_eq_false, if_false]
  rfl

theorem exec_release {status : Bytes} (hid : ValidIdentity owned.key owned.owner owned.token)
    (h : (releaseScript (store.leaseKey owned.key) owned.owner (format owned.token)).exec us keys =
      (.ok [some status], keys')) :
    store.exec (nativeExecutor us) keys none (.release owned) =
      (keys', .ofErr (if status = ok ∨ status = missing then none
        else if status = stale then some (wrap .errStaleOwner "valkey release")
        else some (wrap .errBackendUnavailable "valkey response"))) := by
  have hscript := nativeExecutor_ok .opRelease (store.keys owned.key) [owned.owner, format owned.token]
    [status] h
  simp only [exec, release, validate_valid hid (Int.le_refl _), hscript]
  split
  next => rfl
  next => split <;> rfl

end Store

end GoLease.Valkey
