import GoLease.Backend
import GoLease.Decimal
import Mathlib.Data.Nat.Log
import Mathlib.Logic.Function.Basic

namespace GoLease.Valkey

open Decimal

inductive Value
  | text (value : Bytes)
  | hash (fields : Bytes → Option Bytes)

/-- What the server keeps under a key, and the millisecond from which the key
is absent. -/
structure Item where
  value : Value
  expires : Option Nat

abbrev Keyspace := Bytes → Option Item

def Item.live (ms : Nat) (item : Item) : Bool := item.expires.all (fun deadline => ms < deadline)

def Keyspace.find (keys : Keyspace) (ms : Nat) (key : Bytes) : Option Item :=
  (keys key).filter (Item.live ms)

/-- A script runs at one reading of the server clock, in microseconds. A
command that fails aborts it; what it has written before stays. -/
abbrev Script := ReaderT Nat (ExceptT String (StateM Keyspace))

def Script.exec {α : Type} (script : Script α) (us : Nat) (keys : Keyspace) :
    Except String α × Keyspace := (script us).run.run keys

def wrongType : String := "WRONGTYPE Operation against a key holding the wrong kind of value"

def notInteger : String := "ERR value is not an integer or out of range"

def find (key : Bytes) : Script (Option Item) := do
  return (← get).find ((← read) / 1000) key

def put (key : Bytes) (item : Option Item) : Script Unit :=
  modify (fun keys => Function.update keys key item)

/-- The command EXISTS. -/
def isPresent (key : Bytes) : Script Bool := do
  return (← find key).isSome

/-- The command GET; a missing key is Lua's false. -/
def getText (key : Bytes) : Script (Option Bytes) := do
  match ← find key with
  | none => return none
  | some ⟨.text value, _⟩ => return some value
  | some ⟨.hash _, _⟩ => throw wrongType

/-- The command HGET; a missing key or field is Lua's false. -/
def hget (key field : Bytes) : Script (Option Bytes) := do
  match ← find key with
  | none => return none
  | some ⟨.hash fields, _⟩ => return fields field
  | some ⟨.text _, _⟩ => throw wrongType

def assign (fields : Bytes → Option Bytes) (pairs : List (Bytes × Bytes)) : Bytes → Option Bytes :=
  pairs.foldl (fun fields pair => Function.update fields pair.1 (some pair.2)) fields

/-- The command HSET, which keeps the deadline of the key. -/
def hset (key : Bytes) (pairs : List (Bytes × Bytes)) : Script Unit := do
  match ← find key with
  | none => put key (some ⟨.hash (assign (fun _ => none) pairs), none⟩)
  | some ⟨.hash fields, expires⟩ => put key (some ⟨.hash (assign fields pairs), expires⟩)
  | some ⟨.text _, _⟩ => throw wrongType

/-- The command INCR on a key that holds a canonical numeral or nothing. -/
def incr (key : Bytes) : Script Nat := do
  match ← find key with
  | none =>
    put key (some ⟨.text (format 1), none⟩)
    return 1
  | some ⟨.text value, expires⟩ =>
    match Decimal.value value with
    | none => throw notInteger
    | some n =>
      if n ≥ 2 ^ 63 - 1 then throw "ERR increment or decrement would overflow"
      put key (some ⟨.text (format (n + 1)), expires⟩)
      return n + 1
  | some ⟨.hash _, _⟩ => throw wrongType

/-- The command TIME: seconds and microseconds, as strings. -/
def time : Script (Bytes × Bytes) := do
  let us ← read
  return (format (us / 1000000), format (us % 1000000))

/-- The command PEXPIRE; a duration that is not positive deletes the key. -/
def pexpire (key duration : Bytes) : Script Unit := do
  match parseInt duration with
  | none => throw notInteger
  | some ms =>
    let us ← read
    match ← find key with
    | none => return
    | some item =>
      put key (if ms ≤ 0 then none else some { item with expires := some (us / 1000 + ms.toNat) })

/-- The command DEL. -/
def del (key : Bytes) : Script Unit := put key none

/-- The numbers of the scripts are integers, which Lua's doubles hold exactly
below 2^53; the store sends plain numerals only. -/
def tonumber (text : Bytes) : Script Nat :=
  match Decimal.value text with
  | none => throw "attempt to perform arithmetic on a nil value"
  | some n => return n

def stripZeros (digits : Bytes) : Bytes := (digits.reverse.dropWhile (· == digit 0)).reverse

/-- The conversion %.14g of a number of more than 14 digits, rounded half to
even. -/
def scientific (n : Nat) : Bytes :=
  let exponent := Nat.log 10 n
  let unit := 10 ^ (exponent - 13)
  let up := unit < 2 * (n % unit) ∨ unit = 2 * (n % unit) ∧ (n / unit) % 2 = 1
  let rounded := if up then n / unit + 1 else n / unit
  let carried := if rounded = 10 ^ 14 then exponent + 1 else exponent
  match stripZeros (format rounded) with
  | [] => []
  | [lead] => lead :: ascii ['e', '+'] ++ format carried
  | lead :: rest => lead :: ascii ['.'] ++ rest ++ ascii ['e', '+'] ++ format carried

def tostring (n : Nat) : Bytes := if n < 10 ^ 14 then format n else scientific n

def contended : Bytes := ascii ['c', 'o', 'n', 't', 'e', 'n', 'd', 'e', 'd']

def stale : Bytes := ascii ['s', 't', 'a', 'l', 'e']

def missing : Bytes := ascii ['m', 'i', 's', 's', 'i', 'n', 'g']

def ok : Bytes := ascii ['o', 'k']

def ownerField : Bytes := ascii ['o', 'w', 'n', 'e', 'r']

def tokenField : Bytes := ascii ['t', 'o', 'k', 'e', 'n']

def acquiredField : Bytes := ascii ['a', 'c', 'q', 'u', 'i', 'r', 'e', 'd']

def expiresField : Bytes := ascii ['e', 'x', 'p', 'i', 'r', 'e', 's']

/-- The two lines that every script with a clock starts its arithmetic with. -/
def nowms : Script Nat := do
  let now ← time
  return (← tonumber now.1) * 1000 + (← tonumber now.2) / 1000

/-- The condition under which renew and validate answer stale, and release
once the key exists. -/
def mismatch (lease owner token : Bytes) : Script Bool := do
  if (← hget lease ownerField) ≠ some owner then return true
  return (← hget lease tokenField) ≠ some token

def acquireScript (lease counter owner ttl : Bytes) : Script (List (Option Bytes)) := do
  if ← isPresent lease then return [some contended]
  let _ ← incr counter
  match ← getText counter with
  | none => throw "Lua redis lib command arguments must be strings or integers"
  | some token =>
    let now ← nowms
    let expires := now + (← tonumber ttl)
    hset lease [(ownerField, owner), (tokenField, token), (acquiredField, tostring now),
      (expiresField, tostring expires)]
    pexpire lease ttl
    return [some ok, some token, some (tostring now), some (tostring expires)]

def renewScript (lease owner token ttl : Bytes) : Script (List (Option Bytes)) := do
  if !(← isPresent lease) then return [some stale]
  if ← mismatch lease owner token then return [some stale]
  let now ← nowms
  let expires := now + (← tonumber ttl)
  let acquired ← hget lease acquiredField
  hset lease [(expiresField, tostring expires)]
  pexpire lease ttl
  return [some ok, some token, acquired, some (tostring expires)]

def validateScript (lease owner token : Bytes) : Script (List (Option Bytes)) := do
  if !(← isPresent lease) then return [some stale]
  if ← mismatch lease owner token then return [some stale]
  return [some ok, some token, ← hget lease acquiredField, ← hget lease expiresField]

def releaseScript (lease owner token : Bytes) : Script (List (Option Bytes)) := do
  if !(← isPresent lease) then return [some missing]
  if ← mismatch lease owner token then return [some stale]
  del lease
  return [some ok]

inductive Operation
  | opAcquire
  | opRenew
  | opValidate
  | opRelease
  deriving DecidableEq, Repr

/-- The script of an operation with its keys and arguments in place; in any
other number they would reach Lua as nil. -/
def script : Operation → List Bytes → List Bytes → Script (List (Option Bytes))
  | .opAcquire, [lease, counter], [owner, ttl] => acquireScript lease counter owner ttl
  | .opRenew, [lease, _], [owner, token, ttl] => renewScript lease owner token ttl
  | .opValidate, [lease, _], [owner, token] => validateScript lease owner token
  | .opRelease, [lease, _], [owner, token] => releaseScript lease owner token
  | _, _, _ => throw "Lua redis lib command arguments must be strings or integers"

namespace Script

variable {α β : Type} {us : Nat} {keys keys' : Keyspace}

theorem exec_bind_ok {x : Script α} {a : α} (h : x.exec us keys = (.ok a, keys')) (f : α → Script β) :
    (x >>= f).exec us keys = (f a).exec us keys' := by
  simp only [exec, bind, ReaderT.bind, ExceptT.bind, ExceptT.mk, ExceptT.run, StateT.run,
    StateT.bind] at h ⊢
  rw [h]
  rfl

theorem exec_bind_error {x : Script α} {text : String} (h : x.exec us keys = (.error text, keys'))
    (f : α → Script β) : (x >>= f).exec us keys = (.error text, keys') := by
  simp only [exec, bind, ReaderT.bind, ExceptT.bind, ExceptT.mk, ExceptT.run, StateT.run,
    StateT.bind] at h ⊢
  rw [h]
  rfl

theorem exec_pure (a : α) : (pure a : Script α).exec us keys = (.ok a, keys) := rfl

theorem exec_find (key : Bytes) :
    (Valkey.find key).exec us keys = (.ok (keys.find (us / 1000) key), keys) := rfl

theorem exec_isPresent (key : Bytes) :
    (isPresent key).exec us keys = (.ok (keys.find (us / 1000) key).isSome, keys) := rfl

theorem exec_tonumber (n : Nat) : (tonumber (format n)).exec us keys = (.ok n, keys) := by
  rw [tonumber, value_format]
  rfl

/-- The arithmetic of the scripts is the millisecond of the reading. -/
theorem exec_nowms : nowms.exec us keys = (.ok (us / 1000), keys) := by
  have htime : time.exec us keys = (.ok (format (us / 1000000), format (us % 1000000)), keys) := rfl
  have hms : us / 1000000 * 1000 + us % 1000000 / 1000 = us / 1000 := by omega
  unfold nowms
  rw [exec_bind_ok htime, exec_bind_ok (exec_tonumber _), exec_bind_ok (exec_tonumber _), hms]
  rfl

theorem exec_hget {key field : Bytes} {fields : Bytes → Option Bytes} {expires : Option Nat}
    (h : keys.find (us / 1000) key = some ⟨.hash fields, expires⟩) :
    (hget key field).exec us keys = (.ok (fields field), keys) := by
  unfold hget
  rw [exec_bind_ok (exec_find key), h]
  rfl

theorem exec_getText {key value : Bytes} {expires : Option Nat}
    (h : keys.find (us / 1000) key = some ⟨.text value, expires⟩) :
    (getText key).exec us keys = (.ok (some value), keys) := by
  unfold getText
  rw [exec_bind_ok (exec_find key), h]
  rfl

theorem exec_hset_absent {key : Bytes} (h : keys.find (us / 1000) key = none)
    (pairs : List (Bytes × Bytes)) :
    (hset key pairs).exec us keys =
      (.ok (), Function.update keys key (some ⟨.hash (assign (fun _ => none) pairs), none⟩)) := by
  unfold hset
  rw [exec_bind_ok (exec_find key), h]
  rfl

theorem exec_hset_hash {key : Bytes} {fields : Bytes → Option Bytes} {expires : Option Nat}
    (h : keys.find (us / 1000) key = some ⟨.hash fields, expires⟩) (pairs : List (Bytes × Bytes)) :
    (hset key pairs).exec us keys =
      (.ok (), Function.update keys key (some ⟨.hash (assign fields pairs), expires⟩)) := by
  unfold hset
  rw [exec_bind_ok (exec_find key), h]
  rfl

theorem exec_pexpire {key : Bytes} {item : Item} (h : keys.find (us / 1000) key = some item) {ms : Nat}
    (hpos : 0 < ms) (hlt : ms < 2 ^ 63) :
    (pexpire key (format ms)).exec us keys =
      (.ok (), Function.update keys key (some { item with expires := some (us / 1000 + ms) })) := by
  unfold pexpire
  rw [parseInt_format hlt]
  have hread : (read : Script Nat).exec us keys = (.ok us, keys) := rfl
  rw [exec_bind_ok hread, exec_bind_ok (exec_find key), h]
  dsimp only
  rw [if_neg (by omega), Int.toNat_natCast]
  rfl

end Script

/-- The counter of a key after so many acquisitions. -/
def counterItem (n : Nat) : Option Item := if n = 0 then none else some ⟨.text (format n), none⟩

/-- The hash that marks an owner. -/
def leaseHash (owner token acquired expires : Bytes) : Value :=
  .hash (assign (fun _ => none) [(ownerField, owner), (tokenField, token), (acquiredField, acquired),
    (expiresField, expires)])

namespace Script

variable {us : Nat} {keys : Keyspace}

theorem find_update_self (ms : Nat) (key : Bytes) (item : Option Item) :
    Keyspace.find (Function.update keys key item) ms key = item.filter (Item.live ms) := by
  rw [Keyspace.find, Function.update_self]

theorem find_update_of_ne (ms : Nat) {key other : Bytes} (h : other ≠ key) (item : Option Item) :
    Keyspace.find (Function.update keys key item) ms other = keys.find ms other := by
  rw [Keyspace.find, Function.update_of_ne h, Keyspace.find]

theorem find_counterItem {counter : Bytes} {n : Nat} (h : keys counter = counterItem n) (ms : Nat) :
    keys.find ms counter = counterItem n := by
  rw [Keyspace.find, h, counterItem]
  split <;> rfl

theorem exec_incr {counter : Bytes} {n : Nat} (h : keys counter = counterItem n) (hn : n < 2 ^ 63 - 1) :
    (incr counter).exec us keys = (.ok (n + 1), Function.update keys counter (counterItem (n + 1))) := by
  have hfind := find_counterItem h (us / 1000)
  unfold incr
  rw [exec_bind_ok (exec_find counter), hfind, counterItem]
  by_cases hz : n = 0
  · subst hz
    rfl
  · rw [if_neg hz]
    dsimp only
    rw [value_format]
    dsimp only
    rw [if_neg (by omega), counterItem, if_neg (Nat.succ_ne_zero n)]
    rfl

theorem exec_incr_overflow {counter : Bytes} {n : Nat} (h : keys counter = counterItem n)
    (hn : 2 ^ 63 - 1 ≤ n) :
    (incr counter).exec us keys = (.error "ERR increment or decrement would overflow", keys) := by
  have hfind := find_counterItem h (us / 1000)
  unfold incr
  rw [exec_bind_ok (exec_find counter), hfind, counterItem, if_neg (by omega)]
  dsimp only
  rw [value_format]
  dsimp only
  rw [if_pos hn]
  rfl

end Script

open Script

section Specs

variable {us : Nat} {keys : Keyspace} {lease : Bytes}

theorem leaseHash_fields (owner token acquired expires : Bytes) :
    ∃ fields, leaseHash owner token acquired expires = .hash fields ∧ fields ownerField = some owner ∧
      fields tokenField = some token ∧ fields acquiredField = some acquired ∧
      fields expiresField = some expires ∧ ∀ later, .hash (assign fields [(expiresField, later)]) =
        leaseHash owner token acquired later := by
  refine ⟨_, rfl, rfl, rfl, rfl, rfl, ?_⟩
  intro later
  exact congrArg Value.hash (Function.update_idem _ _ _)

theorem leaseHash_inj {owner token acquired expires owner' token' acquired' expires' : Bytes}
    (h : leaseHash owner token acquired expires = leaseHash owner' token' acquired' expires') :
    owner = owner' ∧ token = token' ∧ acquired = acquired' ∧ expires = expires' := by
  obtain ⟨fields, hf, ho, ht, ha, he, _⟩ := leaseHash_fields owner token acquired expires
  obtain ⟨fields', hf', ho', ht', ha', he', _⟩ := leaseHash_fields owner' token' acquired' expires'
  rw [hf, hf', Value.hash.injEq] at h
  subst h
  exact ⟨Option.some.inj (ho.symm.trans ho'), Option.some.inj (ht.symm.trans ht'),
    Option.some.inj (ha.symm.trans ha'), Option.some.inj (he.symm.trans he')⟩

theorem leaseHash_injective {owner token acquired expires owner' token' acquired' expires' : Bytes}
    (h : leaseHash owner token acquired expires = leaseHash owner' token' acquired' expires') :
    owner = owner' ∧ token = token' :=
  ⟨(leaseHash_inj h).1, (leaseHash_inj h).2.1⟩

theorem acquireScript_contended (counter owner ttl : Bytes) {item : Item}
    (h : keys.find (us / 1000) lease = some item) :
    (acquireScript lease counter owner ttl).exec us keys = (.ok [some contended], keys) := by
  unfold acquireScript
  rw [exec_bind_ok (exec_isPresent lease), h]
  rfl

theorem acquireScript_overflow {counter : Bytes} (owner ttl : Bytes) {n : Nat}
    (hl : keys.find (us / 1000) lease = none) (hc : keys counter = counterItem n) (hn : 2 ^ 63 - 1 ≤ n) :
    (acquireScript lease counter owner ttl).exec us keys =
      (.error "ERR increment or decrement would overflow", keys) := by
  unfold acquireScript
  rw [exec_bind_ok (exec_isPresent lease), hl]
  exact exec_bind_error (exec_incr_overflow hc hn) _

theorem acquireScript_granted {counter : Bytes} (owner : Bytes) {n ms : Nat} (hne : counter ≠ lease)
    (hl : keys.find (us / 1000) lease = none) (hc : keys counter = counterItem n) (hn : n < 2 ^ 63 - 1)
    (hpos : 0 < ms) (hlt : ms < 2 ^ 63) :
    (acquireScript lease counter owner (format ms)).exec us keys =
      (.ok [some ok, some (format (n + 1)), some (tostring (us / 1000)),
          some (tostring (us / 1000 + ms))],
        Function.update (Function.update keys counter (counterItem (n + 1))) lease
          (some ⟨leaseHash owner (format (n + 1)) (tostring (us / 1000)) (tostring (us / 1000 + ms)),
            some (us / 1000 + ms)⟩)) := by
  unfold acquireScript
  rw [exec_bind_ok (exec_isPresent lease), hl]
  simp only [Option.isSome_none, Bool.false_eq_true, if_false]
  have htext : Keyspace.find (Function.update keys counter (counterItem (n + 1))) (us / 1000) counter =
      some ⟨.text (format (n + 1)), none⟩ := find_update_self _ _ _
  -- The token that goes into the hash is the text that GET returns after INCR.
  rw [exec_bind_ok (exec_incr hc hn), exec_bind_ok (exec_getText htext)]
  dsimp only
  have habsent : Keyspace.find (Function.update keys counter (counterItem (n + 1))) (us / 1000) lease =
      none := (find_update_of_ne _ hne.symm _).trans hl
  rw [exec_bind_ok exec_nowms, exec_bind_ok (exec_tonumber ms), exec_bind_ok (exec_hset_absent habsent _),
    exec_bind_ok (exec_pexpire (find_update_self _ _ _) hpos hlt), Function.update_idem]
  rfl

theorem exec_mismatch {owner token acquired expires : Bytes} {deadline : Option Nat}
    (h : keys.find (us / 1000) lease = some ⟨leaseHash owner token acquired expires, deadline⟩)
    (owner' token' : Bytes) :
    (mismatch lease owner' token').exec us keys =
      (.ok (decide (¬(owner = owner' ∧ token = token'))), keys) := by
  obtain ⟨fields, hf, ho, ht, _⟩ := leaseHash_fields owner token acquired expires
  rw [hf] at h
  unfold mismatch
  rw [exec_bind_ok (exec_hget h), ho]
  by_cases hown : owner = owner'
  · subst hown
    rw [if_neg (not_not.mpr rfl), exec_bind_ok (exec_hget h), ht]
    simp [exec_pure]
  · rw [if_pos (by simpa using hown)]
    simp [exec_pure, hown]

section Guard

variable {owner token acquired expires : Bytes} {deadline : Option Nat} {reply : List (Option Bytes)}
  {rest : Script (List (Option Bytes))}

/-- The guard of renew, validate and release: the hash must be there and carry
the caller's owner and token. -/
theorem exec_guard_absent (h : keys.find (us / 1000) lease = none) (owner token : Bytes) :
    (do
      if !(← isPresent lease) then return reply
      if ← mismatch lease owner token then return [some stale]
      rest : Script (List (Option Bytes))).exec us keys = (.ok reply, keys) := by
  rw [exec_bind_ok (exec_isPresent lease), h]
  rfl

theorem exec_guard_stale
    (h : keys.find (us / 1000) lease = some ⟨leaseHash owner token acquired expires, deadline⟩)
    {owner' token' : Bytes} (hne : ¬(owner = owner' ∧ token = token')) :
    (do
      if !(← isPresent lease) then return reply
      if ← mismatch lease owner' token' then return [some stale]
      rest : Script (List (Option Bytes))).exec us keys = (.ok [some stale], keys) := by
  rw [exec_bind_ok (exec_isPresent lease), h]
  simp only [Option.isSome_some, Bool.not_true, Bool.false_eq_true, if_false]
  rw [exec_bind_ok (exec_mismatch h owner' token'), decide_eq_true hne]
  rfl

theorem exec_guard_owner
    (h : keys.find (us / 1000) lease = some ⟨leaseHash owner token acquired expires, deadline⟩) :
    (do
      if !(← isPresent lease) then return reply
      if ← mismatch lease owner token then return [some stale]
      rest : Script (List (Option Bytes))).exec us keys = rest.exec us keys := by
  have hmatch : ¬¬(owner = owner ∧ token = token) := not_not.mpr ⟨rfl, rfl⟩
  rw [exec_bind_ok (exec_isPresent lease), h]
  simp only [Option.isSome_some, Bool.not_true, Bool.false_eq_true, if_false]
  rw [exec_bind_ok (exec_mismatch h owner token), decide_eq_false hmatch]
  rfl

theorem renewScript_absent (h : keys.find (us / 1000) lease = none) (owner token ttl : Bytes) :
    (renewScript lease owner token ttl).exec us keys = (.ok [some stale], keys) :=
  exec_guard_absent h owner token

theorem renewScript_stale
    (h : keys.find (us / 1000) lease = some ⟨leaseHash owner token acquired expires, deadline⟩)
    {owner' token' : Bytes} (hne : ¬(owner = owner' ∧ token = token')) (ttl : Bytes) :
    (renewScript lease owner' token' ttl).exec us keys = (.ok [some stale], keys) :=
  exec_guard_stale h hne

theorem renewScript_renewed {ms : Nat}
    (h : keys.find (us / 1000) lease = some ⟨leaseHash owner token acquired expires, deadline⟩)
    (hpos : 0 < ms) (hlt : ms < 2 ^ 63) :
    (renewScript lease owner token (format ms)).exec us keys =
      (.ok [some ok, some token, some acquired, some (tostring (us / 1000 + ms))],
        Function.update keys lease (some ⟨leaseHash owner token acquired (tostring (us / 1000 + ms)),
          some (us / 1000 + ms)⟩)) := by
  have hlive : Item.live (us / 1000)
      ⟨leaseHash owner token acquired (tostring (us / 1000 + ms)), deadline⟩ = true :=
    (Option.filter_eq_some_iff.mp h).2
  obtain ⟨fields, hf, _, _, ha, _, hlater⟩ := leaseHash_fields owner token acquired expires
  refine (exec_guard_owner h).trans ?_
  rw [hf] at h
  rw [exec_bind_ok exec_nowms, exec_bind_ok (exec_tonumber ms), exec_bind_ok (exec_hget h),
    exec_bind_ok (exec_hset_hash h _), hlater]
  have hfind : Keyspace.find (Function.update keys lease
      (some ⟨leaseHash owner token acquired (tostring (us / 1000 + ms)), deadline⟩)) (us / 1000) lease =
      some ⟨leaseHash owner token acquired (tostring (us / 1000 + ms)), deadline⟩ := by
    rw [find_update_self, Option.filter_some, if_pos hlive]
  rw [exec_bind_ok (exec_pexpire hfind hpos hlt), Function.update_idem, ha]
  rfl

theorem validateScript_absent (h : keys.find (us / 1000) lease = none) (owner token : Bytes) :
    (validateScript lease owner token).exec us keys = (.ok [some stale], keys) :=
  exec_guard_absent h owner token

theorem validateScript_stale
    (h : keys.find (us / 1000) lease = some ⟨leaseHash owner token acquired expires, deadline⟩)
    {owner' token' : Bytes} (hne : ¬(owner = owner' ∧ token = token')) :
    (validateScript lease owner' token').exec us keys = (.ok [some stale], keys) :=
  exec_guard_stale h hne

theorem validateScript_ok
    (h : keys.find (us / 1000) lease = some ⟨leaseHash owner token acquired expires, deadline⟩) :
    (validateScript lease owner token).exec us keys =
      (.ok [some ok, some token, some acquired, some expires], keys) := by
  obtain ⟨fields, hf, _, _, ha, he, _⟩ := leaseHash_fields owner token acquired expires
  refine (exec_guard_owner h).trans ?_
  rw [hf] at h
  rw [exec_bind_ok (exec_hget h), exec_bind_ok (exec_hget h), ha, he]
  rfl

theorem releaseScript_missing (h : keys.find (us / 1000) lease = none) (owner token : Bytes) :
    (releaseScript lease owner token).exec us keys = (.ok [some missing], keys) :=
  exec_guard_absent h owner token

theorem releaseScript_stale
    (h : keys.find (us / 1000) lease = some ⟨leaseHash owner token acquired expires, deadline⟩)
    {owner' token' : Bytes} (hne : ¬(owner = owner' ∧ token = token')) :
    (releaseScript lease owner' token').exec us keys = (.ok [some stale], keys) :=
  exec_guard_stale h hne

theorem releaseScript_released
    (h : keys.find (us / 1000) lease = some ⟨leaseHash owner token acquired expires, deadline⟩) :
    (releaseScript lease owner token).exec us keys = (.ok [some ok], Function.update keys lease none) :=
  exec_guard_owner h

end Guard

end Specs

end GoLease.Valkey
