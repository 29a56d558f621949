import GoLease.Valkey.Outcomes
import Mathlib.Data.List.Basic

/-!
The names of the storage keys: both keys of a lease fall into one cluster slot,
and no two leases, prefixes or kinds of key share a name.
-/

namespace GoLease.Valkey.Slots

section Braces

variable {before after : Bytes} {c : UInt8}

theorem indexByte_append (h : c ∉ before) : indexByte (before ++ c :: after) c = some before.length := by
  unfold indexByte
  induction before with
  | nil => rw [List.nil_append, List.idxOf?_cons, if_pos (beq_self_eq_true c), List.length_nil]
  | cons b before ih =>
      rw [List.mem_cons, not_or] at h
      rw [List.cons_append, List.idxOf?_cons, if_neg (by simpa using Ne.symm h.1), ih h.2]
      rfl

/-- The scan for the braces finds what stands between the first two. -/
theorem hashTag_append {tag : Bytes} (hbefore : 123 ∉ before) (htag : 125 ∉ tag) :
    hashTag (before ++ 123 :: (tag ++ 125 :: after)) = tag := by
  have hdrop : (before ++ 123 :: (tag ++ 125 :: after)).drop (before.length + 1) =
      tag ++ 125 :: after := by
    rw [← List.drop_drop, List.drop_left]
    rfl
  simp only [hashTag, indexByte_append hbefore, hdrop, indexByte_append htag]
  exact List.take_left

end Braces

section Hexadecimal

variable {sum : Bytes}

theorem hexDigit_lt {n : Nat} (h : n < 16) : (hexDigit n).toNat < 123 := by
  have hall : ∀ n : Fin 16, (hexDigit n).toNat < 123 := by decide
  exact hall ⟨n, h⟩

/-- Hexadecimal digits come before the braces. -/
theorem encodeToString_lt {b : UInt8} (h : b ∈ encodeToString sum) : b.toNat < 123 := by
  obtain ⟨a, -, hb⟩ := List.mem_flatMap.mp h
  have ha := a.toNat_lt
  rw [List.mem_cons, List.mem_singleton] at hb
  rcases hb with rfl | rfl
  · exact hexDigit_lt (by omega)
  · exact hexDigit_lt (by omega)

theorem not_mem_encodeToString {c : UInt8} (h : 123 ≤ c.toNat) : c ∉ encodeToString sum := by
  intro hc
  have hlt := encodeToString_lt hc
  omega

theorem length_encodeToString (sum : Bytes) : (encodeToString sum).length = 2 * sum.length := by
  induction sum with
  | nil => rfl
  | cons b sum ih =>
      rw [encodeToString, List.flatMap_cons, List.length_append, ← encodeToString, ih]
      simp only [List.length_cons, List.length_nil]
      omega

end Hexadecimal

/-- What newStore leaves of a prefix. -/
theorem newStore_ok {sha256 : Bytes → Bytes} {keyPrefix : Bytes} {store : Store}
    (h : newStore sha256 keyPrefix = .ok store) :
    store = ⟨sha256, keyPrefix⟩ ∧ ∀ b ∈ keyPrefix, b ∉ reserved := by
  unfold newStore at h
  split at h
  next => cases h
  next =>
    split at h
    next => cases h
    next =>
      split at h
      next => cases h
      next hany =>
        refine ⟨(Except.ok.inj h).symm, ?_⟩
        simpa using hany

/-- The suffix of the storage key at a position of keys: the lease, then its counter. -/
def suffix (i : Fin 2) : Bytes := [leaseSuffix, counterSuffix].get i

theorem suffix_injective : Function.Injective suffix := by
  intro i j h
  have hall : ∀ i j, suffix i = suffix j → i = j := by decide
  exact hall i j h

section Names

variable {p q d e : Bytes} {i j : Fin 2}

def name (keyPrefix digest : Bytes) (i : Fin 2) : Bytes :=
  keyPrefix ++ [58] ++ 123 :: (encodeToString digest ++ 125 :: suffix i)

theorem brace_not_mem (h : ∀ b ∈ p, b ∉ reserved) : 123 ∉ p ++ [58] := by
  rw [List.mem_append, not_or]
  exact ⟨fun hp => h 123 hp (by decide), by decide⟩

theorem hashTag_name (h : ∀ b ∈ p, b ∉ reserved) : hashTag (name p d i) = encodeToString d :=
  hashTag_append (brace_not_mem h) (not_mem_encodeToString (by decide))

/-- A name splits in one way only: the prefix ends before the first brace, and
the digest before the closing one. -/
theorem name_eq_iff (h : ∀ b ∈ p, b ∉ reserved) : name p d i = name q e j ↔ p = q ∧ d = e ∧ i = j := by
  have hsuffix : ∀ i, 123 ∉ suffix i ∧ 125 ∉ suffix i := by decide
  have hrest : 123 ∉ encodeToString d ++ 125 :: suffix i := by
    rw [List.mem_append, List.mem_cons, not_or, not_or]
    exact ⟨not_mem_encodeToString (by decide), by decide, (hsuffix i).1⟩
  have hdigest : 125 ∉ encodeToString d := not_mem_encodeToString (by decide)
  constructor
  · intro heq
    obtain ⟨hp, -, htail⟩ := (List.append_cons_inj_of_notMem (brace_not_mem h) hrest).mp heq
    obtain ⟨hd, -, hi⟩ := (List.append_cons_inj_of_notMem hdigest (hsuffix i).2).mp htail
    exact ⟨List.append_cancel_right hp, encodeToString_injective hd, suffix_injective hi⟩
  · rintro ⟨rfl, rfl, rfl⟩
    rfl

end Names

theorem keys_get (store : Store) (key : Key) (i : Fin 2) :
    (store.keys key).get i = name store.keyPrefix (store.digest key) i := by
  match i with
  | 0 => simp [Store.keys, Store.leaseKey, Store.tag, Store.digest, name, suffix]
  | 1 => simp [Store.keys, Store.counterKey, Store.tag, Store.digest, name, suffix]

/-- The storage keys of a lease share one slot, that of its digest, and two
storage keys are equal only where prefix, digest and kind are. -/
theorem storage_keys (sha256 : Bytes → Vector UInt8 32) {p q : Bytes} {store other : Store}
    (hp : newStore (fun data => (sha256 data).toList) p = .ok store)
    (hq : newStore (fun data => (sha256 data).toList) q = .ok other) (k l : Key) :
    (∃ tag, tag = encodeToString ((sha256 k.value).toList.take 16) ∧ tag.length = 32 ∧ tag ≠ [] ∧
        ∀ storageKey ∈ store.keys k, hashTag storageKey = tag) ∧
      ∀ i j : Fin 2, (store.keys k).get i = (other.keys l).get j ↔
        p = q ∧ (sha256 k.value).toList.take 16 = (sha256 l.value).toList.take 16 ∧ i = j := by
  obtain ⟨rfl, hclean⟩ := newStore_ok hp
  obtain ⟨rfl, -⟩ := newStore_ok hq
  constructor
  · have hlength : (encodeToString ((sha256 k.value).toList.take 16)).length = 32 := by
      rw [length_encodeToString, List.length_take, Vector.length_toList]
      rfl
    refine ⟨_, rfl, hlength, List.ne_nil_of_length_pos (by omega), ?_⟩
    intro storageKey hmem
    obtain ⟨i, rfl⟩ := List.get_of_mem hmem
    exact (congrArg hashTag (keys_get _ k i)).trans (hashTag_name hclean)
  · intro i j
    rw [keys_get, keys_get]
    exact name_eq_iff hclean

def job : Key := ⟨ascii ['s', 'c', 'h', 'e', 'd', 'u', 'l', 'e', 'r', '/', 'j', 'o', 'b']⟩

def backup : Key := ⟨ascii ['s', 'c', 'h', 'e', 'd', 'u', 'l', 'e', 'r', '/', 'b', 'a', 'c', 'k', 'u', 'p']⟩

/-- SHA-256 on the two keys. -/
def sums (data : Bytes) : Vector UInt8 32 :=
  if data = job.value then #v[
    118, 253, 33, 9, 36, 216, 235, 140, 137, 104, 84, 4, 136, 147, 170, 223, 188, 221, 118, 140,
    166, 188, 201, 147, 141, 176, 188, 18, 83, 44, 224, 225]
  else #v[
    75, 203, 144, 128, 89, 237, 40, 153, 226, 111, 107, 191, 148, 9, 61, 106, 48, 102, 37, 98, 126,
    216, 181, 144, 219, 190, 165, 41, 44, 78, 25, 134]

/-- A prefix that ends in the separator is another prefix. -/
theorem storage_keys_scheduler :
    let sha256 := fun data => (sums data).toList
    ∃ store store', newStore sha256 (ascii ['l', 'e', 'a', 's', 'e']) = .ok store ∧
      newStore sha256 (ascii ['l', 'e', 'a', 's', 'e', ':']) = .ok store' ∧
      (∀ storageKey ∈ store.keys job, hashTag storageKey = ascii [
        '7', '6', 'f', 'd', '2', '1', '0', '9', '2', '4', 'd', '8', 'e', 'b', '8', 'c', '8', '9',
        '6', '8', '5', '4', '0', '4', '8', '8', '9', '3', 'a', 'a', 'd', 'f']) ∧
      store.leaseKey job ≠ store'.leaseKey job ∧ store.leaseKey job ≠ store.leaseKey backup ∧
      store.leaseKey job ≠ store.counterKey job := by
  intro sha256
  have hp : newStore sha256 (ascii ['l', 'e', 'a', 's', 'e']) = .ok ⟨_, _⟩ := rfl
  have hq : newStore sha256 (ascii ['l', 'e', 'a', 's', 'e', ':']) = .ok ⟨_, _⟩ := rfl
  obtain ⟨⟨tag, rfl, -, -, htag⟩, hsame⟩ := storage_keys sums hp hp job job
  refine ⟨_, _, hp, hq, htag, ?_, ?_, ?_⟩
  · intro h
    obtain ⟨hpq, -⟩ := ((storage_keys sums hp hq job job).2 0 0).mp h
    exact absurd hpq (by decide)
  · intro h
    obtain ⟨-, hdigest, -⟩ := ((storage_keys sums hp hp job backup).2 0 0).mp h
    exact absurd hdigest (by decide)
  · intro h
    obtain ⟨-, -, hkind⟩ := (hsame 0 1).mp h
    exact absurd hkind (by decide)

end GoLease.Valkey.Slots
