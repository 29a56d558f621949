import GoLease.Base64
import GoLease.Client
import GoLease.Memory.Store
import GoLease.Postgres.Store
import GoLease.Valkey.Store

/-!
The owners that a client draws by default. Every draw gives a name that the
client and the three stores accept, and different draws give different names.
-/

namespace GoLease.Owners

open Client

/-- NewOwner of randomOwners, with the result of reading 24 bytes. -/
def randomOwner (read : Except Error (Vector UInt8 24)) : Except Error Bytes :=
  match read with
  | .error err => .error err
  | .ok bytes => .ok (Base64.encode bytes.toList)

/-- A name that neither the client nor an argument check of a store refuses. -/
structure Usable (owner : Bytes) : Prop where
  client : newOwner (.ok owner) = .ok owner
  memory : ∀ {key : Key} {ttl : Int}, key.value ≠ [] → 0 < ttl → Memory.validate none key owner ttl = none
  postgres : ∀ {key : Key} {token : Nat} {ttl : Int}, key.value ≠ [] → token ≠ 0 →
    token ≤ Postgres.maxInt64 → millisecond ≤ ttl → Postgres.validate none key owner token ttl = none
  valkey : ∀ {key : Key} {token : Nat} {ttl : Int}, key.value ≠ [] → token ≠ 0 → millisecond ≤ ttl →
    Valkey.validate none key owner token ttl = none

theorem usable_of_length {owner : Bytes} (hpos : 0 < owner.length) (hle : owner.length ≤ 128) :
    Usable owner := by
  have hne : owner ≠ [] := List.length_pos_iff.mp hpos
  have hfits : ¬owner.length > 128 := Nat.not_lt.mpr hle
  refine ⟨?_, ?_, ?_, ?_⟩
  · simp [newOwner, hne, hfits]
  · intro key ttl hkey httl
    simp [Memory.validate, Memory.validateIdentity, hkey, hne, hfits, httl]
  · intro key token ttl hkey htoken hmax httl
    simp [Postgres.validate, hkey, hne, hfits, htoken, Nat.not_lt.mpr hmax, Int.not_lt.mpr httl]
  · intro key token ttl hkey htoken httl
    simp [Valkey.validate, hkey, hne, hfits, htoken, Int.not_lt.mpr httl]

theorem length_randomOwner (bytes : Vector UInt8 24) : (Base64.encode bytes.toList).length = 32 := by
  rw [Base64.length_encode, Vector.length_toList]

/-- A draw that fails ends both methods before the backend is asked. One that
succeeds gives them an owner that is usable and tells the draw. -/
theorem default_owners (read : Except Error (Vector UInt8 24)) :
    (∃ err, read = .error err ∧ ∀ key policy,
      (∀ started backend, tryAcquire (some none) (randomOwner read) key policy started backend =
        .error (wrap .errBackendUnavailable "owner generation")) ∧
      ∀ started attempts, acquire (some none) true (randomOwner read) key policy started attempts =
        some ⟨0, [], .error (wrap .errBackendUnavailable "owner generation")⟩) ∨
    ∃ owner, randomOwner read = .ok owner ∧ owner.length = 32 ∧ Usable owner ∧
      ∀ other, randomOwner other = .ok owner → other = read := by
  cases read with
  | error err => exact .inl ⟨err, rfl, fun key policy => ⟨fun _ _ => rfl, fun _ _ => rfl⟩⟩
  | ok bytes =>
      have hlength := length_randomOwner bytes
      refine .inr ⟨_, rfl, hlength, usable_of_length (by omega) (by omega), ?_⟩
      intro other hother
      cases other with
      | error => cases hother
      | ok bytes' =>
          have hbytes := Base64.encode_injective (Except.ok.inj hother)
          rw [Vector.toList_inj.mp hbytes]

end GoLease.Owners
