import Mathlib.Data.Option.Basic
import Mathlib.Tactic.SplitIfs

/-!
The URL-safe base64 encoding without padding: three bytes to four letters, and
a rest of one or two bytes to two or three.
-/

namespace GoLease.Base64

/-- The letter of a six-bit number. -/
def letter (n : Nat) : UInt8 :=
  if n < 26 then UInt8.ofNat (65 + n)
  else if n < 52 then UInt8.ofNat (97 + (n - 26))
  else if n < 62 then UInt8.ofNat (48 + (n - 52))
  else if n = 62 then 45 else 95

def digit (c : UInt8) : Option Nat :=
  if 65 ≤ c.toNat ∧ c.toNat ≤ 90 then some (c.toNat - 65)
  else if 97 ≤ c.toNat ∧ c.toNat ≤ 122 then some (c.toNat - 97 + 26)
  else if 48 ≤ c.toNat ∧ c.toNat ≤ 57 then some (c.toNat - 48 + 52)
  else if c = 45 then some 62
  else if c = 95 then some 63
  else none

def encode : List UInt8 → List UInt8
  | a :: b :: c :: rest =>
    let word := a.toNat * 65536 + b.toNat * 256 + c.toNat
    letter (word / 262144) :: letter (word / 4096 % 64) :: letter (word / 64 % 64) :: letter (word % 64) ::
      encode rest
  | [a, b] =>
    let word := a.toNat * 65536 + b.toNat * 256
    [letter (word / 262144), letter (word / 4096 % 64), letter (word / 64 % 64)]
  | [a] =>
    let word := a.toNat * 65536
    [letter (word / 262144), letter (word / 4096 % 64)]
  | [] => []

def decode : List UInt8 → Option (List UInt8)
  | w :: x :: y :: z :: rest => do
    let word := (← digit w) * 262144 + (← digit x) * 4096 + (← digit y) * 64 + (← digit z)
    let bytes ← decode rest
    some (UInt8.ofNat (word / 65536) :: UInt8.ofNat (word / 256) :: UInt8.ofNat word :: bytes)
  | [w, x, y] => do
    let word := (← digit w) * 262144 + (← digit x) * 4096 + (← digit y) * 64
    some [UInt8.ofNat (word / 65536), UInt8.ofNat (word / 256)]
  | [w, x] => do
    let word := (← digit w) * 262144 + (← digit x) * 4096
    some [UInt8.ofNat (word / 65536)]
  | [_] => none
  | [] => some []

theorem digit_letter {n : Nat} (h : n < 64) : digit (letter n) = some n := by
  have hall : ∀ n < 64, digit (letter n) = some n := by decide
  exact hall n h

theorem length_encode (bytes : List UInt8) : (encode bytes).length = (bytes.length * 4 + 2) / 3 := by
  induction bytes using encode.induct with
  | case1 a b c rest ih =>
      simp only [encode, List.length_cons, ih]
      omega
  | case2 | case3 | case4 => simp [encode]

theorem ofNat_eq {n : Nat} {a : UInt8} (h : n % 256 = a.toNat) : UInt8.ofNat n = a := by
  apply UInt8.toNat_inj.mp
  rw [UInt8.toNat_ofNat', h]

/-- The bytes can be read back. -/
theorem decode_encode (bytes : List UInt8) : decode (encode bytes) = some bytes := by
  induction bytes using encode.induct with
  | case1 a b c rest ih =>
      have ha := a.toNat_lt
      have hb := b.toNat_lt
      have hc := c.toNat_lt
      obtain ⟨word, hword⟩ : ∃ word, word = a.toNat * 65536 + b.toNat * 256 + c.toNat := ⟨_, rfl⟩
      have hsum : word / 262144 * 262144 + word / 4096 % 64 * 4096 + word / 64 % 64 * 64 + word % 64 =
          word := by omega
      simp only [encode, decode, ← hword]
      rw [digit_letter (by omega), digit_letter (by omega), digit_letter (by omega),
        digit_letter (by omega), ih]
      simp only [Option.bind_eq_bind, Option.bind_some, hsum]
      rw [@ofNat_eq (word / 65536) a (by omega), @ofNat_eq (word / 256) b (by omega),
        @ofNat_eq word c (by omega)]
  | case2 a b =>
      have ha := a.toNat_lt
      have hb := b.toNat_lt
      obtain ⟨word, hword⟩ : ∃ word, word = a.toNat * 65536 + b.toNat * 256 := ⟨_, rfl⟩
      have hsum : word / 262144 * 262144 + word / 4096 % 64 * 4096 + word / 64 % 64 * 64 = word := by
        omega
      simp only [encode, decode, ← hword]
      rw [digit_letter (by omega), digit_letter (by omega), digit_letter (by omega)]
      simp only [Option.bind_eq_bind, Option.bind_some, hsum]
      rw [@ofNat_eq (word / 65536) a (by omega), @ofNat_eq (word / 256) b (by omega)]
  | case3 a =>
      have ha := a.toNat_lt
      obtain ⟨word, hword⟩ : ∃ word, word = a.toNat * 65536 := ⟨_, rfl⟩
      have hsum : word / 262144 * 262144 + word / 4096 % 64 * 4096 = word := by omega
      simp only [encode, decode, ← hword]
      rw [digit_letter (by omega), digit_letter (by omega)]
      simp only [Option.bind_eq_bind, Option.bind_some, hsum]
      rw [@ofNat_eq (word / 65536) a (by omega)]
  | case4 => simp [encode, decode]

theorem encode_injective : Function.Injective encode := by
  intro bytes bytes' h
  have hdecoded := congrArg decode h
  rw [decode_encode, decode_encode] at hdecoded
  exact Option.some.inj hdecoded

end GoLease.Base64
