import Mathlib.Data.Nat.Digits.Lemmas

/-!
Decimal numerals as byte strings: the canonical numeral of a number, and the
readers of unsigned and signed 64-bit numbers.
-/

namespace GoLease.Decimal

def digit (d : Nat) : UInt8 := UInt8.ofNat (48 + d)

/-- The numeral without leading zeros. -/
def format (n : Nat) : List UInt8 :=
  if n = 0 then [digit 0] else (Nat.digits 10 n).reverse.map digit

def push (n : Nat) (c : UInt8) : Option Nat :=
  if 48 ≤ c.toNat ∧ c.toNat ≤ 57 then some (n * 10 + (c.toNat - 48)) else none

/-- The number that a string of digits denotes. -/
def value (text : List UInt8) : Option Nat := text.foldlM push 0

def parseUint (text : List UInt8) : Option Nat :=
  if text = [] then none else (value text).filter (· < 2 ^ 64)

def parseInt (text : List UInt8) : Option Int :=
  match text with
  | [] => none
  | c :: rest =>
    if c = 45 then ((parseUint rest).filter (· ≤ 2 ^ 63)).map (fun n => -(n : Int))
    else ((parseUint (if c = 43 then rest else text)).filter (· < 2 ^ 63)).map Int.ofNat

theorem toNat_digit {d : Nat} (h : d < 10) : (digit d).toNat = 48 + d := by
  rw [digit, UInt8.toNat_ofNat']
  omega

theorem push_digit {d : Nat} (h : d < 10) (n : Nat) : push n (digit d) = some (n * 10 + d) := by
  rw [push, toNat_digit h, if_pos (by omega), Nat.add_sub_cancel_left]

theorem value_concat (text : List UInt8) (c : UInt8) :
    value (text ++ [c]) = (value text).bind (push · c) := by
  unfold value
  rw [List.foldlM_append]
  cases text.foldlM push 0 with
  | none => rfl
  | some n => exact bind_pure (push n c)

theorem value_digits {ds : List Nat} (h : ∀ d ∈ ds, d < 10) :
    value (ds.reverse.map digit) = some (Nat.ofDigits 10 ds) := by
  induction ds with
  | nil => rfl
  | cons d ds ih =>
      rw [List.reverse_cons, List.map_append, List.map_singleton, value_concat,
        ih (fun d hd => h d (List.mem_cons_of_mem _ hd)), Option.bind_some,
        push_digit (h d List.mem_cons_self), Nat.ofDigits_cons]
      congr 1
      omega

@[simp] theorem value_format (n : Nat) : value (format n) = some n := by
  rw [format]
  split
  next h => rw [h]; rfl
  next => rw [value_digits (fun d hd => Nat.digits_lt_base (by decide) hd), Nat.ofDigits_digits]

theorem format_injective : Function.Injective format := by
  intro n m h
  have hv := congrArg value h
  rw [value_format, value_format] at hv
  exact Option.some.inj hv

theorem format_eq_iff {n m : Nat} : format n = format m ↔ n = m := format_injective.eq_iff

theorem exists_digit_cons (n : Nat) : ∃ d rest, d < 10 ∧ format n = digit d :: rest := by
  rw [format]
  split
  next => exact ⟨0, [], by decide, rfl⟩
  next h =>
    cases hd : (Nat.digits 10 n).reverse with
    | nil =>
        rw [List.reverse_eq_nil_iff, Nat.digits_eq_nil_iff_eq_zero] at hd
        exact absurd hd h
    | cons d rest =>
        refine ⟨d, rest.map digit, ?_, rfl⟩
        apply Nat.digits_lt_base (b := 10) (m := n) (by decide)
        rw [← List.mem_reverse, hd]
        exact List.mem_cons_self

theorem format_ne_nil (n : Nat) : format n ≠ [] := by
  obtain ⟨d, rest, _, he⟩ := exists_digit_cons n
  rw [he]
  exact List.cons_ne_nil _ _

theorem parseUint_format {n : Nat} (h : n < 2 ^ 64) : parseUint (format n) = some n := by
  rw [parseUint, if_neg (format_ne_nil n), value_format, Option.filter_some, if_pos (decide_eq_true h)]

/-- A numeral begins with a digit, so no sign is read off it. -/
theorem parseInt_format_unsigned (n : Nat) :
    parseInt (format n) = ((parseUint (format n)).filter (· < 2 ^ 63)).map Int.ofNat := by
  obtain ⟨d, rest, hd, he⟩ := exists_digit_cons n
  have hsign (c : UInt8) (hc : c.toNat < 48) : digit d ≠ c := by
    rintro rfl
    rw [toNat_digit hd] at hc
    omega
  rw [he, parseInt, if_neg (hsign 45 (by decide)), if_neg (hsign 43 (by decide))]

theorem parseInt_format {n : Nat} (h : n < 2 ^ 63) : parseInt (format n) = some (n : Int) := by
  rw [parseInt_format_unsigned, parseUint_format (Nat.lt_trans h (by decide)), Option.filter_some,
    if_pos (decide_eq_true h)]
  rfl

theorem parseInt_format_of_le {n : Nat} (h : 2 ^ 63 ≤ n) : parseInt (format n) = none := by
  rw [parseInt_format_unsigned, parseUint, if_neg (format_ne_nil n), value_format, Option.filter_filter,
    Option.filter_some, if_neg]
  · rfl
  · intro hsmall
    rw [Bool.and_eq_true, decide_eq_true_eq, decide_eq_true_eq] at hsmall
    omega

end GoLease.Decimal
