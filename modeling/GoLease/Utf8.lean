import Mathlib.Tactic.Common

/-!
UTF-8 as byte strings: what is well formed, and the scanner that decides it by a
table of first bytes.
-/

namespace GoLease.Utf8

/-- The encoding of some sequence of Unicode scalar values. -/
def WellFormed (text : List UInt8) : Prop :=
  ∃ chars : List Char, text = chars.flatMap String.utf8EncodeChar

/-- The bytes that follow a first byte, and the range of the first of them. -/
structure Starter where
  more : Nat
  low : UInt8
  high : UInt8
  deriving DecidableEq, Repr

def first (b : UInt8) : Option Starter :=
  if 0xC2 ≤ b ∧ b ≤ 0xDF then some ⟨1, 0x80, 0xBF⟩
  else if b = 0xE0 then some ⟨2, 0xA0, 0xBF⟩
  else if b = 0xED then some ⟨2, 0x80, 0x9F⟩
  else if 0xE1 ≤ b ∧ b ≤ 0xEF then some ⟨2, 0x80, 0xBF⟩
  else if b = 0xF0 then some ⟨3, 0x90, 0xBF⟩
  else if b = 0xF4 then some ⟨3, 0x80, 0x8F⟩
  else if 0xF1 ≤ b ∧ b ≤ 0xF3 then some ⟨3, 0x80, 0xBF⟩
  else none

def within (low high b : UInt8) : Bool := decide (low ≤ b ∧ b ≤ high)

def continues (b : UInt8) : Bool := within 0x80 0xBF b

def validString : List UInt8 → Bool
  | [] => true
  | a :: rest =>
    if a < 0x80 then validString rest
    else match first a, rest with
      | some ⟨1, low, high⟩, b :: rest => within low high b && validString rest
      | some ⟨2, low, high⟩, b :: c :: rest => within low high b && continues c && validString rest
      | some ⟨3, low, high⟩, b :: c :: d :: rest =>
        within low high b && continues c && continues d && validString rest
      | _, _ => false

section Scanner

variable {a b c d low high : UInt8} {rest : List UInt8}

theorem within_iff : within low high b = true ↔ low.toNat ≤ b.toNat ∧ b.toNat ≤ high.toNat := by
  rw [within, decide_eq_true_iff, UInt8.le_iff_toNat_le, UInt8.le_iff_toNat_le]

/-- The table of first bytes, by the number of bytes that follow. -/
inductive Starts (a : Nat) : Nat → UInt8 → UInt8 → Prop
  | two (h : 0xC2 ≤ a ∧ a ≤ 0xDF) : Starts a 1 0x80 0xBF
  | lowThree (h : a = 0xE0) : Starts a 2 0xA0 0xBF
  | highThree (h : a = 0xED) : Starts a 2 0x80 0x9F
  | three (h : 0xE1 ≤ a ∧ a ≤ 0xEF) (hne : a ≠ 0xED) : Starts a 2 0x80 0xBF
  | lowFour (h : a = 0xF0) : Starts a 3 0x90 0xBF
  | highFour (h : a = 0xF4) : Starts a 3 0x80 0x8F
  | four (h : 0xF1 ≤ a ∧ a ≤ 0xF3) : Starts a 3 0x80 0xBF

theorem starts_of_first {more : Nat} (h : first a = some ⟨more, low, high⟩) :
    Starts a.toNat more low high := by
  unfold first at h
  simp only [UInt8.le_iff_toNat_le, ← UInt8.toNat_inj] at h
  split at h
  next ha =>
    cases h
    exact .two ha
  next =>
    split at h
    next ha =>
      cases h
      exact .lowThree ha
    next =>
      split at h
      next ha =>
        cases h
        exact .highThree ha
      next hne =>
        split at h
        next ha =>
          cases h
          exact .three ha hne
        next =>
          split at h
          next ha =>
            cases h
            exact .lowFour ha
          next =>
            split at h
            next ha =>
              cases h
              exact .highFour ha
            next =>
              split at h
              next ha =>
                cases h
                exact .four ha
              next => cases h

theorem first_of_starts {more : Nat} (h : Starts a.toNat more low high) :
    first a = some ⟨more, low, high⟩ := by
  unfold first
  simp only [UInt8.le_iff_toNat_le, ← UInt8.toNat_inj]
  cases h <;> grind

theorem not_ascii {more : Nat} (h : Starts a.toNat more low high) : ¬a < 0x80 := by
  rw [UInt8.lt_iff_toNat_lt, Nat.not_lt]
  change 128 ≤ a.toNat
  cases h <;> omega

theorem validString_ascii (h : a < 0x80) : validString (a :: rest) = validString rest := by
  rw [validString.eq_def]
  exact if_pos h

theorem validString_two (h : Starts a.toNat 1 low high) :
    validString (a :: b :: rest) = (within low high b && validString rest) := by
  rw [validString.eq_def]
  dsimp only
  rw [if_neg (not_ascii h), first_of_starts h]
  rfl

theorem validString_three (h : Starts a.toNat 2 low high) :
    validString (a :: b :: c :: rest) = (within low high b && continues c && validString rest) := by
  rw [validString.eq_def]
  dsimp only
  rw [if_neg (not_ascii h), first_of_starts h]
  rfl

theorem validString_four (h : Starts a.toNat 3 low high) :
    validString (a :: b :: c :: d :: rest) =
      (within low high b && continues c && continues d && validString rest) := by
  rw [validString.eq_def]
  dsimp only
  rw [if_neg (not_ascii h), first_of_starts h]
  rfl

end Scanner

section Encoding

variable {a b c d low high : UInt8} {char : Char}

theorem exists_char {n : Nat} (h : n.isValidChar) : ∃ char : Char, char.val.toNat = n :=
  ⟨Char.ofNatAux n h, rfl⟩

theorem encode_one (h : char.val.toNat ≤ 0x7F) :
    String.utf8EncodeChar char = [UInt8.ofNat char.val.toNat] := if_pos h

theorem encode_two (h : 0x80 ≤ char.val.toNat) (h' : char.val.toNat ≤ 0x7FF) :
    String.utf8EncodeChar char =
      [UInt8.ofNat (char.val.toNat / 64 % 32 + 0xC0), UInt8.ofNat (char.val.toNat % 64 + 0x80)] :=
  (if_neg (by omega)).trans (if_pos h')

theorem encode_three (h : 0x800 ≤ char.val.toNat) (h' : char.val.toNat ≤ 0xFFFF) :
    String.utf8EncodeChar char =
      [UInt8.ofNat (char.val.toNat / 4096 % 16 + 0xE0), UInt8.ofNat (char.val.toNat / 64 % 64 + 0x80),
        UInt8.ofNat (char.val.toNat % 64 + 0x80)] :=
  (if_neg (by omega)).trans ((if_neg (by omega)).trans (if_pos h'))

theorem encode_four (h : 0x10000 ≤ char.val.toNat) :
    String.utf8EncodeChar char =
      [UInt8.ofNat (char.val.toNat / 262144 % 8 + 0xF0), UInt8.ofNat (char.val.toNat / 4096 % 64 + 0x80),
        UInt8.ofNat (char.val.toNat / 64 % 64 + 0x80), UInt8.ofNat (char.val.toNat % 64 + 0x80)] :=
  (if_neg (by omega)).trans ((if_neg (by omega)).trans (if_neg (by omega)))

/-- The surrogates are what the range of the second byte leaves out. -/
theorem starts_three {n : Nat} (hvalid : n.isValidChar) (h : 0x800 ≤ n) (h' : n ≤ 0xFFFF) :
    ∃ low high : UInt8, Starts (n / 4096 % 16 + 0xE0) 2 low high ∧
      low.toNat ≤ n / 64 % 64 + 0x80 ∧ n / 64 % 64 + 0x80 ≤ high.toNat := by
  unfold Nat.isValidChar at hvalid
  by_cases hlow : n / 4096 = 0
  · refine ⟨_, _, .lowThree (by omega), ?_⟩
    change 160 ≤ _ ∧ _ ≤ 191
    omega
  by_cases hhigh : n / 4096 = 13
  · refine ⟨_, _, .highThree (by omega), ?_⟩
    change 128 ≤ _ ∧ _ ≤ 159
    omega
  · refine ⟨_, _, .three (by omega) (by omega), ?_⟩
    change 128 ≤ _ ∧ _ ≤ 191
    omega

theorem starts_four {n : Nat} (hvalid : n.isValidChar) (h : 0x10000 ≤ n) :
    ∃ low high : UInt8, Starts (n / 262144 % 8 + 0xF0) 3 low high ∧
      low.toNat ≤ n / 4096 % 64 + 0x80 ∧ n / 4096 % 64 + 0x80 ≤ high.toNat := by
  unfold Nat.isValidChar at hvalid
  by_cases hlow : n / 262144 = 0
  · refine ⟨_, _, .lowFour (by omega), ?_⟩
    change 144 ≤ _ ∧ _ ≤ 191
    omega
  by_cases hhigh : n / 262144 = 4
  · refine ⟨_, _, .highFour (by omega), ?_⟩
    change 128 ≤ _ ∧ _ ≤ 143
    omega
  · refine ⟨_, _, .four (by omega), ?_⟩
    change 128 ≤ _ ∧ _ ≤ 191
    omega

theorem validString_encode (char : Char) (rest : List UInt8) :
    validString (String.utf8EncodeChar char ++ rest) = validString rest := by
  have hvalid : char.val.toNat.isValidChar := char.valid
  generalize hn : char.val.toNat = n at hvalid
  have hbyte {m : Nat} (hm : m < 256) : (UInt8.ofNat m).toNat = m := by
    rw [UInt8.toNat_ofNat', Nat.mod_eq_of_lt hm]
  have hcontinues (m : Nat) : continues (UInt8.ofNat (m % 64 + 0x80)) = true := by
    rw [continues, within_iff, hbyte (by omega)]
    change 128 ≤ _ ∧ _ ≤ 191
    omega
  by_cases h₁ : n ≤ 0x7F
  · rw [encode_one (by omega)]
    apply validString_ascii
    rw [UInt8.lt_iff_toNat_lt, hbyte (by omega), hn]
    exact Nat.lt_succ_of_le h₁
  by_cases h₂ : n ≤ 0x7FF
  · rw [encode_two (by omega) (by omega), hn]
    have hs : Starts (UInt8.ofNat (n / 64 % 32 + 0xC0)).toNat 1 0x80 0xBF :=
      .two (by rw [hbyte (by omega)]; omega)
    rw [List.cons_append, List.cons_append, List.nil_append, validString_two hs, ← continues,
      hcontinues, Bool.true_and]
  by_cases h₃ : n ≤ 0xFFFF
  · obtain ⟨low, high, hs, hwithin⟩ := starts_three hvalid (by omega) h₃
    rw [encode_three (by omega) (by omega), hn]
    rw [← hbyte (show n / 4096 % 16 + 0xE0 < 256 by omega)] at hs
    rw [← hbyte (show n / 64 % 64 + 0x80 < 256 by omega), ← within_iff] at hwithin
    simp only [List.cons_append, List.nil_append, validString_three hs, hwithin, hcontinues,
      Bool.true_and]
  · have hlt : 0x10000 ≤ n := by omega
    obtain ⟨low, high, hs, hwithin⟩ := starts_four hvalid hlt
    rw [encode_four (by omega), hn]
    rw [← hbyte (show n / 262144 % 8 + 0xF0 < 256 by omega)] at hs
    rw [← hbyte (show n / 4096 % 64 + 0x80 < 256 by omega), ← within_iff] at hwithin
    simp only [List.cons_append, List.nil_append, validString_four hs, hwithin, hcontinues,
      Bool.true_and]

theorem ofNat_eq {n : Nat} (h : n = b.toNat) : UInt8.ofNat n = b := by
  rw [h, UInt8.ofNat_toNat]

theorem exists_one (h : a < 0x80) : ∃ char, String.utf8EncodeChar char = [a] := by
  rw [UInt8.lt_iff_toNat_lt] at h
  replace h : a.toNat < 128 := h
  obtain ⟨char, hchar⟩ := exists_char (n := a.toNat) (.inl (by omega))
  refine ⟨char, ?_⟩
  rw [encode_one (by omega), ofNat_eq hchar]

theorem exists_two (h : Starts a.toNat 1 low high) (hb : within low high b = true) :
    ∃ char, String.utf8EncodeChar char = [a, b] := by
  rw [within_iff] at hb
  cases h with
  | two ha =>
      replace hb : 128 ≤ b.toNat ∧ b.toNat ≤ 191 := hb
      obtain ⟨char, hchar⟩ := exists_char
        (n := (a.toNat - 192) * 64 + (b.toNat - 128)) (.inl (by omega))
      refine ⟨char, ?_⟩
      rw [encode_two (by omega) (by omega), ofNat_eq (b := a) (by omega), ofNat_eq (b := b) (by omega)]

theorem exists_three (h : Starts a.toNat 2 low high) (hb : within low high b = true)
    (hc : continues c = true) : ∃ char, String.utf8EncodeChar char = [a, b, c] := by
  rw [within_iff] at hb
  replace hc : 128 ≤ c.toNat ∧ c.toNat ≤ 191 := within_iff.mp hc
  have hcode : 0x800 ≤ (a.toNat - 224) * 4096 + (b.toNat - 128) * 64 + (c.toNat - 128) ∧
      ((a.toNat - 224) * 4096 + (b.toNat - 128) * 64 + (c.toNat - 128)).isValidChar ∧
      224 ≤ a.toNat ∧ a.toNat ≤ 239 ∧ 128 ≤ b.toNat ∧ b.toNat ≤ 191 := by
    unfold Nat.isValidChar
    cases h with
    | lowThree ha =>
        replace hb : 160 ≤ b.toNat ∧ b.toNat ≤ 191 := hb
        omega
    | highThree ha =>
        replace hb : 128 ≤ b.toNat ∧ b.toNat ≤ 159 := hb
        omega
    | three ha hne =>
        replace hb : 128 ≤ b.toNat ∧ b.toNat ≤ 191 := hb
        omega
  obtain ⟨hlow, hvalid, ha, ha', hb, hb'⟩ := hcode
  obtain ⟨char, hchar⟩ := exists_char hvalid
  refine ⟨char, ?_⟩
  rw [encode_three (by omega) (by omega), ofNat_eq (b := a) (by omega), ofNat_eq (b := b) (by omega),
    ofNat_eq (b := c) (by omega)]

theorem exists_four (h : Starts a.toNat 3 low high) (hb : within low high b = true)
    (hc : continues c = true) (hd : continues d = true) :
    ∃ char, String.utf8EncodeChar char = [a, b, c, d] := by
  rw [within_iff] at hb
  replace hc : 128 ≤ c.toNat ∧ c.toNat ≤ 191 := within_iff.mp hc
  replace hd : 128 ≤ d.toNat ∧ d.toNat ≤ 191 := within_iff.mp hd
  have hcode : 0x10000 ≤ (a.toNat - 240) * 262144 + (b.toNat - 128) * 4096 +
        (c.toNat - 128) * 64 + (d.toNat - 128) ∧
      ((a.toNat - 240) * 262144 + (b.toNat - 128) * 4096 +
        (c.toNat - 128) * 64 + (d.toNat - 128)).isValidChar ∧
      240 ≤ a.toNat ∧ a.toNat ≤ 244 ∧ 128 ≤ b.toNat ∧ b.toNat ≤ 191 := by
    unfold Nat.isValidChar
    cases h with
    | lowFour ha =>
        replace hb : 144 ≤ b.toNat ∧ b.toNat ≤ 191 := hb
        omega
    | highFour ha =>
        replace hb : 128 ≤ b.toNat ∧ b.toNat ≤ 143 := hb
        omega
    | four ha =>
        replace hb : 128 ≤ b.toNat ∧ b.toNat ≤ 191 := hb
        omega
  obtain ⟨hlow, hvalid, ha, ha', hb, hb'⟩ := hcode
  obtain ⟨char, hchar⟩ := exists_char hvalid
  refine ⟨char, ?_⟩
  rw [encode_four (by omega), ofNat_eq (b := a) (by omega), ofNat_eq (b := b) (by omega),
    ofNat_eq (b := c) (by omega), ofNat_eq (b := d) (by omega)]

/-- Only the first byte of an encoding can be an ASCII byte. -/
theorem encode_tail (char : Char) : ∀ b ∈ (String.utf8EncodeChar char).tail, ¬b < 0x80 := by
  have hbyte (m : Nat) : ¬UInt8.ofNat (m % 64 + 0x80) < 0x80 := by
    rw [UInt8.lt_iff_toNat_lt, UInt8.toNat_ofNat', Nat.not_lt]
    change 128 ≤ _
    omega
  by_cases h₁ : char.val.toNat ≤ 0x7F
  · rw [encode_one h₁]
    nofun
  by_cases h₂ : char.val.toNat ≤ 0x7FF
  · rw [encode_two (by omega) h₂]
    exact List.forall_mem_cons.mpr ⟨hbyte _, nofun⟩
  by_cases h₃ : char.val.toNat ≤ 0xFFFF
  · rw [encode_three (by omega) h₃]
    exact List.forall_mem_cons.mpr ⟨hbyte _, List.forall_mem_cons.mpr ⟨hbyte _, nofun⟩⟩
  · rw [encode_four (by omega)]
    refine List.forall_mem_cons.mpr ⟨hbyte _, ?_⟩
    exact List.forall_mem_cons.mpr ⟨hbyte _, List.forall_mem_cons.mpr ⟨hbyte _, nofun⟩⟩

end Encoding

section WellFormed

variable {text left right : List UInt8} {b : UInt8}

theorem WellFormed.encode (h : WellFormed text) (char : Char) :
    WellFormed (String.utf8EncodeChar char ++ text) := by
  obtain ⟨chars, rfl⟩ := h
  exact ⟨char :: chars, rfl⟩

theorem wellFormed_of_validString (h : validString text = true) : WellFormed text := by
  fun_induction validString text with
  | case1 => exact ⟨[], rfl⟩
  | case2 a rest ha ih =>
      obtain ⟨char, hchar⟩ := exists_one ha
      have hrest := (ih h).encode char
      rwa [hchar] at hrest
  | case3 a ha low high b rest hfirst ih =>
      rw [Bool.and_eq_true] at h
      obtain ⟨char, hchar⟩ := exists_two (starts_of_first hfirst) h.1
      have hrest := (ih h.2).encode char
      rwa [hchar] at hrest
  | case4 a ha low high b c rest hfirst ih =>
      simp only [Bool.and_eq_true] at h
      obtain ⟨char, hchar⟩ := exists_three (starts_of_first hfirst) h.1.1 h.1.2
      have hrest := (ih h.2).encode char
      rwa [hchar] at hrest
  | case5 a ha low high b c d rest hfirst ih =>
      simp only [Bool.and_eq_true] at h
      obtain ⟨char, hchar⟩ := exists_four (starts_of_first hfirst) h.1.1.1 h.1.1.2 h.1.2
      have hrest := (ih h.2).encode char
      rwa [hchar] at hrest
  | case6 => cases h

theorem validString_append (h : WellFormed left) :
    validString (left ++ right) = validString right := by
  obtain ⟨chars, rfl⟩ := h
  induction chars with
  | nil => rfl
  | cons char chars ih => rw [List.flatMap_cons, List.append_assoc, validString_encode, ih]

theorem validString_iff : validString text = true ↔ WellFormed text := by
  refine ⟨wellFormed_of_validString, fun h => ?_⟩
  rw [← List.append_nil text, validString_append h]
  rfl

/-- A well-formed text can be cut in front of any ASCII byte. -/
theorem WellFormed.cut (hb : b < 0x80) (h : WellFormed (left ++ b :: right)) : WellFormed left := by
  obtain ⟨chars, h⟩ := h
  induction chars generalizing left with
  | nil => simp at h
  | cons char chars ih =>
      rw [List.flatMap_cons, List.append_eq_append_iff] at h
      obtain ⟨inner, hleft, hrest⟩ | ⟨inner, hleft, hrest⟩ := h
      · cases inner with
        | nil =>
            refine ⟨[char], ?_⟩
            rw [List.flatMap_singleton, hleft, List.append_nil]
        | cons c inner =>
            cases hrest
            cases left with
            | nil => exact ⟨[], rfl⟩
            | cons a left =>
                have hmem : b ∈ (String.utf8EncodeChar char).tail := by
                  rw [hleft]
                  exact List.mem_append_right _ List.mem_cons_self
                exact absurd hb (encode_tail char b hmem)
      · rw [hleft]
        exact (ih hrest.symm).encode char

/-- The two sides of an ASCII byte are scanned on their own. -/
theorem validString_split (hb : b < 0x80) :
    validString (left ++ b :: right) = (validString left && validString right) := by
  rw [Bool.eq_iff_iff, Bool.and_eq_true]
  constructor
  · intro h
    have hleft := (validString_iff.mp h).cut hb
    rw [validString_append hleft, validString_ascii hb] at h
    exact ⟨validString_iff.mpr hleft, h⟩
  · rintro ⟨hleft, hright⟩
    rwa [validString_append (validString_iff.mp hleft), validString_ascii hb]

end WellFormed

end GoLease.Utf8
