import GoLease.Valkey.Store

/-!
The inspection of a server before a store is opened: the reply to INFO is
searched for the version, and the eviction policy is asked for.
-/

namespace GoLease.Valkey.Inspection

/-- strings.Split at line feeds. -/
def lines : Bytes → List Bytes
  | [] => [[]]
  | c :: rest =>
    if c = 10 then [] :: lines rest
    else match lines rest with
      | [] => [[c]]
      | line :: more => (c :: line) :: more

/-- The encodings of what unicode.IsSpace accepts. -/
def spaces : List Bytes :=
  [[9], [10], [11], [12], [13], [32], [0xC2, 0x85], [0xC2, 0xA0], [0xE1, 0x9A, 0x80]] ++
    (List.range 11).map (fun n => [0xE2, 0x80, UInt8.ofNat (0x80 + n)]) ++
    [[0xE2, 0x80, 0xA8], [0xE2, 0x80, 0xA9], [0xE2, 0x80, 0xAF], [0xE2, 0x81, 0x9F], [0xE3, 0x80, 0x80]]

def trimLeft : Nat → Bytes → Bytes
  | 0, text => text
  | fuel + 1, text =>
    match spaces.find? (·.isPrefixOf text) with
    | some space => trimLeft fuel (text.drop space.length)
    | none => text

def trimRight : Nat → Bytes → Bytes
  | 0, text => text
  | fuel + 1, text =>
    match spaces.find? (·.isSuffixOf text) with
    | some space => trimRight fuel (text.take (text.length - space.length))
    | none => text

/-- A space has a byte at least, so the length is fuel enough. -/
def trimSpace (text : Bytes) : Bytes :=
  let text := trimLeft text.length text
  trimRight text.length text

def versionField : Bytes :=
  ascii ['v', 'a', 'l', 'k', 'e', 'y', '_', 'v', 'e', 'r', 's', 'i', 'o', 'n', ':']

/-- What follows the field's name on the line. -/
def cutVersion (line : Bytes) : Option Bytes :=
  if versionField.isPrefixOf line then some (line.drop versionField.length) else none

/-- strconv.Atoi reads a signed 64-bit number. The words of the error it returns
for another text are a parameter. -/
def valkeyMajor (atoiErr : Bytes → String) (info : Bytes) : Except Error Int :=
  match (lines info).findSome? (fun line => cutVersion (trimSpace line)) with
  | none => .error (.foreign "valkey version missing")
  | some version =>
    let major := version.takeWhile (· ≠ 46)
    match Decimal.parseInt major with
    | some n => .ok n
    | none => .error (.foreign (atoiErr major))

def maxmemoryPolicy : Bytes :=
  ascii ['m', 'a', 'x', 'm', 'e', 'm', 'o', 'r', 'y', '-', 'p', 'o', 'l', 'i', 'c', 'y']

def noeviction : Bytes := ascii ['n', 'o', 'e', 'v', 'i', 'c', 't', 'i', 'o', 'n']

/-- The two answers of a server, with the state of the context after each. A
name that is not in the map of settings reads as empty. -/
structure Answers where
  info : Except Error Bytes
  afterInfo : Ctx
  config : Except Error (Bytes → Bytes)
  afterConfig : Ctx

def check (atoiErr : Bytes → String) (answers : Answers) : Option Error :=
  match answers.info with
  | .error err => some (classify answers.afterInfo err false)
  | .ok info =>
    match valkeyMajor atoiErr info with
    | .error err => some (.classified (.sentinel .errBackendUnavailable) err "Valkey inspection")
    | .ok major =>
      if major < 9 then
        some (.classified (.sentinel .errBackendUnavailable) (.foreign "valkey version is older than 9")
          "Valkey inspection")
      else match answers.config with
        | .error err => some (classify answers.afterConfig err false)
        | .ok config =>
          if config maxmemoryPolicy ≠ noeviction then
            some (wrap .errBackendUnavailable "Valkey eviction policy")
          else none

/-- Open with a client. -/
def openStore (atoiErr : Bytes → String) (sha256 : Bytes → Bytes) (ctx : Option Ctx) (answers : Answers)
    (keyPrefix : Bytes) : Except Error Store :=
  match ctx with
  | none => .error (wrap .errInvalidState "valkey context")
  | some (some err) => .error (.joined (wrap .errCanceled "valkey context") err.toError)
  | some none =>
    match check atoiErr answers with
    | some err => .error err
    | none => newStore sha256 keyPrefix

section Lines

theorem lines_append {line : Bytes} (h : 10 ∉ line) (rest : Bytes) :
    lines (line ++ 10 :: rest) = line :: lines rest := by
  induction line with
  | nil => simp [lines]
  | cons c line ih =>
      have hc : c ≠ 10 := fun he => h (he ▸ List.mem_cons_self)
      have hline := ih (fun hmem => h (List.mem_cons_of_mem c hmem))
      simp only [List.cons_append, lines, if_neg hc, hline]

/-- Lines as a server ends them. -/
def render (document : List Bytes) : Bytes := document.flatMap (fun line => line ++ [13, 10])

theorem lines_render {document : List Bytes} (h : ∀ line ∈ document, 10 ∉ line) :
    lines (render document) = document.map (· ++ [13]) ++ [[]] := by
  induction document with
  | nil => rfl
  | cons line document ih =>
      have hline : (10 : UInt8) ∉ line ++ [13] := by
        have := h line List.mem_cons_self
        simp [this]
      have hrest := ih (fun l hl => h l (List.mem_cons_of_mem line hl))
      have hcons : render (line :: document) = (line ++ [13]) ++ 10 :: render document := by
        simp [render]
      rw [hcons, lines_append hline, hrest]
      rfl

end Lines

section Trim

/-- A line with no white space around it. -/
structure Plain (line : Bytes) : Prop where
  unbroken : 10 ∉ line
  first : ∀ space ∈ spaces, ¬space <+: line
  last : ∀ space ∈ spaces, ¬space <:+ line

theorem trimLeft_of_first {text : Bytes} (h : ∀ space ∈ spaces, ¬space <+: text) (fuel : Nat) :
    trimLeft fuel text = text := by
  have hnone : spaces.find? (·.isPrefixOf text) = none := by
    rw [List.find?_eq_none]
    intro space hmem hprefix
    exact h space hmem (List.isPrefixOf_iff_prefix.mp hprefix)
  cases fuel with
  | zero => rfl
  | succ fuel => simp only [trimLeft, hnone]

theorem trimRight_of_last {text : Bytes} (h : ∀ space ∈ spaces, ¬space <:+ text) (fuel : Nat) :
    trimRight fuel text = text := by
  have hnone : spaces.find? (·.isSuffixOf text) = none := by
    rw [List.find?_eq_none]
    intro space hmem hsuffix
    exact h space hmem (List.isSuffixOf_iff_suffix.mp hsuffix)
  cases fuel with
  | zero => rfl
  | succ fuel => simp only [trimRight, hnone]

/-- The carriage return is in no longer space. -/
theorem space_return : ∀ space ∈ spaces, space.getLast? = some 13 → space = [13] := by decide

theorem find_return (line : Bytes) : spaces.find? (·.isSuffixOf (line ++ [13])) = some [13] := by
  simp [spaces, List.isSuffixOf]

theorem Plain.trimSpace {line : Bytes} (h : Plain line) : trimSpace (line ++ [13]) = line := by
  have hright : trimRight (line ++ [13]).length (line ++ [13]) = line := by
    rw [List.length_append, List.length_singleton, trimRight, find_return]
    simp only [List.length_append, List.length_singleton, Nat.add_sub_cancel, List.take_left]
    exact trimRight_of_last h.last _
  by_cases hnil : line = []
  · subst hnil
    decide
  · have hfirst : ∀ space ∈ spaces, ¬space <+: line ++ [13] := by
      intro space hmem hprefix
      rcases List.prefix_concat_iff.mp hprefix with rfl | hprefix
      · have heq := space_return _ hmem List.getLast?_concat
        exact hnil (List.append_cancel_right heq)
      · exact h.first space hmem hprefix
    simp only [Inspection.trimSpace, trimLeft_of_first hfirst, hright]

end Trim

section Version

/-- The document tells this version: its first line of that name does. -/
def Tells (document : List Bytes) (major : Nat) : Prop :=
  ∃ before rest after, document = before ++ (versionField ++ Decimal.format major ++ 46 :: rest) :: after ∧
    ∀ line ∈ before, cutVersion line = none

theorem find_render {document : List Bytes} (h : ∀ line ∈ document, Plain line) :
    (lines (render document)).findSome? (fun line => cutVersion (trimSpace line)) =
      document.findSome? cutVersion := by
  rw [lines_render (fun line hmem => (h line hmem).unbroken), List.findSome?_append]
  have hend : [([] : Bytes)].findSome? (fun line => cutVersion (trimSpace line)) = none := by decide
  rw [hend, Option.or_none]
  induction document with
  | nil => rfl
  | cons line document ih =>
      simp only [List.map_cons, List.findSome?_cons, (h line List.mem_cons_self).trimSpace]
      rw [ih (fun l hl => h l (List.mem_cons_of_mem line hl))]

theorem dot_not_mem_format (n : Nat) : 46 ∉ Decimal.format n := by
  have hdigit {d : Nat} (hd : d < 10) : (46 : UInt8) ≠ Decimal.digit d := by
    intro he
    have := Decimal.toNat_digit hd
    rw [← he] at this
    simp at this
    omega
  unfold Decimal.format
  split
  next => simpa using hdigit (by decide : 0 < 10)
  next =>
    intro hmem
    obtain ⟨d, hd, he⟩ := List.mem_map.mp hmem
    exact hdigit (Nat.digits_lt_base (by decide) (List.mem_reverse.mp hd)) he.symm

theorem Tells.find {document : List Bytes} {major : Nat} (ht : Tells document major) :
    ∃ rest, document.findSome? cutVersion = some (Decimal.format major ++ 46 :: rest) := by
  obtain ⟨before, rest, after, rfl, hbefore⟩ := ht
  have hnone : before.findSome? cutVersion = none := List.findSome?_eq_none_iff.mpr hbefore
  have hcut : cutVersion (versionField ++ Decimal.format major ++ 46 :: rest) =
      some (Decimal.format major ++ 46 :: rest) := by
    rw [cutVersion, List.append_assoc, if_pos (List.isPrefixOf_iff_prefix.mpr (List.prefix_append _ _)),
      List.drop_left]
  exact ⟨rest, by rw [List.findSome?_append, hnone, Option.none_or, List.findSome?_cons, hcut]⟩

theorem Tells.valkeyMajor {document : List Bytes} {major : Nat} (ht : Tells document major)
    (h : ∀ line ∈ document, Plain line) (atoiErr : Bytes → String) :
    valkeyMajor atoiErr (render document) =
      if major < 2 ^ 63 then .ok (major : Int) else .error (.foreign (atoiErr (Decimal.format major))) := by
  obtain ⟨rest, hfind⟩ := ht.find
  have htake : (Decimal.format major ++ 46 :: rest).takeWhile (· ≠ 46) = Decimal.format major := by
    rw [List.takeWhile_append_of_pos, List.takeWhile_cons_of_neg (by simp), List.append_nil]
    intro c hc
    simpa using fun he : c = 46 => dot_not_mem_format major (he ▸ hc)
  simp only [Inspection.valkeyMajor, find_render h, hfind, htake]
  by_cases hmajor : major < 2 ^ 63
  · rw [if_pos hmajor, Decimal.parseInt_format hmajor]
  · rw [if_neg hmajor, Decimal.parseInt_format_of_le (Nat.le_of_not_lt hmajor)]

/-- Of the servers whose INFO tells a version, Open admits exactly those from
version 9 on that do not evict, as long as the version fits an int. The others
are unavailable, not in doubt. -/
theorem open_admits {document : List Bytes} (hplain : ∀ line ∈ document, Plain line) {major : Nat}
    (htells : Tells document major) (config : Bytes → Bytes) (afterInfo afterConfig : Ctx)
    (atoiErr : Bytes → String) (sha256 : Bytes → Bytes) (keyPrefix : Bytes) :
    (9 ≤ major ∧ major < 2 ^ 63 ∧ config maxmemoryPolicy = noeviction →
      openStore atoiErr sha256 (some none) ⟨.ok (render document), afterInfo, .ok config, afterConfig⟩
        keyPrefix = newStore sha256 keyPrefix) ∧
    (¬(9 ≤ major ∧ major < 2 ^ 63 ∧ config maxmemoryPolicy = noeviction) → ∃ err,
      openStore atoiErr sha256 (some none) ⟨.ok (render document), afterInfo, .ok config, afterConfig⟩
        keyPrefix = .error err ∧ err.is .errBackendUnavailable = true ∧
        err.is .errAmbiguousOutcome = false) := by
  have hversion := htells.valkeyMajor hplain atoiErr
  refine ⟨?_, ?_⟩
  · rintro ⟨hnine, hmajor, hpolicy⟩
    rw [if_pos hmajor] at hversion
    simp only [openStore, check, hversion]
    rw [if_neg (by omega), if_neg (by simpa using hpolicy)]
  · intro hnot
    by_cases hmajor : major < 2 ^ 63
    · rw [if_pos hmajor] at hversion
      simp only [openStore, check, hversion]
      by_cases hnine : (major : Int) < 9
      · rw [if_pos hnine]
        exact ⟨_, rfl, rfl, rfl⟩
      · have hpolicy : config maxmemoryPolicy ≠ noeviction := fun he => hnot ⟨by omega, hmajor, he⟩
        rw [if_neg hnine, if_pos hpolicy]
        exact ⟨_, rfl, rfl, rfl⟩
    · rw [if_neg hmajor] at hversion
      simp only [openStore, check, hversion]
      exact ⟨_, rfl, rfl, rfl⟩

/-- The section that a Valkey 9 server returns, in part. One of its lines ends
in a letter whose encoding ends like that of a space. -/
def serverSection : List Bytes :=
  [ascii ['#', ' ', 'S', 'e', 'r', 'v', 'e', 'r'], ascii ['o', 's', ':', ' '] ++ [0xC3, 0x85], [],
    versionField ++ Decimal.format 9 ++ 46 :: ascii ['0', '.', '1']]

theorem plain_serverSection : ∀ line ∈ serverSection, Plain line := by
  have hnine : Decimal.format 9 = [57] := by decide
  have hplain : ∀ line ∈ serverSection, 10 ∉ line ∧ (∀ space ∈ spaces, ¬space <+: line) ∧
      ∀ space ∈ spaces, ¬space <:+ line := by
    rw [serverSection, hnine]
    decide
  intro line hmem
  obtain ⟨hunbroken, hfirst, hlast⟩ := hplain line hmem
  exact ⟨hunbroken, hfirst, hlast⟩

theorem open_admits_nine :
    openStore (fun _ => "invalid syntax") id (some none)
      ⟨.ok (render serverSection), none, .ok (fun _ => noeviction), none⟩ [108] = .ok ⟨id, [108]⟩ := by
  have htells : Tells serverSection 9 := ⟨serverSection.take 3, ascii ['0', '.', '1'], [], rfl, by decide⟩
  have h := (open_admits plain_serverSection htells (fun _ => noeviction) none none
    (fun _ => "invalid syntax") id [108]).1 ⟨by decide, by decide, rfl⟩
  rw [h]
  rfl

end Version

end GoLease.Valkey.Inspection
