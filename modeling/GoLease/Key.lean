import GoLease.Backend
import GoLease.Utf8

namespace GoLease

def maxKeyBytes : Nat := 256

def slash : UInt8 := 0x2F

def Key.string (key : Key) : Bytes := key.value

/-- strings.ContainsAny with the three bytes no segment may hold. -/
def containsControl (segment : Bytes) : Bool := segment.any fun b => b == 0 || b == 13 || b == 10

def validSegment (segment : Bytes) : Bool :=
  !segment.isEmpty && Utf8.validString segment && !containsControl segment

def invalidKey : Error := .detailed (.sentinel .errInvalidState) "invalid key"

def newKey (namespace_ name : Bytes) : Except Error Key :=
  let value := namespace_ ++ slash :: name
  if !validSegment namespace_ || !validSegment name || decide (value.length > maxKeyBytes)
    then .error invalidKey
    else .ok ⟨value⟩

/-- strings.Cut around the first slash; none where it is not found. -/
def cut : Bytes → Option (Bytes × Bytes)
  | [] => none
  | b :: rest =>
    if b = slash then some ([], rest)
    else match cut rest with
      | none => none
      | some (before, after) => some (b :: before, after)

def parseKey (value : Bytes) : Except Error Key :=
  match cut value with
  | none => .error invalidKey
  | some (namespace_, name) => newKey namespace_ name

/-- A valid segment, as a property of its bytes. -/
structure Segment (segment : Bytes) : Prop where
  nonempty : segment ≠ []
  utf8 : Utf8.WellFormed segment
  clean : ∀ b ∈ segment, b ≠ 0 ∧ b ≠ 13 ∧ b ≠ 10

theorem containsControl_eq_false {segment : Bytes} :
    containsControl segment = false ↔ ∀ b ∈ segment, b ≠ 0 ∧ b ≠ 13 ∧ b ≠ 10 := by
  simp [containsControl, and_assoc]

theorem validSegment_iff {segment : Bytes} : validSegment segment = true ↔ Segment segment := by
  rw [validSegment, Bool.and_eq_true, Bool.and_eq_true, Bool.not_eq_true', Bool.not_eq_true',
    List.isEmpty_eq_false_iff, Utf8.validString_iff, containsControl_eq_false]
  exact ⟨fun h => ⟨h.1.1, h.1.2, h.2⟩, fun h => ⟨⟨h.nonempty, h.utf8⟩, h.clean⟩⟩

section Keys

variable {value namespace_ name before after : Bytes} {key : Key}

theorem newKey_ok_iff : newKey namespace_ name = .ok key ↔
    key = ⟨namespace_ ++ slash :: name⟩ ∧ Segment namespace_ ∧ Segment name ∧
      (namespace_ ++ slash :: name).length ≤ maxKeyBytes := by
  unfold newKey
  dsimp only
  rw [← validSegment_iff, ← validSegment_iff]
  split
  next h =>
    simp only [Bool.or_eq_true, Bool.not_eq_true', decide_eq_true_eq] at h
    refine ⟨nofun, ?_⟩
    rintro ⟨-, hnamespace, hname, hlength⟩
    simp only [hnamespace, hname, Bool.true_eq_false, false_or] at h
    omega
  next h =>
    simp only [Bool.or_eq_true, Bool.not_eq_true', decide_eq_true_eq, not_or, Bool.not_eq_false] at h
    constructor
    · intro hkey
      cases hkey
      exact ⟨rfl, h.1.1, h.1.2, by omega⟩
    · rintro ⟨rfl, -⟩
      rfl

theorem newKey_error (h : ∀ key, newKey namespace_ name ≠ .ok key) :
    newKey namespace_ name = .error invalidKey := by
  unfold newKey at h ⊢
  dsimp only at h ⊢
  split
  next => rfl
  next hvalid =>
    rw [if_neg hvalid] at h
    exact absurd rfl (h _)

theorem cut_some_iff : cut value = some (before, after) ↔
    value = before ++ slash :: after ∧ slash ∉ before := by
  induction value generalizing before with
  | nil => simp [cut]
  | cons b rest ih =>
      rw [cut]
      split
      next hb =>
        subst hb
        cases before with
        | nil => simp [eq_comm]
        | cons c before => simp +contextual [eq_comm]
      next hb =>
        cases before with
        | nil =>
            rw [List.nil_append, List.cons.injEq]
            refine iff_of_false ?_ (fun h => hb h.1.1)
            split <;> nofun
        | cons c before =>
            have hrest := @ih before
            grind

theorem cut_none (h : cut value = none) : slash ∉ value := by
  intro hmem
  obtain ⟨before, after, hvalue, hbefore⟩ := List.eq_append_cons_of_mem hmem
  rw [cut_some_iff.mpr ⟨hvalue, hbefore⟩] at h
  cases h

/-- The grammar of a key, on the whole string. -/
structure Grammar (value : Bytes) : Prop where
  utf8 : Utf8.WellFormed value
  bounded : value.length ≤ maxKeyBytes
  clean : ∀ b ∈ value, b ≠ 0 ∧ b ≠ 13 ∧ b ≠ 10
  split : ∃ i, value[i]? = some slash ∧ (∀ j < i, value[j]? ≠ some slash) ∧
    i ≠ 0 ∧ i + 1 ≠ value.length

/-- What holds of a joined string holds of its two sides, the slash being ASCII. -/
theorem segments_iff : Segment before ∧ Segment after ↔
    before ≠ [] ∧ after ≠ [] ∧ Utf8.WellFormed (before ++ slash :: after) ∧
      ∀ b ∈ before ++ slash :: after, b ≠ 0 ∧ b ≠ 13 ∧ b ≠ 10 := by
  have hutf8 : Utf8.WellFormed (before ++ slash :: after) ↔
      Utf8.WellFormed before ∧ Utf8.WellFormed after := by
    simp only [← Utf8.validString_iff, Utf8.validString_split (show slash < 0x80 by decide),
      Bool.and_eq_true]
  rw [hutf8, List.forall_mem_append, List.forall_mem_cons]
  constructor
  · rintro ⟨hbefore, hafter⟩
    exact ⟨hbefore.nonempty, hafter.nonempty, ⟨hbefore.utf8, hafter.utf8⟩, hbefore.clean,
      by decide, hafter.clean⟩
  · rintro ⟨hbefore, hafter, hutf8, hclean, -, hclean'⟩
    exact ⟨⟨hbefore, hutf8.1, hclean⟩, hafter, hutf8.2, hclean'⟩

/-- The first slash of a string is the one it is cut at. -/
theorem first_slash (hfirst : slash ∉ before) (after : Bytes) {i : Nat} :
    ((before ++ slash :: after)[i]? = some slash ∧
      ∀ j < i, (before ++ slash :: after)[j]? ≠ some slash) ↔ i = before.length := by
  have hbefore (j : Nat) (hj : j < before.length) :
      (before ++ slash :: after)[j]? ≠ some slash := by
    rw [List.getElem?_append_left hj]
    exact fun h => hfirst (List.mem_of_getElem? h)
  have hslash : (before ++ slash :: after)[before.length]? = some slash := by simp
  constructor
  · rintro ⟨hi, hearlier⟩
    apply Nat.le_antisymm
    · exact Nat.le_of_not_lt fun hlt => hearlier _ hlt hslash
    · exact Nat.le_of_not_lt fun hlt => hbefore i hlt hi
  · rintro rfl
    exact ⟨hslash, hbefore⟩

theorem grammar_iff (hfirst : slash ∉ before) : Grammar (before ++ slash :: after) ↔
    (Segment before ∧ Segment after) ∧ (before ++ slash :: after).length ≤ maxKeyBytes := by
  rw [segments_iff]
  constructor
  · rintro ⟨hutf8, hbounded, hclean, i, hi, hearlier, hne, hne'⟩
    obtain rfl := (first_slash hfirst after).mp ⟨hi, hearlier⟩
    refine ⟨⟨List.ne_nil_of_length_pos (by omega), ?_, hutf8, hclean⟩, hbounded⟩
    rintro rfl
    exact hne' (by rw [List.length_append, List.length_singleton])
  · rintro ⟨⟨hbefore, hafter, hutf8, hclean⟩, hbounded⟩
    obtain ⟨hi, hearlier⟩ := (first_slash hfirst after).mpr rfl
    have hlt := List.length_pos_iff.mpr hafter
    refine ⟨hutf8, hbounded, hclean, before.length, hi, hearlier, ?_, ?_⟩
    · exact fun h => hbefore (List.eq_nil_of_length_eq_zero h)
    · rw [List.length_append, List.length_cons]
      omega

theorem parseKey_ok_iff : parseKey value = .ok key ↔ key = ⟨value⟩ ∧ Grammar value := by
  unfold parseKey
  split
  next hcut =>
    refine ⟨nofun, ?_⟩
    rintro ⟨-, hgrammar⟩
    obtain ⟨i, hi, -⟩ := hgrammar.split
    exact absurd (List.mem_of_getElem? hi) (cut_none hcut)
  next before after hcut =>
    obtain ⟨rfl, hfirst⟩ := cut_some_iff.mp hcut
    rw [newKey_ok_iff, grammar_iff hfirst, and_assoc]

theorem parseKey_error (h : ∀ key, parseKey value ≠ .ok key) : parseKey value = .error invalidKey := by
  unfold parseKey at h ⊢
  split
  next => rfl
  next before after hcut =>
    rw [hcut] at h
    exact newKey_error h

/-- ParseKey accepts exactly the grammar. -/
theorem parseKey_accepts (value : Bytes) :
    ((∃ key, parseKey value = .ok key) ↔ Grammar value) ∧
      (¬Grammar value → ∃ err, parseKey value = .error err ∧ err.is .errInvalidState = true) := by
  have haccepts : (∃ key, parseKey value = .ok key) ↔ Grammar value := by
    constructor
    · rintro ⟨key, hkey⟩
      exact (parseKey_ok_iff.mp hkey).2
    · exact fun hgrammar => ⟨⟨value⟩, parseKey_ok_iff.mpr ⟨rfl, hgrammar⟩⟩
  refine ⟨haccepts, fun hgrammar => ⟨invalidKey, ?_, rfl⟩⟩
  apply parseKey_error
  exact fun key hkey => hgrammar (haccepts.mp ⟨key, hkey⟩)

example : parseKey (ascii ['q', '/', 'a', '/', 'b']) = .ok ⟨ascii ['q', '/', 'a', '/', 'b']⟩ := rfl

/-- The slash that joins a key is its first one, or one of the namespace is. -/
theorem grammar_of_segments (hnamespace : Segment namespace_) (hname : Segment name)
    (hlength : (namespace_ ++ slash :: name).length ≤ maxKeyBytes) :
    Grammar (namespace_ ++ slash :: name) ↔ namespace_.head? ≠ some slash := by
  obtain ⟨-, -, hutf8, hclean⟩ := segments_iff.mp ⟨hnamespace, hname⟩
  have hhead : (namespace_ ++ slash :: name)[0]? = namespace_.head? := by
    rw [List.getElem?_append_left (List.length_pos_iff.mpr hnamespace.nonempty), List.head?_eq_getElem?]
  have hjoint : (namespace_ ++ slash :: name)[namespace_.length]? = some slash := by simp
  constructor
  · intro hgrammar
    obtain ⟨i, -, hearlier, hne, -⟩ := hgrammar.split
    rw [← hhead]
    exact hearlier 0 (Nat.pos_of_ne_zero hne)
  · intro hne
    obtain ⟨before, after, hvalue, hfirst⟩ := List.eq_append_cons_of_mem (List.mem_of_getElem? hjoint)
    obtain ⟨hi, hearlier⟩ := (first_slash hfirst after).mpr rfl
    rw [← hvalue] at hi hearlier
    have hle : before.length ≤ namespace_.length :=
      Nat.le_of_not_lt fun hlt => hearlier _ hlt hjoint
    have hpos := List.length_pos_iff.mpr hname.nonempty
    refine ⟨hutf8, hlength, hclean, before.length, hi, hearlier, ?_, ?_⟩
    · intro hzero
      rw [hzero, hhead] at hi
      exact hne hi
    · rw [List.length_append, List.length_cons]
      omega

/-- A key can be parsed back unless its namespace begins with a slash: that
one is then found first, with nothing in front of it. -/
theorem newKey_parseKey (namespace_ name : Bytes) (key : Key) (h : newKey namespace_ name = .ok key) :
    (parseKey key.string = .ok key ↔ namespace_.head? ≠ some slash) ∧
      ∀ value parsed, parseKey value = .ok parsed → parsed.string = value := by
  constructor
  · obtain ⟨rfl, hnamespace, hname, hlength⟩ := newKey_ok_iff.mp h
    rw [parseKey_ok_iff, ← grammar_of_segments hnamespace hname hlength]
    exact and_iff_right rfl
  · intro value parsed hparsed
    obtain ⟨rfl, -⟩ := parseKey_ok_iff.mp hparsed
    rfl

theorem newKey_parseKey_queue :
    newKey (ascii ['q', 'u', 'e', 'u', 'e']) (ascii ['a', '/', 'b']) =
        .ok ⟨ascii ['q', 'u', 'e', 'u', 'e', '/', 'a', '/', 'b']⟩ ∧
      parseKey (ascii ['q', 'u', 'e', 'u', 'e', '/', 'a', '/', 'b']) =
        .ok ⟨ascii ['q', 'u', 'e', 'u', 'e', '/', 'a', '/', 'b']⟩ :=
  ⟨rfl, (newKey_parseKey (ascii ['q', 'u', 'e', 'u', 'e']) (ascii ['a', '/', 'b']) _ rfl).1.mpr (by decide)⟩

/-- NewKey joins "/a" and "b" to a key that ParseKey refuses. -/
theorem newKey_leading_slash :
    newKey (ascii ['/', 'a']) (ascii ['b']) = .ok ⟨ascii ['/', 'a', '/', 'b']⟩ ∧
      parseKey (Key.string ⟨ascii ['/', 'a', '/', 'b']⟩) = .error invalidKey :=
  ⟨rfl, rfl⟩

end Keys

end GoLease
