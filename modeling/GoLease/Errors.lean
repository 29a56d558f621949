import Mathlib.Data.Option.Basic

namespace GoLease

/-- The sentinels of the lease package, the two of package context and the
one of pgx that a caller compares an error with. -/
inductive Sentinel
  | errContended
  | errTimeout
  | errCanceled
  | errLost
  | errStaleOwner
  | errBackendUnavailable
  | errInvalidState
  | errAmbiguousOutcome
  | contextCanceled
  | contextDeadlineExceeded
  | pgxErrNoRows
  deriving DecidableEq, Repr

/-- An error value as errors.Is sees it: sentinels and driver errors at the
leaves, one node for each way the package wraps or joins them. -/
inductive Error
  | sentinel (target : Sentinel)
  | foreign (text : String)
  | wrapped (err : Error) (operation : String)
  | detailed (err : Error) (text : String)
  | classified (classification cause : Error) (operation : String)
  | joined (first second : Error)
  deriving DecidableEq, Repr

def Error.is : Error → Sentinel → Bool
  | .sentinel s, target => s == target
  | .foreign _, _ => false
  | .wrapped err _, target | .detailed err _, target => err.is target
  | .classified classification cause _, target => classification.is target || cause.is target
  | .joined first second, target => first.is target || second.is target

/-- errors.Is with any error value as its target. -/
def Error.finds : Error → Error → Bool
  | .sentinel s, target => .sentinel s == target
  | .foreign text, target => .foreign text == target
  | .wrapped err operation, target => .wrapped err operation == target || err.finds target
  | .detailed err text, target => .detailed err text == target || err.finds target
  | .classified classification cause operation, target =>
    .classified classification cause operation == target || classification.finds target ||
      cause.finds target
  | .joined first second, target =>
    .joined first second == target || first.finds target || second.finds target

/-- The package's Wrap applied to one of its sentinels. -/
def wrap (target : Sentinel) (operation : String) : Error := .wrapped (.sentinel target) operation

/-- errors.Join of two errors that may be nil. -/
def errorsJoin : Option Error → Option Error → Option Error
  | none, second => second
  | some first, none => some first
  | some first, some second => some (.joined first second)

@[simp] theorem wrap_is (s target : Sentinel) (operation : String) :
    (wrap s operation).is target = (s == target) := rfl

@[simp] theorem errorsJoin_eq_none {first second : Option Error} :
    errorsJoin first second = none ↔ first = none ∧ second = none := by
  cases first <;> cases second <;> simp [errorsJoin]

@[simp] theorem finds_self (err : Error) : err.finds err = true := by
  cases err <;> simp [Error.finds]

/-- An error that is found brings the sentinels that it wraps. -/
theorem is_of_finds {err target : Error} {s : Sentinel} (h : err.finds target = true)
    (hs : target.is s = true) : err.is s = true := by
  induction err with
  | sentinel | foreign =>
      simp only [Error.finds, beq_iff_eq] at h
      rw [h]
      exact hs
  | wrapped err operation ih | detailed err text ih =>
      simp only [Error.finds, Bool.or_eq_true, beq_iff_eq] at h
      rcases h with rfl | h
      · exact hs
      · exact ih h
  | classified classification cause operation ihl ihr | joined first second ihl ihr =>
      simp only [Error.finds, Bool.or_eq_true, beq_iff_eq] at h
      rcases h with (rfl | h) | h
      · exact hs
      · simp only [Error.is, ihl h, Bool.true_or]
      · simp only [Error.is, ihr h, Bool.or_true]

theorem finds_joined {first second target : Error}
    (h : first.finds target = true ∨ second.finds target = true) :
    (Error.joined first second).finds target = true := by
  simp only [Error.finds, Bool.or_eq_true]
  rcases h with h | h
  · exact .inl (.inr h)
  · exact .inr h

/-- Joining loses no error. -/
theorem errorsJoin_finds {first second : Option Error} {target : Error}
    (h : (∃ a, first = some a ∧ a.finds target = true) ∨ ∃ b, second = some b ∧ b.finds target = true) :
    ∃ err, errorsJoin first second = some err ∧ err.finds target = true := by
  rcases h with ⟨a, rfl, ha⟩ | ⟨b, rfl, hb⟩
  · cases second with
    | none => exact ⟨a, rfl, ha⟩
    | some b => exact ⟨_, rfl, finds_joined (.inl ha)⟩
  · cases first with
    | none => exact ⟨b, rfl, hb⟩
    | some a => exact ⟨_, rfl, finds_joined (.inr hb)⟩

/-- What Err of a context returns once the context is done. -/
inductive ContextErr
  | canceled
  | deadlineExceeded
  deriving DecidableEq, Repr

def ContextErr.toError : ContextErr → Error
  | .canceled => .sentinel .contextCanceled
  | .deadlineExceeded => .sentinel .contextDeadlineExceeded

/-- A context enters a call only through the result of its Err method at the
moment the call asks for it. -/
abbrev Ctx := Option ContextErr

end GoLease
