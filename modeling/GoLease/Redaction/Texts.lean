import GoLease.Lossy.Answers
import GoLease.Lossy.Stores

/-!
What an error looks like when it is printed. The native stores keep the error
of their driver for errors.Is, and print another one.
-/

namespace GoLease.Redaction

open Lossy

def sentinelText : Sentinel → String
  | .errContended => "lease: contended"
  | .errTimeout => "lease: timeout"
  | .errCanceled => "lease: canceled"
  | .errLost => "lease: lost"
  | .errStaleOwner => "lease: stale owner"
  | .errBackendUnavailable => "lease: backend unavailable"
  | .errInvalidState => "lease: invalid state"
  | .errAmbiguousOutcome => "lease: ambiguous outcome"
  | .contextCanceled => "context canceled"
  | .contextDeadlineExceeded => "context deadline exceeded"
  | .pgxErrNoRows => "no rows in result set"

/-- The Error method of each kind of error. That of a classified one leaves the
cause out. -/
def text : Error → String
  | .sentinel target => sentinelText target
  | .foreign text => text
  | .wrapped err operation => "lease " ++ operation ++ ": " ++ text err
  | .detailed err detail => text err ++ ": " ++ detail
  | .classified classification _ operation => "lease " ++ operation ++ ": " ++ text classification
  | .joined first second => text first ++ "\n" ++ text second

/-- No word of a driver is printed. -/
def Hides : Error → Prop
  | .sentinel _ => True
  | .foreign _ => False
  | .wrapped err _ | .detailed err _ => Hides err
  | .classified classification _ _ => Hides classification
  | .joined first second => Hides first ∧ Hides second

@[simp] theorem hides_wrap (target : Sentinel) (operation : String) : Hides (wrap target operation) := trivial

/-- The errors of a reply. -/
def Silent (P : Error → Prop) (reply : Reply) : Prop := ∀ err, reply.err = some err → P err

theorem silent_ofErr {P : Error → Prop} {err : Error} (h : P err) : Silent P (.ofErr (some err)) := by
  intro other hother
  cases hother
  exact h

theorem Own.hides {err : Error} (h : Own err) : Hides err := by
  cases h with
  | wrap target operation => exact hides_wrap target operation
  | classified target cause operation => trivial

theorem Returns.silent {request : Request} {reply : Reply} (h : Returns request reply) :
    Silent Hides reply := by
  intro err herr
  simp only [Returns, herr] at h
  exact Own.hides h

end GoLease.Redaction
