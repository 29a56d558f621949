import GoLease.Backend
import GoLease.Traces

/-!
Stores whose leases end by themselves: between two grants of a slot its lease
ends no later than the last of them said.
-/

namespace GoLease.Availability

open Traces

variable {σ κ : Type}

/-- The key and the TTL of a request that asks for time. -/
def extension : Request → Option (Key × Int)
  | .tryAcquire key _ ttl => some (key, ttl)
  | .renew owned ttl => some (owned.key, ttl)
  | .validate _ | .release _ => none

section Grants

variable (slot : Key → κ) (Given : Reply → Prop)

/-- An answered call that gives or prolongs the lease of a slot up to a limit. -/
def Grants (k : κ) (limit : Int) (entry : Call × Reply) : Prop :=
  Given entry.2 ∧ ∃ key ttl, extension entry.1.request = some (key, ttl) ∧ slot key = k ∧
    limit = entry.1.now + ttl

def LastGrant (k : κ) (limit : Int) (past : List (Call × Reply)) : Prop :=
  ∃ before entry after, past = before ++ entry :: after ∧ Grants slot Given k limit entry ∧
    ∀ later ∈ after, ∀ other, ¬Grants slot Given k other later

end Grants

/-- The instant at which the lease of a slot ends, if there is one, moves only
with a grant. A refusal for contention comes before it. -/
structure Lapsing (exec : σ → Call → σ × Reply) (slot : Key → κ) (Given : Reply → Prop)
    (Fits : Call → Prop) where
  ok : σ → Prop
  ends : σ → κ → Option Int
  ok_exec : ∀ {store call}, ok store → Fits call → ok (exec store call).1
  moves : ∀ {store call}, ok store → Fits call → ∀ k,
    ends (exec store call).1 k = none ∨
    ends (exec store call).1 k = ends store k ∧
      (∀ limit, ¬Grants slot Given k limit (call, (exec store call).2)) ∨
    ∃ limit e, Grants slot Given k limit (call, (exec store call).2) ∧
      ends (exec store call).1 k = some e ∧ e ≤ limit
  contended : ∀ {store call key owner ttl err}, ok store → Fits call →
    call.request = .tryAcquire key owner ttl → (exec store call).2.err = some err →
    err.is .errContended = true → ∃ e, ends store (slot key) = some e ∧ call.now < e

section Run

variable {exec : σ → Call → σ × Reply} {slot : Key → κ} {Given : Reply → Prop} {Fits : Call → Prop}

theorem LastGrant.append {k : κ} {limit : Int} {past : List (Call × Reply)} {entry : Call × Reply}
    (h : LastGrant slot Given k limit past) (hentry : ∀ other, ¬Grants slot Given k other entry) :
    LastGrant slot Given k limit (past ++ [entry]) := by
  obtain ⟨before, grant, after, rfl, hgrant, hafter⟩ := h
  refine ⟨before, grant, after ++ [entry], by simp, hgrant, ?_⟩
  intro later hmem
  rcases List.mem_append.mp hmem with hmem | hmem
  · exact hafter later hmem
  · rw [List.mem_singleton.mp hmem]
    exact hentry

theorem lastGrant_concat {k : κ} {limit : Int} {entry : Call × Reply} (past : List (Call × Reply))
    (h : Grants slot Given k limit entry) : LastGrant slot Given k limit (past ++ [entry]) :=
  ⟨past, entry, [], rfl, h, fun _ hmem => absurd hmem List.not_mem_nil⟩

theorem Lapsing.run (l : Lapsing exec slot Given Fits) {store : σ} (hok : l.ok store)
    (hempty : ∀ k, l.ends store k = none) {calls : List Call} (hfits : ∀ call ∈ calls, Fits call) :
    l.ok (run exec store calls) ∧ ∀ k e, l.ends (run exec store calls) k = some e →
      ∃ limit, LastGrant slot Given k limit (trace exec store calls) ∧ e ≤ limit := by
  induction calls using List.reverseRecOn with
  | nil =>
      refine ⟨hok, fun k e he => ?_⟩
      rw [run_nil, hempty k] at he
      cases he
  | append_singleton calls call ih =>
      obtain ⟨hok, hlast⟩ := ih (fun c hc => hfits c (List.mem_append_left _ hc))
      have hcall := hfits call (List.mem_append_right _ (List.mem_singleton_self _))
      rw [run_append, trace_append]
      refine ⟨l.ok_exec hok hcall, fun k e he => ?_⟩
      rcases l.moves hok hcall k with hnone | ⟨hsame, hnot⟩ | ⟨limit, e', hgrant, hends, hle⟩
      · cases hnone.symm.trans he
      · obtain ⟨limit, hlimit, hle⟩ := hlast k e (hsame.symm.trans he)
        exact ⟨limit, hlimit.append hnot, hle⟩
      · obtain rfl : e' = e := Option.some.inj (hends.symm.trans he)
        exact ⟨limit, lastGrant_concat _ hgrant, hle⟩

/-- A refusal for contention is owed to a grant that has not yet run out. -/
theorem Lapsing.contention (l : Lapsing exec slot Given Fits) {store : σ} (hok : l.ok store)
    (hempty : ∀ k, l.ends store k = none) {calls : List Call} (hfits : ∀ call ∈ calls, Fits call)
    {call : Call} (hcall : Fits call) {key : Key} {owner : Bytes} {ttl : Int}
    (hrequest : call.request = .tryAcquire key owner ttl) {err : Error}
    (herr : (exec (Traces.run exec store calls) call).2.err = some err)
    (hcontended : err.is .errContended = true) :
    ∃ limit, LastGrant slot Given (slot key) limit (trace exec store calls) ∧ call.now < limit := by
  obtain ⟨hok, hlast⟩ := l.run hok hempty hfits
  obtain ⟨e, he, hlt⟩ := l.contended hok hcall hrequest herr hcontended
  obtain ⟨limit, hlimit, hle⟩ := hlast _ e he
  exact ⟨limit, hlimit, Int.lt_of_lt_of_le hlt hle⟩

end Run

end GoLease.Availability
