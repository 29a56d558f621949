import Mathlib.Data.List.Sort

namespace GoLease.Fencing

variable {α β κ γ : Type*} {key : α → κ} {token : α → Nat} {log : List α}

/-- Each entry of the log has a token above all entries before it with its key. -/
def Rising (key : α → κ) (token : α → Nat) (log : List α) : Prop :=
  log.Pairwise (fun a b => key a = key b → token a < token b)

theorem rising_nil : Rising key token [] := List.Pairwise.nil

theorem Rising.concat {a : α} (h : Rising key token log)
    (hlt : ∀ b ∈ log, key b = key a → token b < token a) : Rising key token (log ++ [a]) := by
  refine List.pairwise_append.mpr ⟨h, List.pairwise_singleton _ _, ?_⟩
  intro b hb c hc
  rw [List.mem_singleton.mp hc]
  exact hlt b hb

variable [DecidableEq κ]

theorem Rising.entries (h : Rising key token log) (k : κ) :
    (log.filter (fun a => key a = k)).Pairwise (fun a b => token a < token b) := by
  refine List.pairwise_filter.mpr (List.Pairwise.imp ?_ h)
  intro a b hab ha hb
  apply hab
  rw [of_decide_eq_true ha, of_decide_eq_true hb]

/-- A log whose tokens rise and that shows nothing but what another such log
shows keeps its order, and shows each of its entries once at most. -/
theorem sublist_of_subset {log' : List β} {f : α → γ} {g : β → γ} (rank : γ → Nat)
    (h : log.Pairwise (fun a b => rank (f a) < rank (f b)))
    (h' : log'.Pairwise (fun a b => rank (g a) < rank (g b)))
    (hsub : log.map f ⊆ log'.map g) : (log.map f).Sublist (log'.map g) := by
  have hnodup : (log.map f).Nodup := by
    refine List.pairwise_map.mpr (List.Pairwise.imp ?_ h)
    intro a b hlt heq
    rw [heq] at hlt
    exact Nat.lt_irrefl _ hlt
  have : Std.Antisymm (fun a b : γ => rank a < rank b) := ⟨fun a b hab hba => absurd hab (Nat.lt_asymm hba)⟩
  have hlt : (log.map f).Pairwise (fun a b => rank a < rank b) := List.pairwise_map.mpr h
  have hlt' : (log'.map g).Pairwise (fun a b => rank a < rank b) := List.pairwise_map.mpr h'
  exact List.sublist_of_subperm_of_pairwise (List.subperm_of_subset hnodup hsub) hlt hlt'

end GoLease.Fencing
